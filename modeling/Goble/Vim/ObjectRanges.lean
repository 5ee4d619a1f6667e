import Goble.Vim.Brackets
import Goble.Vim.Lines
import Goble.Vim.WordMotions

/-!
# Text objects are well formed

An inner object lies in the object around it and both lie in the text (`Nested`), and the word, the
paragraph and the block around a position hold it. The one exception is a paragraph from a newline:
it is the paragraph that ends the text, and two later newlines with nothing but whitespace between
them cut it off from the position (`objectsFormed_iff`).
-/

namespace Goble.Vim

open Text (isWhitespace)

def Range.Contains (range : Range) (pos : Nat) : Prop := range.start ≤ pos ∧ pos < range.stop

def Range.Formed (range : Range) (chars : List Char) : Prop :=
  range.start ≤ range.stop ∧ range.stop ≤ chars.length

/-- The range covers a line that meets the position's character. -/
def Range.RefersTo (range : Range) (chars : List Char) (pos : Nat) : Prop :=
  ∃ line ∈ lineRanges chars, line.start ≤ pos + 1 ∧ pos ≤ line.stop ∧
    range.start ≤ line.start ∧ line.stop ≤ range.stop

structure Nested (chars : List Char) (inner around : Option Range) : Prop where
  inner_formed : ∀ range, inner = some range → range.Formed chars
  around_formed : ∀ range, around = some range → range.Formed chars
  inside : ∀ range, inner = some range →
    ∃ outer, around = some outer ∧ outer.start ≤ range.start ∧ range.stop ≤ outer.stop

/-- The text objects of a position are well formed. -/
structure ObjectsFormed (chars : List Char) (pos : Nat) : Prop where
  word : ∀ kind, Nested chars (innerWord chars pos kind) (aWord chars pos kind)
  paragraph : Nested chars (innerParagraph chars pos) (aParagraph chars pos)
  quote : ∀ quote, Nested chars (innerQuote chars pos quote) (aQuote chars pos quote)
  block : ∀ bracket padding,
    Nested chars (innerBlock chars pos bracket padding) (aBlock chars pos bracket)
  word_contains : ∀ kind range, aWord chars pos kind = some range → range.Contains pos
  paragraph_contains : ∀ range, aParagraph chars pos = some range → range.Contains pos
  block_contains : ∀ bracket range, aBlock chars pos bracket = some range → range.Contains pos
  newline : chars[pos]? = some '\n' → ∀ range,
    innerParagraph chars pos = some range ∨ aParagraph chars pos = some range →
      range.RefersTo chars pos

variable {chars rest : List Char} {pos i j : Nat} {range : Range} {p : Char → Bool}

/-! ### Words -/

theorem wordRun_contains {c : Char} (kind : WordKind) (hc : chars[pos]? = some c) :
    (wordRun chars pos (.of c) kind).Contains pos := by
  obtain ⟨hback, -⟩ := backWhile_spec (fun d => (CharKind.of d).continues (.of c) kind) chars pos
  refine ⟨hback, ?_⟩
  have hdrop : chars.drop pos = c :: chars.drop (pos + 1) := by
    obtain ⟨hlt, rfl⟩ := List.getElem?_eq_some_iff.mp hc
    exact List.drop_eq_getElem_cons hlt
  have hself : (CharKind.of c).continues (.of c) kind = true := CharKind.continues_self _ kind
  show pos <
    pos + ((chars.drop pos).takeWhile fun d => (CharKind.of d).continues (.of c) kind).length
  rw [hdrop, List.takeWhile_cons, if_pos hself, List.length_cons]
  omega

theorem aWord_around {c : Char} {kind : WordKind} (hc : chars[pos]? = some c)
    (h : aWord chars pos kind = some range) :
    range.start ≤ (wordRun chars pos (.of c) kind).start ∧
      (wordRun chars pos (.of c) kind).stop ≤ range.stop := by
  rw [aWord, hc, Option.map_some] at h
  obtain rfl := Option.some.inj h
  have hback : ∀ i, backWhile isWhitespace chars i ≤ i := fun i =>
    (backWhile_spec isWhitespace chars i).1
  have hforward : ∀ (p : Char → Bool) i, i ≤ forwardWhile p chars i := fun p i =>
    Nat.le_add_right i _
  dsimp only
  split_ifs
  · split
    · exact ⟨Nat.le_refl _, Nat.le_refl _⟩
    · exact ⟨Nat.le_refl _, hforward _ _⟩
  · split
    · split_ifs
      · exact ⟨Nat.le_refl _, hforward _ _⟩
      · exact ⟨hback _, Nat.le_refl _⟩
    · exact ⟨hback _, Nat.le_refl _⟩

theorem aWord_contains {kind : WordKind} (h : aWord chars pos kind = some range) :
    range.Contains pos := by
  obtain ⟨c, hc, -⟩ := Option.map_eq_some_iff.mp h
  obtain ⟨hstart, hstop⟩ := aWord_around hc h
  obtain ⟨hback, hforward⟩ := wordRun_contains kind hc
  exact ⟨Nat.le_trans hstart hback, Nat.lt_of_lt_of_le hforward hstop⟩

theorem nested_word (hpos : pos < chars.length) (kind : WordKind) :
    Nested chars (innerWord chars pos kind) (aWord chars pos kind) := by
  refine ⟨fun range h => ?_, fun range h => ?_, fun range h => ?_⟩
  · obtain ⟨c, hc, rfl⟩ := Option.map_eq_some_iff.mp h
    obtain ⟨hback, hforward⟩ := wordRun_contains kind hc
    exact ⟨Nat.le_trans hback (Nat.le_of_lt hforward), innerWord_stop_le hpos h⟩
  · obtain ⟨hstart, hstop⟩ := aWord_contains h
    exact ⟨Nat.le_trans hstart (Nat.le_of_lt hstop), aWord_stop_le hpos h⟩
  · obtain ⟨c, hc, rfl⟩ := Option.map_eq_some_iff.mp h
    obtain ⟨outer, houter⟩ : ∃ outer, aWord chars pos kind = some outer := by
      rw [aWord, hc]
      exact ⟨_, rfl⟩
    exact ⟨outer, houter, aWord_around hc houter⟩

/-! ### Quotes -/

theorem findBehind_lt {lo : Nat} (h : findBehind p chars lo i = some j) : j < i := by
  induction i with
  | zero => cases h
  | succ i ih =>
    unfold findBehind at h
    split_ifs at h
    · obtain rfl := Option.some.inj h
      exact Nat.lt_succ_self _
    · exact Nat.lt_succ_of_lt (ih h)

theorem findAhead_le {hi : Nat} (h : findAhead p hi i rest = some j) : i ≤ j := by
  induction rest generalizing i with
  | nil => cases h
  | cons c rest ih =>
    unfold findAhead at h
    split_ifs at h
    · exact Nat.le_of_eq (Option.some.inj h)
    · exact Nat.le_of_succ_le (ih h)

theorem aQuote_two_le {quote : Quote} (h : aQuote chars pos quote = some range) :
    range.start + 2 ≤ range.stop := by
  unfold aQuote at h
  dsimp only at h
  split_ifs at h
  · obtain ⟨start, hstart, rfl⟩ := Option.map_eq_some_iff.mp h
    have hlt := findBehind_lt hstart
    exact Nat.succ_le_succ hlt
  · obtain ⟨stop, hstop, rfl⟩ := Option.map_eq_some_iff.mp h
    exact Nat.succ_le_succ (findAhead_le hstop)
  · split at h
    · next hstart hstop =>
      obtain rfl := Option.some.inj h
      exact Nat.succ_le_succ (Nat.lt_of_lt_of_le (findBehind_lt hstart) (findAhead_le hstop))
    · obtain ⟨stop, hstop, rfl⟩ := Option.map_eq_some_iff.mp h
      exact Nat.succ_le_succ (findAhead_le hstop)
    · cases h

theorem nested_quote (hpos : pos < chars.length) (quote : Quote) :
    Nested chars (innerQuote chars pos quote) (aQuote chars pos quote) := by
  refine ⟨fun range h => ?_, fun range h => ?_, fun range h => ?_⟩
  · obtain ⟨outer, houter, rfl⟩ := Option.map_eq_some_iff.mp h
    have htwo := aQuote_two_le houter
    exact ⟨by dsimp only; omega, innerQuote_stop_le hpos h⟩
  · have htwo := aQuote_two_le h
    exact ⟨by omega, aQuote_stop_le hpos h⟩
  · obtain ⟨outer, houter, rfl⟩ := Option.map_eq_some_iff.mp h
    exact ⟨outer, houter, Nat.le_succ _, Nat.sub_le _ _⟩

/-! ### Blocks -/

theorem aBlock_contains {bracket : Bracket} (h : aBlock chars pos bracket = some range) :
    range.Contains pos ∧ range.start + 2 ≤ range.stop := by
  obtain ⟨a, hat, -⟩ := Option.bind_eq_some_iff.mp h
  by_cases hbracket : ∃ opens : Bool, a = if opens then bracket.opening else bracket.closing
  · obtain ⟨opens, rfl⟩ := hbracket
    rw [aBlock_of_bracket hat] at h
    obtain ⟨other, hother, rfl⟩ := Option.map_eq_some_iff.mp h
    cases opens with
    | false =>
      have hbehind := matchingBracket_behind hother
      rw [if_neg (by omega)]
      exact ⟨⟨Nat.le_of_lt hbehind, Nat.lt_succ_self pos⟩, Nat.succ_le_succ hbehind⟩
    | true =>
      obtain ⟨hahead, -⟩ := matchingBracket_ahead hother
      rw [if_pos hahead]
      exact ⟨⟨Nat.le_refl pos, Nat.lt_succ_of_lt hahead⟩, Nat.succ_le_succ hahead⟩
  · rw [not_exists] at hbracket
    obtain ⟨before, rest, rfl, rfl⟩ := exists_append_cons hat
    obtain ⟨s, e, rfl, hencloses⟩ := encloses_of_aBlock (hbracket true) (hbracket false) h
    obtain ⟨-, hstart, hstop⟩ := hencloses
    exact ⟨⟨Nat.le_of_lt hstart, Nat.lt_succ_of_lt hstop⟩, by dsimp only; omega⟩

theorem trimTrailing_ge {start stop : Nat} (h : start ≤ stop) :
    start ≤ trimTrailing chars start stop i := by
  induction i with
  | zero => exact h
  | succ i ih =>
    unfold trimTrailing
    split_ifs
    · omega
    · exact ih
    · exact h

theorem trimLeading_bounds (rest : List Char) {start stop : Nat} (h : start ≤ stop)
    (hi : start ≤ i) :
    start ≤ trimLeading start stop i rest ∧ trimLeading start stop i rest ≤ stop := by
  induction rest generalizing i with
  | nil => exact ⟨Nat.le_refl _, h⟩
  | cons c rest ih =>
    unfold trimLeading
    split_ifs
    · omega
    · exact ih (by omega)
    · exact ⟨Nat.le_refl _, h⟩

theorem innerBlock_inside {bracket : Bracket} {padding : Bool}
    (h : innerBlock chars pos bracket padding = some range) :
    ∃ outer, aBlock chars pos bracket = some outer ∧ outer.start ≤ range.start ∧
      range.start ≤ range.stop ∧ range.stop ≤ outer.stop := by
  obtain ⟨outer, houter, h⟩ := Option.bind_eq_some_iff.mp h
  obtain rfl := Option.some.inj h
  refine ⟨outer, houter, ?_⟩
  have htwo := (aBlock_contains houter).2
  have hlow : outer.start + 1 ≤
      trimTrailing chars (outer.start + 1) (outer.stop - 1) (outer.stop - 1) :=
    trimTrailing_ge (by omega)
  have hhigh : trimTrailing chars (outer.start + 1) (outer.stop - 1) (outer.stop - 1) ≤
      outer.stop - 1 := trimTrailing_le (Nat.le_refl _)
  have hlead := trimLeading_bounds (chars.drop (outer.start + 1)) hlow (Nat.le_refl _)
  dsimp only
  split_ifs
  · omega
  · omega

theorem nested_block (hpos : pos < chars.length) (bracket : Bracket) (padding : Bool) :
    Nested chars (innerBlock chars pos bracket padding) (aBlock chars pos bracket) := by
  refine ⟨fun range h => ?_, fun range h => ?_, fun range h => ?_⟩
  · obtain ⟨outer, -, -, hordered, -⟩ := innerBlock_inside h
    exact ⟨hordered, innerBlock_stop_le hpos h⟩
  · have htwo := (aBlock_contains h).2
    exact ⟨by omega, aBlock_stop_le hpos h⟩
  · obtain ⟨outer, houter, hstart, -, hstop⟩ := innerBlock_inside h
    exact ⟨outer, houter, hstart, hstop⟩

/-! ### Paragraphs -/

theorem exists_aParagraph (h : innerParagraph chars pos = some range) :
    ∃ outer, aParagraph chars pos = some outer := by
  unfold aParagraph
  rw [h]
  dsimp only [Option.bind_eq_bind, Option.bind_some]
  split
  · exact ⟨_, rfl⟩
  · exact ⟨_, rfl⟩

theorem nested_paragraph (chars : List Char) (pos : Nat) :
    Nested chars (innerParagraph chars pos) (aParagraph chars pos) := by
  refine ⟨fun range h => ?_, fun range h => ?_, fun range h => ?_⟩
  · exact ⟨innerParagraph_ordered h, innerParagraph_stop_le h⟩
  · obtain ⟨text, htext, hstart, hstop⟩ := aParagraph_around h
    have hordered := innerParagraph_ordered htext
    exact ⟨by omega, aParagraph_stop_le h⟩
  · obtain ⟨outer, houter⟩ := exists_aParagraph h
    obtain ⟨text, htext, hstart, hstop⟩ := aParagraph_around houter
    obtain rfl := Option.some.inj (h.symm.trans htext)
    exact ⟨outer, houter, hstart, hstop⟩

/-- Off the newlines, a paragraph is around the line that holds the position. -/
theorem aParagraph_contains_line (hpos : pos < chars.length) (hplain : chars[pos]? ≠ some '\n')
    (h : aParagraph chars pos = some range) : range.Contains pos := by
  have hlines := linesFrom_lineRanges chars
  obtain ⟨k, hk, hstart, hstop⟩ := hlines.exists_line (Nat.le_of_lt hpos)
  have hlt : pos < (lineAt (lineRanges chars) k).stop := by
    by_contra hend
    have hpos' : pos = (lineAt (lineRanges chars) k).stop := by omega
    by_cases hlast : k + 1 < (lineRanges chars).length
    · rw [hpos'] at hplain
      exact hplain (hlines.newline k hlast)
    · have hlength := hlines.last
      rw [show (lineRanges chars).length - 1 = k by omega] at hlength
      omega
  obtain ⟨l, hkl, hl, htext⟩ := innerParagraph_eq (hlines.lineIndex_line hk hstart hlt)
  obtain ⟨text, htext', hbefore, hafter⟩ := aParagraph_around h
  obtain rfl := Option.some.inj (htext.symm.trans htext')
  have hfirst := hlines.start_le_start (firstLine_spec chars (lineRanges chars) k).1 hk
  have hlast := hlines.stop_le_stop hkl hl
  exact ⟨Nat.le_trans hbefore (Nat.le_trans hfirst hstart),
    Nat.lt_of_lt_of_le (Nat.lt_of_lt_of_le hlt hlast) hafter⟩

theorem paragraph_of_filled (hnewline : chars[pos]? = some '\n') (hfilled : LinesFilled chars pos)
    (h : aParagraph chars pos = some range) : range.Contains pos ∧ range.RefersTo chars pos ∧
      ∀ text, innerParagraph chars pos = some text → text.RefersTo chars pos := by
  have hlines := linesFrom_lineRanges chars
  obtain ⟨k, hk, rfl⟩ := hlines.exists_newline hnewline
  have hfirst := (hlines.firstLine_le_iff hk rfl).mpr hfilled
  have htext := innerParagraph_newline hnewline
  have hstart := hlines.start_le_start hfirst hk
  have hstop := hlines.stop_le_length hk
  have hnext := hlines.next k hk
  have hordered := hlines.ordered (k + 1) hk
  obtain ⟨text, htext', hbefore, hafter⟩ := aParagraph_around h
  obtain rfl := Option.some.inj (htext.symm.trans htext')
  obtain ⟨range', hrange', hreaches⟩ := aParagraph_newline hk hnewline
  obtain rfl := Option.some.inj (h.symm.trans hrange')
  obtain ⟨hlt, -⟩ := List.getElem?_eq_some_iff.mp hnewline
  dsimp only at hbefore hafter
  refine ⟨⟨hreaches.mpr hfirst, by omega⟩, ?_, fun text' htext' => ?_⟩
  · exact ⟨_, lineAt_mem hk, by omega, by omega, by omega, by omega⟩
  · obtain rfl := Option.some.inj (htext.symm.trans htext')
    exact ⟨_, lineAt_mem hk, by omega, by omega, hstart, hstop⟩

/-- **The text objects of a position are well formed** exactly when the position is not a newline
with a blank line after it, the last line apart. -/
theorem objectsFormed_iff (chars : List Char) (pos : Nat) (hpos : pos < chars.length) :
    ObjectsFormed chars pos ↔ (chars[pos]? = some '\n' → LinesFilled chars pos) := by
  constructor
  · intro h hnewline
    have hlines := linesFrom_lineRanges chars
    obtain ⟨k, hk, rfl⟩ := hlines.exists_newline hnewline
    obtain ⟨range, hrange, hreaches⟩ := aParagraph_newline hk hnewline
    have hcontains := h.paragraph_contains range hrange
    exact (hlines.firstLine_le_iff hk rfl).mp (hreaches.mp hcontains.1)
  · intro hfilled
    refine ⟨nested_word hpos, nested_paragraph chars pos, nested_quote hpos, nested_block hpos,
      fun kind range h => aWord_contains h, fun range h => ?_,
      fun bracket range h => (aBlock_contains h).1, fun hnewline range h => ?_⟩
    · by_cases hnewline : chars[pos]? = some '\n'
      · exact (paragraph_of_filled hnewline (hfilled hnewline) h).1
      · exact aParagraph_contains_line hpos hnewline h
    · obtain htext | haround := h
      · obtain ⟨outer, houter⟩ := exists_aParagraph htext
        exact (paragraph_of_filled hnewline (hfilled hnewline) houter).2.2 range htext
      · exact (paragraph_of_filled hnewline (hfilled hnewline) haround).2.1

/-- The first newline of three filled lines. -/
theorem objectsFormed_iff_filled :
    ObjectsFormed "a\nb\nc".toList 1 ↔
      ("a\nb\nc".toList[1]? = some '\n' → LinesFilled "a\nb\nc".toList 1) :=
  objectsFormed_iff "a\nb\nc".toList 1 (by decide)

/-- At the newline after `a`, a paragraph is the one of `c`, with the blank line before it. -/
theorem not_objectsFormed : ¬ ObjectsFormed "a\n\nc".toList 1 := by
  intro h
  have hcontains := h.paragraph_contains ⟨2, 4⟩ (by decide)
  exact absurd hcontains.1 (by decide)

end Goble.Vim
