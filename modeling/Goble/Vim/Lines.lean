import Goble.Lib.Lists
import Goble.Vim.Bounds

/-!
# The lines of a text and its paragraphs

The ranges of `line_ranges` follow one another with one newline between (`LinesFrom`), so every
position is in one line or is the newline that ends it. A position in a line finds that line; a
newline is in none, and finds the last line instead (`lineIndex_newline`).

A paragraph is read off the lines around the one found (`innerParagraph_eq`). From a newline it is
therefore the paragraph that ends the text, and it reaches the position exactly when no blank line
is between, which is when no two newlines from the position on have only whitespace between them
(`firstLine_le_iff`).
-/

namespace Goble.Vim

open Text (isWhitespace)

/-- Lines that follow one another, from an index to the end of the text. -/
structure LinesFrom (chars : List Char) (start : Nat) (lines : List Range) : Prop where
  nonempty : 0 < lines.length
  first : (lineAt lines 0).start = start
  last : (lineAt lines (lines.length - 1)).stop = chars.length
  ordered : ∀ i, i < lines.length → (lineAt lines i).start ≤ (lineAt lines i).stop
  plain : ∀ i j, i < lines.length → (lineAt lines i).start ≤ j → j < (lineAt lines i).stop →
    chars[j]? ≠ some '\n'
  newline : ∀ i, i + 1 < lines.length → chars[(lineAt lines i).stop]? = some '\n'
  next : ∀ i, i + 1 < lines.length → (lineAt lines (i + 1)).start = (lineAt lines i).stop + 1

variable {chars : List Char} {lines : List Range} {start pos i j k : Nat}

theorem linesFrom_lineRangesFrom {rest : List Char} (hrest : chars.drop i = rest)
    (hi : i ≤ chars.length) (hstart : start ≤ i)
    (hplain : ∀ j, start ≤ j → j < i → chars[j]? ≠ some '\n') :
    LinesFrom chars start (lineRangesFrom start i rest) := by
  induction rest generalizing start i with
  | nil =>
    have hlen : i = chars.length := by
      have hdrop := List.drop_eq_nil_iff.mp hrest
      omega
    refine ⟨Nat.one_pos, rfl, hlen, ?_, ?_, ?_, ?_⟩
    · rintro ⟨⟩ hk
      · exact hstart
      · exact absurd (Nat.lt_of_succ_lt_succ hk) (Nat.not_lt_zero _)
    · rintro ⟨⟩ j hk hj hji
      · exact hplain j hj hji
      · exact absurd (Nat.lt_of_succ_lt_succ hk) (Nat.not_lt_zero _)
    · exact fun k hk => absurd (Nat.lt_of_succ_lt_succ hk) (Nat.not_lt_zero _)
    · exact fun k hk => absurd (Nat.lt_of_succ_lt_succ hk) (Nat.not_lt_zero _)
  | cons c rest ih =>
    obtain ⟨hc, hlt, hrest'⟩ := drop_eq_cons hrest
    rw [lineRangesFrom]
    by_cases hnewline : c = '\n'
    · rw [if_pos hnewline]
      rw [hnewline] at hc
      have htail : LinesFrom chars (i + 1) (lineRangesFrom (i + 1) (i + 1) rest) :=
        ih hrest' hlt le_rfl (fun j hj hji => by omega)
      have hpos := htail.nonempty
      refine ⟨Nat.succ_pos _, rfl, ?_, ?_, ?_, ?_, ?_⟩
      · rw [List.length_cons, Nat.add_sub_cancel, ← htail.last]
        obtain ⟨n, hn⟩ := Nat.exists_eq_add_of_lt hpos
        rw [hn]
        rfl
      · rintro (_ | k) hk
        · exact hstart
        · exact htail.ordered k (Nat.lt_of_succ_lt_succ hk)
      · rintro (_ | k) j hk hj hji
        · exact hplain j hj hji
        · exact htail.plain k j (Nat.lt_of_succ_lt_succ hk) hj hji
      · rintro (_ | k) hk
        · exact hc
        · exact htail.newline k (Nat.lt_of_succ_lt_succ hk)
      · rintro (_ | k) hk
        · exact htail.first
        · exact htail.next k (Nat.lt_of_succ_lt_succ hk)
    · rw [if_neg hnewline]
      refine ih hrest' hlt (by omega) (fun j hj hji => ?_)
      obtain rfl | hne := Nat.eq_or_lt_of_le (Nat.lt_succ_iff.mp hji)
      · rw [hc]
        exact fun h => hnewline (Option.some.inj h)
      · exact hplain j hj hne

theorem linesFrom_lineRanges (chars : List Char) : LinesFrom chars 0 (lineRanges chars) :=
  linesFrom_lineRangesFrom rfl (Nat.zero_le _) le_rfl (fun j _ hj => absurd hj (Nat.not_lt_zero j))

theorem lineAt_getElem (hk : k < lines.length) : lineAt lines k = lines[k] := by
  rw [lineAt, List.getD_eq_getElem?_getD, List.getElem?_eq_getElem hk]
  rfl

theorem lineAt_mem (hk : k < lines.length) : lineAt lines k ∈ lines := by
  rw [lineAt_getElem hk]
  exact List.getElem_mem hk

theorem exists_lineAt {line : Range} (hline : line ∈ lines) :
    ∃ k, k < lines.length ∧ lineAt lines k = line := by
  obtain ⟨k, hk, hget⟩ := List.mem_iff_getElem.mp hline
  refine ⟨k, hk, ?_⟩
  rw [lineAt_getElem hk, hget]

namespace LinesFrom

variable (h : LinesFrom chars 0 lines)
include h

theorem stop_lt_start (hij : i < j) (hj : j < lines.length) :
    (lineAt lines i).stop < (lineAt lines j).start := by
  induction j, hij using Nat.le_induction with
  | base =>
    rw [h.next i hj]
    exact Nat.lt_succ_self _
  | succ j hij ih =>
    have hprev := ih (by omega)
    have hordered := h.ordered j (by omega)
    rw [h.next j hj]
    omega

theorem start_le_start (hij : i ≤ j) (hj : j < lines.length) :
    (lineAt lines i).start ≤ (lineAt lines j).start := by
  obtain rfl | hlt := Nat.eq_or_lt_of_le hij
  · exact le_rfl
  · have hstop := h.stop_lt_start hlt hj
    have hordered := h.ordered i (by omega)
    omega

theorem stop_le_stop (hij : i ≤ j) (hj : j < lines.length) :
    (lineAt lines i).stop ≤ (lineAt lines j).stop := by
  obtain rfl | hlt := Nat.eq_or_lt_of_le hij
  · exact le_rfl
  · have hstop := h.stop_lt_start hlt hj
    have hordered := h.ordered j hj
    omega

theorem stop_le_length (hi : i < lines.length) : (lineAt lines i).stop ≤ chars.length := by
  rw [← h.last]
  exact h.stop_le_stop (Nat.le_sub_one_of_lt hi) (Nat.sub_one_lt_of_lt hi)

theorem exists_line (hpos : pos ≤ chars.length) : ∃ k, k < lines.length ∧
    (lineAt lines k).start ≤ pos ∧ pos ≤ (lineAt lines k).stop := by
  have hsearch : ∀ m, m < lines.length → (lineAt lines m).start ≤ pos ∨
      ∃ k, k < m ∧ (lineAt lines k).start ≤ pos ∧ pos ≤ (lineAt lines k).stop := by
    intro m hm
    induction m with
    | zero =>
      rw [h.first]
      exact .inl (Nat.zero_le pos)
    | succ m ih =>
      obtain hstart | ⟨k, hk, hline⟩ := ih (by omega)
      · by_cases hstop : pos ≤ (lineAt lines m).stop
        · exact .inr ⟨m, Nat.lt_succ_self m, hstart, hstop⟩
        · rw [h.next m hm]
          exact .inl (by omega)
      · exact .inr ⟨k, Nat.lt_succ_of_lt hk, hline⟩
  have hlast := h.nonempty
  obtain hstart | ⟨k, hk, hline⟩ := hsearch (lines.length - 1) (by omega)
  · refine ⟨lines.length - 1, by omega, hstart, ?_⟩
    rw [h.last]
    exact hpos
  · exact ⟨k, by omega, hline⟩

theorem exists_newline (hpos : chars[pos]? = some '\n') :
    ∃ k, k + 1 < lines.length ∧ (lineAt lines k).stop = pos := by
  obtain ⟨hlt, -⟩ := List.getElem?_eq_some_iff.mp hpos
  obtain ⟨k, hk, hstart, hstop⟩ := h.exists_line (Nat.le_of_lt hlt)
  have hend : (lineAt lines k).stop = pos := by
    by_contra hne
    exact h.plain k pos hk hstart (by omega) hpos
  refine ⟨k, ?_, hend⟩
  by_contra hlast
  obtain rfl : k = lines.length - 1 := by omega
  rw [h.last] at hend
  omega

theorem lineIndex_line (hk : k < lines.length) (hstart : (lineAt lines k).start ≤ pos)
    (hstop : pos < (lineAt lines k).stop) : lineIndex lines pos = some k := by
  have hfound : (lines.findIdx? fun line => line.start ≤ pos && pos < line.stop) = some k := by
    refine List.findIdx?_eq_some_iff_getElem.mpr ⟨hk, ?_, fun j hj => ?_⟩
    · rw [← lineAt_getElem hk]
      exact Bool.and_eq_true_iff.mpr ⟨decide_eq_true hstart, decide_eq_true hstop⟩
    · rw [← lineAt_getElem (Nat.lt_trans hj hk), Bool.not_eq_true, Bool.and_eq_false_iff]
      have hbefore := h.stop_lt_start hj hk
      exact .inr (decide_eq_false (by omega))
  rw [lineIndex, hfound]
  rfl

theorem lineIndex_newline (hpos : chars[pos]? = some '\n') :
    lineIndex lines pos = some (lines.length - 1) := by
  have hnone : (lines.findIdx? fun line => line.start ≤ pos && pos < line.stop) = none := by
    refine List.findIdx?_eq_none_iff.mpr fun line hline => ?_
    obtain ⟨k, hk, rfl⟩ := exists_lineAt hline
    rw [Bool.and_eq_false_iff]
    by_contra hin
    rw [not_or, Bool.not_eq_false, Bool.not_eq_false, decide_eq_true_iff, decide_eq_true_iff] at hin
    exact h.plain k pos hk hin.1 hin.2 hpos
  have hlength := h.nonempty
  rw [lineIndex, hnone, if_neg (by omega)]
  rfl

end LinesFrom

/-! ### Blank lines -/

theorem lineIsBlank_eq_false_iff {line : Range} (hline : line.stop ≤ chars.length) :
    lineIsBlank chars line = false ↔
      ∃ k, line.start ≤ k ∧ k < line.stop ∧ isWhitespace (charAt chars k) = false := by
  unfold lineIsBlank
  constructor
  · intro h
    obtain ⟨c, hc, hsolid⟩ := List.all_eq_false.mp h
    obtain ⟨i, hi, rfl⟩ := List.mem_iff_getElem.mp hc
    rw [List.length_drop, List.length_take] at hi
    refine ⟨line.start + i, by omega, by omega, ?_⟩
    rw [List.getElem_drop, List.getElem_take] at hsolid
    rw [charAt, List.getD_eq_getElem?_getD, List.getElem?_eq_getElem (by omega)]
    exact eq_false_of_ne_true hsolid
  · rintro ⟨k, hstart, hstop, hsolid⟩
    refine List.all_eq_false.mpr ⟨charAt chars k, ?_, by rw [hsolid]; exact Bool.false_ne_true⟩
    refine List.mem_iff_getElem?.mpr ⟨k - line.start, ?_⟩
    rw [List.getElem?_drop, List.getElem?_take_of_lt (by omega),
      show line.start + (k - line.start) = k by omega, List.getElem?_eq_getElem (by omega),
      charAt, List.getD_eq_getElem?_getD, List.getElem?_eq_getElem (by omega)]
    rfl

theorem firstLine_spec (chars : List Char) (lines : List Range) (k : Nat) :
    firstLine chars lines k ≤ k ∧
    (∀ i, firstLine chars lines k ≤ i → i < k → lineIsBlank chars (lineAt lines i) = false) ∧
    (firstLine chars lines k ≠ 0 →
      lineIsBlank chars (lineAt lines (firstLine chars lines k - 1)) = true) := by
  induction k with
  | zero => exact ⟨le_rfl, fun i _ hi => absurd hi (Nat.not_lt_zero i), fun h => absurd rfl h⟩
  | succ k ih =>
    obtain ⟨hle, hfilled, hblank⟩ := ih
    rw [firstLine]
    cases hline : lineIsBlank chars (lineAt lines k) with
    | false =>
      rw [Bool.not_false, if_pos rfl]
      refine ⟨Nat.le_trans hle (Nat.le_succ k), fun i hi hik => ?_, hblank⟩
      obtain rfl | hlt := Nat.eq_or_lt_of_le (Nat.lt_succ_iff.mp hik)
      · exact hline
      · exact hfilled i hi hlt
    | true =>
      rw [Bool.not_true, if_neg Bool.false_ne_true]
      exact ⟨le_rfl, fun i hi hik => absurd hik (by omega), fun _ => hline⟩

/-- From the position on, no two newlines have only whitespace between them. -/
def LinesFilled (chars : List Char) (pos : Nat) : Prop :=
  ∀ i j, pos ≤ i → i < j → chars[i]? = some '\n' → chars[j]? = some '\n' →
    ∃ k, i < k ∧ k < j ∧ isWhitespace (charAt chars k) = false

/-- Going back from the last line, the paragraph reaches the line after a newline exactly when the
lines from there on are filled. -/
theorem LinesFrom.firstLine_le_iff (h : LinesFrom chars 0 lines) (hk : k + 1 < lines.length)
    (hpos : (lineAt lines k).stop = pos) :
    firstLine chars lines (lines.length - 1) ≤ k + 1 ↔ LinesFilled chars pos := by
  obtain ⟨hle, hfilled, hblank⟩ := firstLine_spec chars lines (lines.length - 1)
  constructor
  · intro hfirst i j hi hij hnewline hnewline'
    obtain ⟨a, ha, rfl⟩ := h.exists_newline hnewline
    obtain ⟨b, hb, rfl⟩ := h.exists_newline hnewline'
    have hka : k ≤ a := by
      by_contra hak
      have hstop := h.stop_lt_start (Nat.lt_of_not_le hak) (by omega)
      have hordered := h.ordered k (by omega)
      omega
    have hab : a < b := by
      by_contra hba
      have hstop := h.stop_le_stop (Nat.le_of_not_lt hba) (by omega)
      omega
    obtain ⟨c, hc, hc', hsolid⟩ := (lineIsBlank_eq_false_iff (h.stop_le_length (by omega))).mp
      (hfilled (a + 1) (by omega) (by omega))
    have hstop := h.stop_le_stop (show a + 1 ≤ b from hab) (by omega)
    rw [h.next a (by omega)] at hc
    exact ⟨c, by omega, by omega, hsolid⟩
  · intro hall
    by_contra hfirst
    -- the line above the first is blank, between two newlines
    generalize firstLine chars lines (lines.length - 1) = f at *
    have hlow := h.stop_le_stop (show k ≤ f - 2 by omega) (by omega)
    have hstart := h.next (f - 2) (by omega)
    have hordered := h.ordered (f - 1) (by omega)
    rw [show f - 2 + 1 = f - 1 by omega] at hstart
    have hnewline := h.newline (f - 1) (by omega)
    obtain ⟨c, hc, hc', hsolid⟩ :=
      hall _ _ (by omega) (by omega) (h.newline (f - 2) (by omega)) hnewline
    have hfull := (lineIsBlank_eq_false_iff (h.stop_le_length (show f - 1 < _ by omega))).mpr
      ⟨c, by omega, hc', hsolid⟩
    rw [hblank (by omega)] at hfull
    cases hfull

/-! ### Paragraphs -/

variable {range : Range}

theorem lineIndex_lt (h : lineIndex lines pos = some k) : k < lines.length := by
  unfold lineIndex at h
  obtain hfound | ⟨-, hlast⟩ := Option.or_eq_some_iff.mp h
  · exact (List.findIdx?_eq_some_iff_getElem.mp hfound).1
  · split_ifs at hlast
    obtain rfl := Option.some.inj hlast
    omega

theorem innerParagraph_eq (h : lineIndex (lineRanges chars) pos = some k) :
    ∃ l, k ≤ l ∧ l < (lineRanges chars).length ∧ innerParagraph chars pos = some
      ⟨(lineAt (lineRanges chars) (firstLine chars (lineRanges chars) k)).start,
        (lineAt (lineRanges chars) l).stop⟩ := by
  have hk := lineIndex_lt h
  refine ⟨k + (((lineRanges chars).drop (k + 1)).takeWhile fun l => !lineIsBlank chars l).length,
    Nat.le_add_right _ _, ?_, ?_⟩
  · have htake := (List.takeWhile_sublist (fun l => !lineIsBlank chars l)
      (l := (lineRanges chars).drop (k + 1))).length_le
    rw [List.length_drop] at htake
    omega
  · show (lineIndex (lineRanges chars) pos).bind _ = _
    rw [h]
    rfl

theorem innerParagraph_ordered (h : innerParagraph chars pos = some range) :
    range.start ≤ range.stop := by
  obtain ⟨k, hindex, -⟩ := Option.bind_eq_some_iff.mp h
  obtain ⟨l, hkl, hl, heq⟩ := innerParagraph_eq hindex
  obtain rfl := Option.some.inj (h.symm.trans heq)
  have hlines := linesFrom_lineRanges chars
  have hfirst := (firstLine_spec chars (lineRanges chars) k).1
  exact Nat.le_trans (hlines.start_le_start (Nat.le_trans hfirst hkl) hl) (hlines.ordered l hl)

/-- The blank line a paragraph takes lies next to it. -/
theorem aParagraph_around (h : aParagraph chars pos = some range) :
    ∃ text, innerParagraph chars pos = some text ∧ range.start ≤ text.start ∧
      text.stop ≤ range.stop := by
  have hordered : ∀ line ∈ lineRanges chars, line.start ≤ line.stop := by
    intro line hline
    obtain ⟨k, hk, rfl⟩ := exists_lineAt hline
    exact (linesFrom_lineRanges chars).ordered k hk
  obtain ⟨text, htext, h⟩ := Option.bind_eq_some_iff.mp h
  refine ⟨text, htext, ?_⟩
  have habove : ∀ line, ((lineRanges chars).reverse.find? fun l =>
      l.stop + 1 = text.start && lineIsBlank chars l) = some line → line.start ≤ text.start := by
    intro line hline
    have hnext := List.find?_some hline
    rw [Bool.and_eq_true_iff, decide_eq_true_iff] at hnext
    have hstart := hordered line (List.mem_reverse.mp (List.mem_of_find?_eq_some hline))
    omega
  dsimp only at h
  split at h
  · next next hnext =>
    obtain rfl := Option.some.inj h
    split_ifs
    · have hstart := List.find?_some hnext
      rw [decide_eq_true_iff] at hstart
      have hline := hordered next (List.mem_of_find?_eq_some hnext)
      have hafter : text.stop ≤ next.stop := by omega
      exact ⟨Nat.le_refl _, hafter⟩
    · split
      · next line hline => exact ⟨habove line hline, Nat.le_refl _⟩
      · exact ⟨Nat.le_refl _, Nat.le_refl _⟩
  · obtain rfl := Option.some.inj h
    split
    · next line hline => exact ⟨habove line hline, Nat.le_refl _⟩
    · exact ⟨Nat.le_refl _, Nat.le_refl _⟩

theorem innerParagraph_newline (hpos : chars[pos]? = some '\n') :
    innerParagraph chars pos = some ⟨(lineAt (lineRanges chars)
      (firstLine chars (lineRanges chars) ((lineRanges chars).length - 1))).start,
      chars.length⟩ := by
  have hlines := linesFrom_lineRanges chars
  obtain ⟨l, hkl, hl, heq⟩ := innerParagraph_eq (hlines.lineIndex_newline hpos)
  obtain rfl : l = (lineRanges chars).length - 1 := by omega
  rw [heq, hlines.last]

theorem aParagraph_newline (hk : k + 1 < (lineRanges chars).length)
    (hpos : chars[(lineAt (lineRanges chars) k).stop]? = some '\n') :
    ∃ range, aParagraph chars (lineAt (lineRanges chars) k).stop = some range ∧
      (range.start ≤ (lineAt (lineRanges chars) k).stop ↔
        firstLine chars (lineRanges chars) ((lineRanges chars).length - 1) ≤ k + 1) := by
  have hlines := linesFrom_lineRanges chars
  have htext := innerParagraph_newline hpos
  obtain ⟨hle, -, hblank⟩ :=
    firstLine_spec chars (lineRanges chars) ((lineRanges chars).length - 1)
  have hnone : ((lineRanges chars).find? fun l => l.start = chars.length + 1) = none := by
    refine List.find?_eq_none.mpr fun line hline => ?_
    obtain ⟨i, hi, rfl⟩ := exists_lineAt hline
    have hordered := hlines.ordered i hi
    have hstop := hlines.stop_le_length hi
    rw [decide_eq_true_iff]
    omega
  generalize hf : firstLine chars (lineRanges chars) ((lineRanges chars).length - 1) = f at *
  have heq : aParagraph chars (lineAt (lineRanges chars) k).stop = some
      (((lineRanges chars).reverse.find? fun l =>
          l.stop + 1 = (lineAt (lineRanges chars) f).start && lineIsBlank chars l).elim
        ⟨(lineAt (lineRanges chars) f).start, chars.length⟩
        fun line => ⟨line.start, chars.length⟩) := by
    unfold aParagraph
    rw [htext]
    dsimp only [Option.bind_eq_bind, Option.bind_some]
    rw [hnone]
    cases (lineRanges chars).reverse.find? fun l =>
        l.stop + 1 = (lineAt (lineRanges chars) f).start && lineIsBlank chars l with
    | none => rfl
    | some line => rfl
  refine ⟨_, heq, ?_⟩
  cases habove : (lineRanges chars).reverse.find? fun l =>
      l.stop + 1 = (lineAt (lineRanges chars) f).start && lineIsBlank chars l with
  | none =>
    show (lineAt (lineRanges chars) f).start ≤ _ ↔ _
    constructor
    · intro hstart
      by_contra hcut
      have hstop := hlines.stop_lt_start (show k < f by omega) (by omega)
      omega
    · intro hf
      obtain rfl | hlt := Nat.eq_or_lt_of_le hf
      · -- the line the newline ends would be the blank line above
        have hmem : lineAt (lineRanges chars) k ∈ (lineRanges chars).reverse :=
          List.mem_reverse.mpr (lineAt_mem (by omega))
        have hnot := List.find?_eq_none.mp habove _ hmem
        rw [Bool.and_eq_true_iff, decide_eq_true_iff] at hnot
        exact absurd ⟨(hlines.next k hk).symm, hblank (Nat.succ_ne_zero k)⟩ hnot
      · have hstart := hlines.start_le_start (Nat.lt_succ_iff.mp hlt) (by omega)
        have hordered := hlines.ordered k (by omega)
        omega
  | some line =>
    show line.start ≤ _ ↔ _
    obtain ⟨m, hm, rfl⟩ :=
      exists_lineAt (List.mem_reverse.mp (List.mem_of_find?_eq_some habove))
    have hnext := List.find?_some habove
    rw [Bool.and_eq_true_iff, decide_eq_true_iff] at hnext
    have hmf : m + 1 = f := by
      have hordered := hlines.ordered m hm
      by_contra hne
      obtain hlt | hge := Nat.lt_or_ge m f
      · have hstart := hlines.stop_lt_start (show m < m + 1 by omega) (by omega)
        have hordered' := hlines.ordered (m + 1) (by omega)
        have hstop := hlines.stop_lt_start (show m + 1 < f by omega) (by omega)
        omega
      · have hstart := hlines.start_le_start hge hm
        omega
    constructor
    · intro hstart
      by_contra hcut
      have hstop := hlines.stop_lt_start (show k < m by omega) hm
      omega
    · intro hf
      have hstart := hlines.start_le_start (show m ≤ k by omega) (by omega)
      have hordered := hlines.ordered k (by omega)
      omega

end Goble.Vim
