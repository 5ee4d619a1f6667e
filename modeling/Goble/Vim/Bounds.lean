import Goble.Vim.Keys

/-!
# Where motions and text objects lie

A find motion lands on a character, and every text object ends in the text (`textObject_stop_le`).
Where an object starts is another matter: the line after a last newline is empty, and a paragraph
that is this line starts at the end of the text.
-/

namespace Goble.Vim

variable {chars rest : List Char} {p : Char → Bool} {pos i j hi depth : Nat} {range : Range}

/-! ### Searching -/

theorem findAhead_lt (h : findAhead p hi i rest = some j) : j < i + rest.length := by
  induction rest generalizing i with
  | nil => cases h
  | cons c rest ih =>
    rw [List.length_cons]
    unfold findAhead at h
    split_ifs at h
    · obtain rfl := Option.some.inj h
      omega
    · have := ih h
      omega

theorem findAhead_drop (hi' : i ≤ chars.length) (h : findAhead p hi i (chars.drop i) = some j) :
    j < chars.length := by
  have hlt := findAhead_lt h
  rw [List.length_drop] at hlt
  omega

variable {opening closing : Char}

theorem matchAhead_bounds (h : matchAhead opening closing depth i rest = some j) :
    i ≤ j ∧ j < i + rest.length := by
  induction rest generalizing depth i with
  | nil => cases h
  | cons c rest ih =>
    rw [List.length_cons]
    unfold matchAhead at h
    split_ifs at h
    · have := ih h
      omega
    · obtain rfl := Option.some.inj h
      omega
    · have := ih h
      omega
    · have := ih h
      omega

theorem matchBehind_lt (h : matchBehind opening closing chars depth i = some j) : j < i := by
  induction i generalizing depth with
  | zero => cases h
  | succ i ih =>
    unfold matchBehind at h
    split_ifs at h
    · exact Nat.lt_succ_of_lt (ih h)
    · obtain rfl := Option.some.inj h
      exact Nat.lt_succ_self _
    · exact Nat.lt_succ_of_lt (ih h)
    · exact Nat.lt_succ_of_lt (ih h)

variable {bracket : Bracket}

theorem matchingBracket_ahead (h : matchingBracket chars pos bracket true = some j) :
    pos < j ∧ j < chars.length := by
  have hbounds := matchAhead_bounds h
  rw [List.length_drop] at hbounds
  omega

theorem matchingBracket_behind (h : matchingBracket chars pos bracket false = some j) :
    j < pos := matchBehind_lt h

/-! ### Finds -/

variable {target : Char} {count seen caret : Nat} {motion : FindMotion}

theorem findForward_lt (h : findForward target count seen i rest = some j) :
    j < i + rest.length := by
  induction rest generalizing seen i with
  | nil => cases h
  | cons c rest ih =>
    rw [List.length_cons]
    unfold findForward at h
    split_ifs at h
    · obtain rfl := Option.some.inj h
      omega
    · have := ih h
      omega
    · have := ih h
      omega

theorem findBackward_lt (h : findBackward target count chars seen i = some j) : j < i := by
  induction i generalizing seen with
  | zero => cases h
  | succ i ih =>
    unfold findBackward at h
    split_ifs at h
    · obtain rfl := Option.some.inj h
      exact Nat.lt_succ_self _
    · exact Nat.lt_succ_of_lt (ih h)
    · exact Nat.lt_succ_of_lt (ih h)

theorem findIndex_lt (hcaret : caret < chars.length)
    (h : findIndex chars caret motion count = some j) : j < chars.length := by
  unfold findIndex at h
  split_ifs at h
  · have hlt := findForward_lt h
    rw [List.length_drop] at hlt
    omega
  · exact Nat.lt_trans (findBackward_lt h) hcaret

theorem findCaretIndex_lt (hcaret : caret < chars.length)
    (h : findCaretIndex chars caret motion count = some j) : j < chars.length := by
  obtain ⟨found, hfound, rfl⟩ := Option.map_eq_some_iff.mp h
  have hlt := findIndex_lt hcaret hfound
  split_ifs <;> omega

/-! ### Text objects -/

theorem aBlock_stop_le (hpos : pos < chars.length) (h : aBlock chars pos bracket = some range) :
    range.stop ≤ chars.length := by
  have henclosing : ∀ range : Range, (do
      let stop ← matchingBracket chars pos bracket true
      let start ← matchingBracket chars stop bracket false
      pure (⟨start, stop + 1⟩ : Range)) = some range → range.stop ≤ chars.length := by
    intro range h
    obtain ⟨stop, hstop, h⟩ := Option.bind_eq_some_iff.mp h
    obtain ⟨start, -, h⟩ := Option.bind_eq_some_iff.mp h
    obtain rfl := Option.some.inj h
    exact (matchingBracket_ahead hstop).2
  obtain ⟨c, -, h⟩ := Option.bind_eq_some_iff.mp h
  dsimp only at h
  split at h
  · next found opens _ =>
    split_ifs at h
    · obtain ⟨other, hother, h⟩ := Option.bind_eq_some_iff.mp h
      obtain rfl := Option.some.inj h
      cases opens with
      | true =>
        have hahead := matchingBracket_ahead hother
        rw [if_pos hahead.1]
        exact hahead.2
      | false =>
        have hbehind := matchingBracket_behind hother
        rw [if_neg (by omega)]
        exact hpos
    · exact henclosing range h
  · exact henclosing range h

theorem trimTrailing_le {start stop : Nat} (h : i ≤ stop) :
    trimTrailing chars start stop i ≤ stop := by
  induction i with
  | zero => exact Nat.le_refl _
  | succ i ih =>
    unfold trimTrailing
    split_ifs
    · omega
    · exact ih (by omega)
    · exact Nat.le_refl _

theorem innerBlock_stop_le {padding : Bool} (hpos : pos < chars.length)
    (h : innerBlock chars pos bracket padding = some range) : range.stop ≤ chars.length := by
  obtain ⟨block, hblock, h⟩ := Option.bind_eq_some_iff.mp h
  obtain rfl := Option.some.inj h
  have hstop := aBlock_stop_le hpos hblock
  have htrim : trimTrailing chars (block.start + 1) (block.stop - 1) (block.stop - 1) ≤
      block.stop - 1 := trimTrailing_le (Nat.le_refl _)
  dsimp only
  omega

theorem wordRun_stop_le {context : CharKind} {kind : WordKind} (hpos : pos < chars.length) :
    (wordRun chars pos context kind).stop ≤ chars.length :=
  forwardWhile_le _ (Nat.le_of_lt hpos)

theorem innerWord_stop_le {kind : WordKind} (hpos : pos < chars.length)
    (h : innerWord chars pos kind = some range) : range.stop ≤ chars.length := by
  obtain ⟨c, -, rfl⟩ := Option.map_eq_some_iff.mp h
  exact wordRun_stop_le hpos

theorem aWord_stop_le {kind : WordKind} (hpos : pos < chars.length)
    (h : aWord chars pos kind = some range) : range.stop ≤ chars.length := by
  obtain ⟨c, -, rfl⟩ := Option.map_eq_some_iff.mp h
  have hrun : (wordRun chars pos (.of c) kind).stop ≤ chars.length := wordRun_stop_le hpos
  dsimp only
  split_ifs
  · split
    · exact hrun
    · exact forwardWhile_le _ hrun
  · split
    · split_ifs
      · exact forwardWhile_le _ hrun
      · exact hrun
    · exact hrun

theorem aQuote_stop_le {quote : Quote} (hpos : pos < chars.length)
    (h : aQuote chars pos quote = some range) : range.stop ≤ chars.length := by
  unfold aQuote at h
  dsimp only at h
  split_ifs at h
  · obtain ⟨start, -, rfl⟩ := Option.map_eq_some_iff.mp h
    exact hpos
  · obtain ⟨stop, hstop, rfl⟩ := Option.map_eq_some_iff.mp h
    exact findAhead_drop hpos hstop
  · split at h
    · next hstop =>
      obtain rfl := Option.some.inj h
      exact findAhead_drop (Nat.le_of_lt hpos) hstop
    · next hstart =>
      obtain ⟨stop, hstop, rfl⟩ := Option.map_eq_some_iff.mp h
      exact findAhead_drop (findAhead_drop (Nat.le_of_lt hpos) hstart) hstop
    · cases h

theorem innerQuote_stop_le {quote : Quote} (hpos : pos < chars.length)
    (h : innerQuote chars pos quote = some range) : range.stop ≤ chars.length := by
  obtain ⟨quoted, hquoted, rfl⟩ := Option.map_eq_some_iff.mp h
  have hstop := aQuote_stop_le hpos hquoted
  dsimp only
  omega

/-! ### Paragraphs -/

theorem lineRangesFrom_stop_le {start : Nat} {line : Range}
    (h : line ∈ lineRangesFrom start i rest) : line.stop ≤ i + rest.length := by
  induction rest generalizing start i with
  | nil =>
    rw [lineRangesFrom, List.mem_singleton] at h
    rw [h]
    exact Nat.le_refl _
  | cons c rest ih =>
    rw [List.length_cons]
    unfold lineRangesFrom at h
    split_ifs at h
    · rcases List.mem_cons.mp h with rfl | h
      · exact Nat.le_add_right _ _
      · have := ih h
        omega
    · have := ih h
      omega

theorem lineRanges_stop_le {line : Range} (h : line ∈ lineRanges chars) :
    line.stop ≤ chars.length := by
  have hstop := lineRangesFrom_stop_le h
  omega

theorem lineAt_stop_le (i : Nat) : (lineAt (lineRanges chars) i).stop ≤ chars.length := by
  unfold lineAt
  rw [List.getD_eq_getElem?_getD]
  cases hline : (lineRanges chars)[i]? with
  | none => exact Nat.zero_le _
  | some line => exact lineRanges_stop_le (List.mem_of_getElem? hline)

theorem innerParagraph_stop_le (h : innerParagraph chars pos = some range) :
    range.stop ≤ chars.length := by
  obtain ⟨index, -, h⟩ := Option.bind_eq_some_iff.mp h
  obtain rfl := Option.some.inj h
  exact lineAt_stop_le _

theorem aParagraph_stop_le (h : aParagraph chars pos = some range) :
    range.stop ≤ chars.length := by
  obtain ⟨text, htext, h⟩ := Option.bind_eq_some_iff.mp h
  have hstop := innerParagraph_stop_le htext
  dsimp only at h
  split at h
  · next next hnext =>
    obtain rfl := Option.some.inj h
    split_ifs
    · have hline : next.stop ≤ chars.length :=
        lineRanges_stop_le (List.mem_of_find?_eq_some hnext)
      exact hline
    · split <;> exact hstop
  · obtain rfl := Option.some.inj h
    split <;> exact hstop

theorem normalCaret_lt {len : Nat} (h : len ≠ 0) (caret : Nat) : normalCaret caret len < len := by
  unfold normalCaret
  rw [if_neg h]
  omega

theorem textObject_stop_le {c : Char} {around change : Bool} {b : VimBuffer}
    (h : textObject c around change b = some range) : b.len ≠ 0 ∧ range.stop ≤ b.len := by
  unfold textObject at h
  by_cases hempty : b.text.isEmpty
  · rw [if_pos hempty] at h
    cases h
  rw [if_neg hempty] at h
  have hlen : b.len ≠ 0 := by simpa [VimBuffer.len] using hempty
  have hpos : normalCaret b.caret b.len < b.text.length := normalCaret_lt hlen _
  refine ⟨hlen, ?_⟩
  dsimp only at h
  split at h
  · split_ifs at h
    · exact aWord_stop_le hpos h
    · exact innerWord_stop_le hpos h
  · split_ifs at h
    · exact aWord_stop_le hpos h
    · exact innerWord_stop_le hpos h
  · split_ifs at h
    · exact aParagraph_stop_le h
    · exact innerParagraph_stop_le h
  all_goals
    obtain ⟨kind, -, h⟩ := Option.bind_eq_some_iff.mp h
    split_ifs at h
  all_goals
    first
    | exact aQuote_stop_le hpos h
    | exact innerQuote_stop_le hpos h
    | exact aBlock_stop_le hpos h
    | exact innerBlock_stop_le hpos h

end Goble.Vim
