import Goble.Diff.Parse

/-!
# The diff that is written is the diff that is read

`unified_diff_with_context` and `parse_unified_diff` live in different crates and share no type.
For every pair of texts the reader gets hunks that describe the change (`Describes`): their counts
are those of their bodies, their lines have the numbers and the texts they have in the two
versions, and applying them to the old lines gives the new ones.

Applying is the usual reading of a unified diff (`applyHunks`): a hunk is applied at its start, or
after the line it names if it has none of the old lines, its context and its removed lines have to
be what stands there, and what no hunk covers is copied.
-/

namespace Goble.Diff

/-- How many old lines come before a hunk. -/
def Hunk.position (hunk : Hunk) : Nat :=
  if hunk.oldCount = 0 then hunk.oldStart else hunk.oldStart - 1

/-- What a body makes of the lines it is applied to, and what it leaves of them. -/
def applyLines : List DiffLine → List Line → Option (List Line × List Line)
  | [], rest => some ([], rest)
  | line :: lines, rest =>
    match line.kind, rest with
    | .added, rest => (applyLines lines rest).map fun (out, rest) => (line.text :: out, rest)
    | .context, found :: rest =>
      if found = line.text then
        (applyLines lines rest).map fun (out, rest) => (found :: out, rest)
      else none
    | .removed, found :: rest => if found = line.text then applyLines lines rest else none
    | _, [] => none

def applyHunks (done : Nat) : List Hunk → List Line → Option (List Line)
  | [], rest => some rest
  | hunk :: hunks, rest =>
    if hunk.position < done ∨ rest.length < hunk.position - done then none
    else
      (applyLines hunk.lines (rest.drop (hunk.position - done))).bind fun (out, rest') =>
        (applyHunks (hunk.position + hunk.oldCount) hunks rest').map fun new =>
          rest.take (hunk.position - done) ++ (out ++ new)

structure Describes (old new : List Line) (hunks : List Hunk) : Prop where
  oldCount : ∀ hunk ∈ hunks, hunk.oldCount = hunk.lines.countP fun line => line.kind ≠ .added
  newCount : ∀ hunk ∈ hunks, hunk.newCount = hunk.lines.countP fun line => line.kind ≠ .removed
  oldLine : ∀ hunk ∈ hunks, ∀ line ∈ hunk.lines, line.kind ≠ .added →
    ∃ k, line.oldLine = some (k + 1) ∧ old[k]? = some line.text
  newLine : ∀ hunk ∈ hunks, ∀ line ∈ hunk.lines, line.kind ≠ .removed →
    ∃ k, line.newLine = some (k + 1) ∧ new[k]? = some line.text
  applies : applyHunks 0 hunks old = some new

/-! ### One hunk -/

namespace Rows

variable {i j : Nat} {old old' new new' : List Line} {rows rows' : List Row}

theorem append (h : Rows i j old new rows)
    (h' : Rows (i + old.length) (j + new.length) old' new' rows') :
    Rows i j (old ++ old') (new ++ new') (rows ++ rows') := by
  induction h with
  | nil => exact h'
  | context text _ ih =>
    refine .context text (ih ?_)
    simpa [Nat.add_assoc, Nat.add_comm 1] using h'
  | removed text _ ih =>
    refine .removed text (ih ?_)
    simpa [Nat.add_assoc, Nat.add_comm 1] using h'
  | added text _ ih =>
    refine .added text (ih ?_)
    simpa [Nat.add_assoc, Nat.add_comm 1] using h'

theorem oldLine_of_mem (h : Rows i j old new rows) {row : Row} (hrow : row ∈ rows)
    (hkind : row.kind ≠ .added) :
    ∃ k, row.oldLine = some (i + k + 1) ∧ old[k]? = some row.text := by
  induction h with
  | nil => cases hrow
  | context text _ ih =>
    obtain rfl | hrow := List.mem_cons.mp hrow
    · exact ⟨0, rfl, rfl⟩
    · obtain ⟨k, hnumber, htext⟩ := ih hrow
      exact ⟨k + 1, hnumber.trans (congrArg some (by omega)), htext⟩
  | removed text _ ih =>
    obtain rfl | hrow := List.mem_cons.mp hrow
    · exact ⟨0, rfl, rfl⟩
    · obtain ⟨k, hnumber, htext⟩ := ih hrow
      exact ⟨k + 1, hnumber.trans (congrArg some (by omega)), htext⟩
  | added text _ ih =>
    obtain rfl | hrow := List.mem_cons.mp hrow
    · exact absurd rfl hkind
    · exact ih hrow

theorem newLine_of_mem (h : Rows i j old new rows) {row : Row} (hrow : row ∈ rows)
    (hkind : row.kind ≠ .removed) :
    ∃ k, row.newLine = some (j + k + 1) ∧ new[k]? = some row.text := by
  have hflipped : row.flip ∈ rows.map Row.flip := List.mem_map_of_mem hrow
  refine h.flip.oldLine_of_mem hflipped fun hflip => hkind ?_
  obtain ⟨kind, oldLine, newLine, text⟩ := row
  cases kind with
  | removed => rfl
  | context => cases hflip
  | added => cases hflip

theorem countP_line_old (h : Rows i j old new rows) :
    (rows.map Row.line).countP (fun line => line.kind ≠ .added) = old.length := by
  induction h with
  | nil => rfl
  | context text _ ih => rw [List.map_cons, List.countP_cons_of_pos rfl, ih, List.length_cons]
  | removed text _ ih => rw [List.map_cons, List.countP_cons_of_pos rfl, ih, List.length_cons]
  | added text _ ih => rw [List.map_cons, List.countP_cons_of_neg Bool.false_ne_true, ih]

theorem countP_line_new (h : Rows i j old new rows) :
    (rows.map Row.line).countP (fun line => line.kind ≠ .removed) = new.length := by
  induction h with
  | nil => rfl
  | context text _ ih => rw [List.map_cons, List.countP_cons_of_pos rfl, ih, List.length_cons]
  | removed text _ ih => rw [List.map_cons, List.countP_cons_of_neg Bool.false_ne_true, ih]
  | added text _ ih => rw [List.map_cons, List.countP_cons_of_pos rfl, ih, List.length_cons]

theorem applyLines_eq (h : Rows i j old new rows) (rest : List Line) :
    applyLines (rows.map Row.line) (old ++ rest) = some (new, rest) := by
  induction h with
  | nil => rfl
  | context text _ ih => simp [applyLines, Row.line, ih]
  | removed text _ ih => simp [applyLines, Row.line, ih]
  | added text _ ih => simp [applyLines, Row.line, ih]

end Rows

/-- A hunk of numbered rows that stand somewhere in the two versions. -/
def Stands (old new : List Line) (hunk : Hunk) : Prop :=
  ∃ oldBefore newBefore old' new' oldAfter newAfter rows,
    old = oldBefore ++ (old' ++ oldAfter) ∧ new = newBefore ++ (new' ++ newAfter) ∧
      Rows oldBefore.length newBefore.length old' new' rows ∧
      hunk = hunkOf oldBefore.length newBefore.length old' new' rows

theorem getElem?_middle {before lines after : List Line} {k : Nat} {text : Line}
    (h : lines[k]? = some text) : (before ++ (lines ++ after))[before.length + k]? = some text := by
  have hlt : k < lines.length := (List.getElem?_eq_some_iff.mp h).1
  rw [List.getElem?_append_right (Nat.le_add_right _ _), Nat.add_sub_cancel_left,
    List.getElem?_append_left hlt, h]

theorem describes_of_stands {old new : List Line} {hunks : List Hunk}
    (hstands : ∀ hunk ∈ hunks, Stands old new hunk) (happlies : applyHunks 0 hunks old = some new) :
    Describes old new hunks := by
  refine ⟨fun hunk hmem => ?_, fun hunk hmem => ?_, fun hunk hmem line hline hkind => ?_,
    fun hunk hmem line hline hkind => ?_, happlies⟩
  all_goals
    obtain ⟨oldBefore, newBefore, old', new', oldAfter, newAfter, rows, rfl, rfl, hrows, rfl⟩ :=
      hstands hunk hmem
  · exact hrows.countP_line_old.symm
  · exact hrows.countP_line_new.symm
  · obtain ⟨row, hrow, rfl⟩ := List.mem_map.mp hline
    have hadded : row.kind ≠ .added := fun heq => hkind (by rw [Row.line, heq])
    obtain ⟨k, hnumber, htext⟩ := hrows.oldLine_of_mem hrow hadded
    exact ⟨_, hnumber, getElem?_middle htext⟩
  · obtain ⟨row, hrow, rfl⟩ := List.mem_map.mp hline
    have hremoved : row.kind ≠ .removed := fun heq => hkind (by rw [Row.line, heq])
    obtain ⟨k, hnumber, htext⟩ := hrows.newLine_of_mem hrow hremoved
    exact ⟨_, hnumber, getElem?_middle htext⟩

/-! ### All hunks -/

structure Read (rows : List Row) (ranges : List (Nat × Nat)) (old new : List Line) (done : Nat)
    (oldRest newRest : List Line) (hunks : List Hunk) : Prop where
  parsed : ∀ s : ParseState, ∃ s',
    (ranges.flatMap fun range => hunkLines rows range.1 range.2).foldl parseStep s = s' ∧
      s'.hunks ++ s'.current.toList = s.hunks ++ s.current.toList ++ hunks
  stands : ∀ hunk ∈ hunks, Stands old new hunk
  applies : applyHunks done hunks oldRest = some newRest

theorem drop_eq_append {rows : List Row} {a b : Nat} (h : a ≤ b) :
    rows.drop a = (rows.take b).drop a ++ rows.drop b := by
  have hdrop : rows.drop b = (rows.drop a).drop (b - a) := by
    rw [List.drop_drop, Nat.add_sub_of_le h]
  rw [List.drop_take, hdrop, List.take_append_drop]

theorem take_eq_append {rows : List Row} {a b : Nat} (h : a ≤ b) :
    rows.take b = rows.take a ++ (rows.take b).drop a := by
  have htake : rows.take a = (rows.take b).take a := by rw [List.take_take, Nat.min_eq_left h]
  rw [htake, List.take_append_drop]

theorem Hunk.position_hunkOf (i j : Nat) (old new : List Line) (rows : List Row) :
    (hunkOf i j old new rows).position = i := by
  cases old with
  | nil => rfl
  | cons line old => rfl

theorem applyHunks_cons {oldBefore newBefore gap old' new' oldRest newRest : List Line}
    {rows : List Row} {hunks : List Hunk}
    (hrows : Rows (oldBefore ++ gap).length (newBefore ++ gap).length old' new' rows)
    (h : applyHunks (oldBefore ++ gap ++ old').length hunks oldRest = some newRest) :
    applyHunks oldBefore.length
      (hunkOf (oldBefore ++ gap).length (newBefore ++ gap).length old' new' rows :: hunks)
      (gap ++ (old' ++ oldRest)) = some (gap ++ (new' ++ newRest)) := by
  have hposition := Hunk.position_hunkOf (oldBefore ++ gap).length (newBefore ++ gap).length old'
    new' rows
  have hgap : (oldBefore ++ gap).length - oldBefore.length = gap.length := by
    rw [List.length_append, Nat.add_sub_cancel_left]
  rw [List.length_append] at h
  rw [applyHunks, hposition, hgap, if_neg (by simp), List.drop_left, List.take_left]
  have hlines : applyLines (hunkOf (oldBefore ++ gap).length (newBefore ++ gap).length old' new'
      rows).lines (old' ++ oldRest) = some (new', oldRest) := hrows.applyLines_eq oldRest
  have hcount : (hunkOf (oldBefore ++ gap).length (newBefore ++ gap).length old' new'
      rows).oldCount = old'.length := rfl
  rw [hlines, Option.bind_some, hcount]
  simp only [h, Option.map_some]

theorem exists_read {rows : List Row} {old new : List Line} (hold : old.length < 2 ^ 32)
    (hnew : new.length < 2 ^ 32) (ranges : List (Nat × Nat)) (pos : Nat)
    (oldBefore newBefore oldRest newRest : List Line) (hcovers : Covers rows pos ranges)
    (holdCut : old = oldBefore ++ oldRest) (hnewCut : new = newBefore ++ newRest)
    (hbefore : Rows 0 0 oldBefore newBefore (rows.take pos))
    (hrest : Rows oldBefore.length newBefore.length oldRest newRest (rows.drop pos)) :
    ∃ hunks, Read rows ranges old new oldBefore.length oldRest newRest hunks := by
  induction ranges generalizing pos oldBefore newBefore oldRest newRest with
  | nil =>
    have hsame : oldRest = newRest := hrest.eq_of_context fun row hrow => by
      obtain ⟨i, hi⟩ := List.mem_iff_getElem?.mp hrow
      rw [List.getElem?_drop] at hi
      exact hcovers _ row (Nat.le_add_right pos i) (List.getElem?_eq_some_iff.mp hi).1 hi
    exact ⟨[], fun s => ⟨s, rfl, (List.append_nil _).symm⟩, by simp, by rw [hsame]; rfl⟩
  | cons range ranges ih =>
    obtain ⟨start, stop⟩ := range
    obtain ⟨hpos, hstart, hstop, hgap, hcovers⟩ := hcovers
    -- the rows up to the range, the range, and what follows it
    rw [drop_eq_append hpos, drop_eq_append hstart] at hrest
    obtain ⟨gap, oldRest, gap', newRest, rfl, rfl, hgapRows, hrest⟩ := hrest.of_append
    obtain ⟨old', oldRest, new', newRest, rfl, rfl, hrangeRows, hrest⟩ := hrest.of_append
    obtain rfl : gap = gap' := hgapRows.eq_of_context fun row hrow => by
      obtain ⟨i, hle, hlt, hi⟩ := mem_drop_take hrow
      exact hgap i row hle hlt hi
    have hbefore' : Rows 0 0 (oldBefore ++ gap) (newBefore ++ gap) (rows.take start) := by
      rw [take_eq_append hpos]
      exact hbefore.append (by rwa [Nat.zero_add, Nat.zero_add])
    rw [← List.length_append, ← List.length_append] at hrangeRows hrest
    have hbefore'' : Rows 0 0 (oldBefore ++ gap ++ old') (newBefore ++ gap ++ new')
        (rows.take stop) := by
      rw [take_eq_append hstart]
      exact hbefore'.append (by rwa [Nat.zero_add, Nat.zero_add])
    rw [← List.length_append, ← List.length_append] at hrest
    obtain ⟨hunks, hread⟩ := ih stop (oldBefore ++ gap ++ old') (newBefore ++ gap ++ new') oldRest
      newRest hcovers (by rw [holdCut]; simp) (by rw [hnewCut]; simp) hbefore'' hrest
    refine ⟨hunkOf _ _ old' new' ((rows.take stop).drop start) :: hunks, fun s => ?_, ?_,
      applyHunks_cons hrangeRows hread.applies⟩
    · rw [List.flatMap_cons, List.foldl_append, hunkLines_eq hbefore' rfl rfl hrangeRows,
        foldl_parseStep_hunk hrangeRows s (by simp [holdCut] at hold ⊢; omega)
          (by simp [hnewCut] at hnew ⊢; omega)]
      obtain ⟨s', hfold, hhunks⟩ := hread.parsed ⟨s.hunks ++ s.current.toList,
        some (hunkOf _ _ old' new' ((rows.take stop).drop start)), old'.length, new'.length⟩
      refine ⟨s', hfold, hhunks.trans ?_⟩
      simp
    · intro hunk hmem
      obtain rfl | hmem := List.mem_cons.mp hmem
      · exact ⟨oldBefore ++ gap, newBefore ++ gap, old', new', oldRest, newRest, _,
          by rw [holdCut]; simp, by rw [hnewCut]; simp, hrangeRows, rfl⟩
      · exact hread.stands hunk hmem

theorem headerText_chars {oldStart oldCount newStart newCount : Nat} {c : Char}
    (h : c ∈ headerText oldStart oldCount newStart newCount) :
    c.isDigit = true ∨ c ∈ "@-+, ".toList := by
  have hrange : ∀ start count, c ∈ rangeText start count →
      c.isDigit = true ∨ c ∈ "@-+, ".toList := by
    intro start count hmem
    obtain hdigit | rfl := rangeText_chars hmem
    · exact .inl hdigit
    · exact .inr (by decide)
  rw [headerText, List.mem_append, List.mem_append, List.mem_append, List.mem_append] at h
  obtain h | h | h | h | h := h
  · exact .inr ((by simp : "@@ -".toList ⊆ "@-+, ".toList) h)
  · exact hrange _ _ h
  · exact .inr ((by simp : " +".toList ⊆ "@-+, ".toList) h)
  · exact hrange _ _ h
  · exact .inr ((by simp : " @@".toList ⊆ "@-+, ".toList) h)

theorem notMem_hunkLines {rows : List Row} {c : Char} (hdigit : c.isDigit = false)
    (hmarks : c ∉ "@-+, ".toList) (hrows : ∀ row ∈ rows, c ∉ row.text) (start stop : Nat) :
    ∀ line ∈ hunkLines rows start stop, c ∉ line := by
  intro line hline hmem
  obtain rfl | hline := List.mem_cons.mp hline
  · obtain hdigit' | hmark := headerText_chars hmem
    · rw [hdigit] at hdigit'
      cases hdigit'
    · exact hmarks hmark
  · obtain ⟨row, hrow, rfl⟩ := List.mem_map.mp hline
    have hrow : row ∈ rows := List.mem_of_mem_take (List.mem_of_mem_drop hrow)
    obtain hsign | htext := List.mem_cons.mp hmem
    · refine hmarks ?_
      rw [hsign]
      cases row.kind <;> decide
    · exact hrows row hrow htext

theorem Rows.text_mem {i j : Nat} {old new : List Line} {rows : List Row}
    (h : Rows i j old new rows) {row : Row} (hrow : row ∈ rows) :
    row.text ∈ old ∨ row.text ∈ new := by
  by_cases hkind : row.kind = .added
  · obtain ⟨k, -, htext⟩ := h.newLine_of_mem hrow (by rw [hkind]; decide)
    exact .inr (List.mem_of_getElem? htext)
  · obtain ⟨k, -, htext⟩ := h.oldLine_of_mem hrow hkind
    exact .inl (List.mem_of_getElem? htext)

/-- The hunks of a sequence of lines. -/
def hunksOf (raw : List (List Char)) : List Hunk :=
  let s := raw.foldl parseStep ⟨[], none, 0, 0⟩
  s.hunks ++ s.current.toList

theorem exists_raw {old new : List Char} {context : Nat} (hne : old ≠ new)
    (holdLines : (Text.lines old).length < 2 ^ 32) (hnewLines : (Text.lines new).length < 2 ^ 32)
    (hcontext : context < 2 ^ 32) :
    ∃ raw, unifiedDiffWithContext old new context = Text.unlines raw ∧
      (∀ line ∈ raw, '\n' ∉ line) ∧
      ('\r' ∉ old → '\r' ∉ new → ∀ line ∈ raw, '\r' ∉ line) ∧
      Describes (Text.lines old) (Text.lines new) (hunksOf raw) := by
  have hrows := rows_of_script (diffOps_script (Text.lines old) (Text.lines new)) [] [] holdLines
    hnewLines
  rw [unifiedDiffWithContext, if_neg hne]
  simp only [List.nil_append, List.length_nil] at hrows ⊢
  generalize rows (Text.lines old) (Text.lines new) 0 0
    (diffOps (Text.lines old) (Text.lines new)) = all at hrows ⊢
  have hfits : context + all.length < 2 ^ 64 := by
    have hlength := hrows.length_le
    omega
  obtain ⟨hunks, hread⟩ := exists_read holdLines hnewLines
    (rangesFrom context all.length none 0 all) 0 [] [] _ _ (covers_ranges hfits) rfl rfl .nil hrows
  refine ⟨_, rfl, fun line hline => ?_, fun hold hnew line hline => ?_, ?_⟩
  · obtain ⟨range, -, hline⟩ := List.mem_flatMap.mp hline
    refine notMem_hunkLines rfl (by decide) (fun row hrow => ?_) _ _ line hline
    obtain htext | htext := hrows.text_mem hrow
    · exact (Text.mem_lines htext).1
    · exact (Text.mem_lines htext).1
  · obtain ⟨range, -, hline⟩ := List.mem_flatMap.mp hline
    refine notMem_hunkLines rfl (by decide) (fun row hrow hmem => ?_) _ _ line hline
    obtain htext | htext := hrows.text_mem hrow
    · exact hold ((Text.mem_lines htext).2 _ hmem)
    · exact hnew ((Text.mem_lines htext).2 _ hmem)
  · obtain ⟨s, hfold, hhunks⟩ := hread.parsed ⟨[], none, 0, 0⟩
    have hparse : hunksOf ((rangesFrom context all.length none 0 all).flatMap fun range =>
        hunkLines all range.1 range.2) = hunks := by
      rw [hunksOf, hfold]
      exact hhunks
    rw [hparse]
    exact describes_of_stands hread.stands hread.applies

/-- **The diff producer and the diff viewer agree.** For every two texts without carriage returns
and with fewer than `2 ^ 32` lines, and every context width below `2 ^ 32`, the hunks that are read
from the unified diff describe the change from the lines of the one to the lines of the other. -/
theorem describes_unifiedDiff (old new : List Char) (context : Nat) (hold : '\r' ∉ old)
    (hnew : '\r' ∉ new) (holdLines : (Text.lines old).length < 2 ^ 32)
    (hnewLines : (Text.lines new).length < 2 ^ 32) (hcontext : context < 2 ^ 32) :
    Describes (Text.lines old) (Text.lines new)
      (parseUnifiedDiff (unifiedDiffWithContext old new context)) := by
  by_cases heq : old = new
  · rw [unifiedDiffWithContext, if_pos heq, heq]
    exact describes_of_stands (by simp [parseUnifiedDiff, Text.lines, Text.linesFrom]) rfl
  · obtain ⟨raw, hraw, hnl, hcr, hdescribes⟩ := exists_raw heq holdLines hnewLines hcontext
    rw [hraw, parseUnifiedDiff, Text.lines_unlines hnl (hcr hold hnew)]
    exact hdescribes

/-- One line of two is replaced, without context. -/
theorem describes_replaced_line :
    Describes (Text.lines "a\nb\n".toList) (Text.lines "a\nc\n".toList)
      (parseUnifiedDiff (unifiedDiffWithContext "a\nb\n".toList "a\nc\n".toList 0)) :=
  describes_unifiedDiff _ _ 0 (by decide) (by decide) (by decide) (by decide) (by decide)

end Goble.Diff
