import Mathlib.Algebra.Ring.Nat
import Goble.Lib.Text
import Goble.Diff.Script

/-!
# The unified diff a file mutation records

The edits become numbered rows, and the changed rows are written as hunks with some unchanged rows
around them; two hunks that would touch become one. A hunk that has no line on one side names the
line it sits after there, or 0 at the top.

The writer's half of the round trip ends at two descriptions that know nothing of the edits any
more: the rows are numbered through from the old lines to the new ones (`Rows`), and the ranges the
hunks are cut from leave only unchanged rows out (`Covers`).
-/

namespace Goble.Diff

abbrev Line := List Char

inductive RowKind
  | context | removed | added
deriving DecidableEq, Repr

structure Row where
  kind : RowKind
  oldLine : Option Nat
  newLine : Option Nat
  text : Line
deriving DecidableEq, Repr

def lineNumber (index : Nat) : Nat := (index % 2 ^ 32 + 1) % 2 ^ 32

/-- The rows of the edits from here on. -/
def rows (old new : List Line) (oldIndex newIndex : Nat) : List Op → List Row
  | [] => []
  | .equal :: ops =>
    ⟨.context, some (lineNumber oldIndex), some (lineNumber newIndex), old.getD oldIndex []⟩ ::
      rows old new (oldIndex + 1) (newIndex + 1) ops
  | .remove :: ops =>
    ⟨.removed, some (lineNumber oldIndex), none, old.getD oldIndex []⟩ ::
      rows old new (oldIndex + 1) newIndex ops
  | .add :: ops =>
    ⟨.added, none, some (lineNumber newIndex), new.getD newIndex []⟩ ::
      rows old new oldIndex (newIndex + 1) ops

/-- The ranges of rows that become hunks. `last` is the range that was pushed last, the only one
that still changes. -/
def rangesFrom (context count : Nat) (last : Option (Nat × Nat)) (index : Nat) :
    List Row → List (Nat × Nat)
  | [] => last.toList
  | row :: rows =>
    if row.kind = .context then rangesFrom context count last (index + 1) rows
    else
      let start := index - context
      let stop := min ((index + context + 1) % 2 ^ 64) count
      match last with
      | some (lastStart, lastStop) =>
        if start ≤ lastStop then
          rangesFrom context count (some (lastStart, stop)) (index + 1) rows
        else
          (lastStart, lastStop) :: rangesFrom context count (some (start, stop)) (index + 1) rows
      | none => rangesFrom context count (some (start, stop)) (index + 1) rows

def rangeText (start count : Nat) : List Char :=
  if count = 1 then Nat.toDigits 10 start
  else Nat.toDigits 10 start ++ ',' :: Nat.toDigits 10 count

def headerText (oldStart oldCount newStart newCount : Nat) : List Char :=
  "@@ -".toList ++ (rangeText oldStart oldCount ++ (" +".toList ++
    (rangeText newStart newCount ++ " @@".toList)))

def Row.raw (row : Row) : List Char :=
  (match row.kind with
    | .context => ' '
    | .removed => '-'
    | .added => '+') :: row.text

def hunkLines (rows : List Row) (start stop : Nat) : List (List Char) :=
  let range := (rows.take stop).drop start
  let oldCount := range.countP fun row => row.oldLine.isSome
  let newCount := range.countP fun row => row.newLine.isSome
  let oldBefore := ((rows.take start).reverse.findSome? Row.oldLine).getD 0
  let newBefore := ((rows.take start).reverse.findSome? Row.newLine).getD 0
  let oldStart := (range.findSome? Row.oldLine).getD oldBefore
  let newStart := (range.findSome? Row.newLine).getD newBefore
  headerText oldStart oldCount newStart newCount :: range.map Row.raw

def render (rows : List Row) (context : Nat) : List Char :=
  Text.unlines ((rangesFrom context rows.length none 0 rows).flatMap fun range =>
    hunkLines rows range.1 range.2)

def unifiedDiffWithContext (old new : List Char) (context : Nat) : List Char :=
  if old = new then []
  else
    let oldLines := Text.lines old
    let newLines := Text.lines new
    render (rows oldLines newLines 0 0 (diffOps oldLines newLines)) context

/-! ### Numbered rows -/

inductive Rows : Nat → Nat → List Line → List Line → List Row → Prop
  | nil {i j} : Rows i j [] [] []
  | context {i j old new rows} (text) : Rows (i + 1) (j + 1) old new rows →
      Rows i j (text :: old) (text :: new)
        (⟨.context, some (i + 1), some (j + 1), text⟩ :: rows)
  | removed {i j old new rows} (text) : Rows (i + 1) j old new rows →
      Rows i j (text :: old) new (⟨.removed, some (i + 1), none, text⟩ :: rows)
  | added {i j old new rows} (text) : Rows i (j + 1) old new rows →
      Rows i j old (text :: new) (⟨.added, none, some (j + 1), text⟩ :: rows)

/-- A row of the diff of the two versions the other way round. -/
def Row.flip (row : Row) : Row :=
  { kind := match row.kind with
      | .context => .context
      | .removed => .added
      | .added => .removed
    oldLine := row.newLine, newLine := row.oldLine, text := row.text }

theorem lineNumber_eq {index : Nat} (h : index + 1 < 2 ^ 32) : lineNumber index = index + 1 := by
  rw [lineNumber, Nat.mod_eq_of_lt (Nat.lt_of_succ_lt h), Nat.mod_eq_of_lt h]

theorem getD_append_length (before after : List Line) (text : Line) :
    (before ++ text :: after).getD before.length [] = text := by
  rw [List.getD_eq_getElem?_getD, List.getElem?_append_right (Nat.le_refl _), Nat.sub_self]
  rfl

theorem rows_of_script {old new : List Line} {ops : List Op} (h : Script old new ops)
    (oldBefore newBefore : List Line) (hold : (oldBefore ++ old).length < 2 ^ 32)
    (hnew : (newBefore ++ new).length < 2 ^ 32) :
    Rows oldBefore.length newBefore.length old new
      (rows (oldBefore ++ old) (newBefore ++ new) oldBefore.length newBefore.length ops) := by
  induction h generalizing oldBefore newBefore with
  | nil => exact .nil
  | @equal old new ops x hscript ih =>
    have hrest := ih (oldBefore ++ [x]) (newBefore ++ [x]) (by simpa using hold)
      (by simpa using hnew)
    rw [List.length_append] at hold hnew
    rw [rows, getD_append_length, lineNumber_eq (by simp at hold ⊢; omega),
      lineNumber_eq (by simp at hnew ⊢; omega)]
    refine .context x ?_
    simpa using hrest
  | @remove old new ops x hscript ih =>
    have hrest := ih (oldBefore ++ [x]) newBefore (by simpa using hold) hnew
    rw [List.length_append] at hold
    rw [rows, getD_append_length, lineNumber_eq (by simp at hold ⊢; omega)]
    refine .removed x ?_
    simpa using hrest
  | @add old new ops x hscript ih =>
    have hrest := ih oldBefore (newBefore ++ [x]) hold (by simpa using hnew)
    rw [List.length_append] at hnew
    rw [rows, getD_append_length, lineNumber_eq (by simp at hnew ⊢; omega)]
    refine .added x ?_
    simpa using hrest

namespace Rows

variable {i j : Nat} {old new : List Line} {rows rows' : List Row}

theorem of_append (h : Rows i j old new (rows ++ rows')) :
    ∃ old₁ old₂ new₁ new₂, old = old₁ ++ old₂ ∧ new = new₁ ++ new₂ ∧ Rows i j old₁ new₁ rows ∧
      Rows (i + old₁.length) (j + new₁.length) old₂ new₂ rows' := by
  induction rows generalizing i j old new with
  | nil => exact ⟨[], old, [], new, rfl, rfl, .nil, h⟩
  | cons row rows ih =>
    cases h with
    | @context _ _ old new _ text h =>
      obtain ⟨old₁, old₂, new₁, new₂, rfl, rfl, h₁, h₂⟩ := ih h
      refine ⟨text :: old₁, old₂, text :: new₁, new₂, rfl, rfl, .context text h₁, ?_⟩
      simpa [Nat.add_assoc, Nat.add_comm 1] using h₂
    | @removed _ _ old new _ text h =>
      obtain ⟨old₁, old₂, new₁, new₂, rfl, rfl, h₁, h₂⟩ := ih h
      refine ⟨text :: old₁, old₂, new₁, new₂, rfl, rfl, .removed text h₁, ?_⟩
      simpa [Nat.add_assoc, Nat.add_comm 1] using h₂
    | @added _ _ old new _ text h =>
      obtain ⟨old₁, old₂, new₁, new₂, rfl, rfl, h₁, h₂⟩ := ih h
      refine ⟨old₁, old₂, text :: new₁, new₂, rfl, rfl, .added text h₁, ?_⟩
      simpa [Nat.add_assoc, Nat.add_comm 1] using h₂

protected theorem flip (h : Rows i j old new rows) : Rows j i new old (rows.map Row.flip) := by
  induction h with
  | nil => exact .nil
  | context text _ ih => exact .context text ih
  | removed text _ ih => exact .added text ih
  | added text _ ih => exact .removed text ih

theorem eq_of_context (h : Rows i j old new rows) (hcontext : ∀ row ∈ rows, row.kind = .context) :
    old = new := by
  induction h with
  | nil => rfl
  | context text _ ih =>
    rw [ih fun row hrow => hcontext row (List.mem_cons_of_mem _ hrow)]
  | removed text _ _ => cases hcontext _ List.mem_cons_self
  | added text _ _ => cases hcontext _ List.mem_cons_self

theorem length_le (h : Rows i j old new rows) : rows.length ≤ old.length + new.length := by
  induction h with
  | nil => exact Nat.le_refl 0
  | context text _ ih => simp only [List.length_cons]; omega
  | removed text _ ih => simp only [List.length_cons]; omega
  | added text _ ih => simp only [List.length_cons]; omega

theorem countP_old (h : Rows i j old new rows) :
    rows.countP (fun row => row.oldLine.isSome) = old.length := by
  induction h with
  | nil => rfl
  | context text _ ih => rw [List.countP_cons_of_pos rfl, ih, List.length_cons]
  | removed text _ ih => rw [List.countP_cons_of_pos rfl, ih, List.length_cons]
  | added text _ ih => rw [List.countP_cons_of_neg Bool.false_ne_true, ih]

theorem countP_new (h : Rows i j old new rows) :
    rows.countP (fun row => row.newLine.isSome) = new.length := by
  rw [← h.flip.countP_old, List.countP_map]
  rfl

theorem findSome?_old (h : Rows i j old new rows) :
    rows.findSome? Row.oldLine = if old = [] then none else some (i + 1) := by
  induction h with
  | nil => rfl
  | context text _ ih => rfl
  | removed text _ ih => rfl
  | added text _ ih => exact ih

theorem findSome?_new (h : Rows i j old new rows) :
    rows.findSome? Row.newLine = if new = [] then none else some (j + 1) := by
  rw [← h.flip.findSome?_old, List.findSome?_map]
  rfl

theorem findSome?_reverse_old (h : Rows i j old new rows) :
    rows.reverse.findSome? Row.oldLine = if old = [] then none else some (i + old.length) := by
  induction h with
  | nil => rfl
  | @context i j old new rows text _ ih =>
    rw [List.reverse_cons, List.findSome?_append, ih]
    cases old with
    | nil => rfl
    | cons _ old => simp [Nat.add_assoc, Nat.add_comm 1]
  | @removed i j old new rows text _ ih =>
    rw [List.reverse_cons, List.findSome?_append, ih]
    cases old with
    | nil => rfl
    | cons _ old => simp [Nat.add_assoc, Nat.add_comm 1]
  | @added i j old new rows text _ ih =>
    rw [List.reverse_cons, List.findSome?_append, ih]
    cases old with
    | nil => rfl
    | cons _ old => rfl

theorem findSome?_reverse_new (h : Rows i j old new rows) :
    rows.reverse.findSome? Row.newLine = if new = [] then none else some (j + new.length) := by
  rw [← h.flip.findSome?_reverse_old, ← List.map_reverse, List.findSome?_map]
  rfl

end Rows

/-! ### Ranges -/

def Unchanged (rows : List Row) (a b : Nat) : Prop :=
  ∀ i row, a ≤ i → i < b → rows[i]? = some row → row.kind = .context

def Covers (rows : List Row) : Nat → List (Nat × Nat) → Prop
  | pos, [] => Unchanged rows pos rows.length
  | pos, (start, stop) :: ranges =>
    pos ≤ start ∧ start ≤ stop ∧ stop ≤ rows.length ∧ Unchanged rows pos start ∧
      Covers rows stop ranges

def LastOk (rows : List Row) (pos index : Nat) : Option (Nat × Nat) → Prop
  | none => pos = 0 ∧ Unchanged rows 0 index
  | some (start, stop) =>
    pos ≤ start ∧ start ≤ index ∧ start ≤ stop ∧ stop ≤ rows.length ∧ Unchanged rows pos start ∧
      Unchanged rows stop index

theorem Unchanged.succ {rows : List Row} {a index : Nat} {row : Row} (h : Unchanged rows a index)
    (hrow : rows[index]? = some row) (hcontext : row.kind = .context) :
    Unchanged rows a (index + 1) := by
  intro i other ha hi hother
  obtain hlt | rfl := Nat.lt_succ_iff_lt_or_eq.mp hi
  · exact h i other ha hlt hother
  · obtain rfl := Option.some.inj (hrow.symm.trans hother)
    exact hcontext

theorem Unchanged.mono {rows : List Row} {a b b' : Nat} (h : Unchanged rows a b) (hle : b' ≤ b) :
    Unchanged rows a b' :=
  fun i row ha hi hrow => h i row ha (Nat.lt_of_lt_of_le hi hle) hrow

theorem unchanged_of_le (rows : List Row) {a b : Nat} (h : b ≤ a) : Unchanged rows a b :=
  fun _ _ ha hi _ => absurd (Nat.lt_of_lt_of_le hi (Nat.le_trans h ha)) (Nat.lt_irrefl _)

theorem covers_rangesFrom (context : Nat) (before rest : List Row) (pos : Nat)
    (last : Option (Nat × Nat)) (hlast : LastOk (before ++ rest) pos before.length last)
    (hfits : context + (before ++ rest).length < 2 ^ 64) :
    Covers (before ++ rest) pos
      (rangesFrom context (before ++ rest).length last before.length rest) := by
  induction rest generalizing before pos last with
  | nil =>
    rw [rangesFrom]
    cases last with
    | none =>
      obtain ⟨rfl, hunchanged⟩ := hlast
      rw [List.append_nil] at hunchanged ⊢
      exact hunchanged
    | some range =>
      obtain ⟨hpos, -, hle, hstop, hbefore, hafter⟩ := hlast
      refine ⟨hpos, hle, hstop, hbefore, ?_⟩
      rw [List.append_nil] at hafter ⊢
      exact hafter
  | cons row rest ih =>
    have hrow : (before ++ row :: rest)[before.length]? = some row := by simp
    have hlt : before.length < (before ++ row :: rest).length := by simp
    have hnext := fun pos last hlast => ih (before ++ [row]) pos last hlast (by simpa using hfits)
    rw [List.append_assoc, List.singleton_append, List.length_append, List.length_singleton] at hnext
    generalize before ++ row :: rest = all at *
    rw [rangesFrom]
    by_cases hcontext : row.kind = .context
    · rw [if_pos hcontext]
      refine hnext pos last ?_
      cases last with
      | none => exact ⟨hlast.1, hlast.2.succ hrow hcontext⟩
      | some range =>
        obtain ⟨hpos, hstart, hle, hstop, hbefore, hafter⟩ := hlast
        exact ⟨hpos, Nat.le_succ_of_le hstart, hle, hstop, hbefore, hafter.succ hrow hcontext⟩
    · rw [if_neg hcontext]
      have hstart : before.length - context ≤ before.length := Nat.sub_le _ _
      rw [Nat.mod_eq_of_lt (by omega : before.length + context + 1 < 2 ^ 64)]
      have hstop : before.length + 1 ≤ min (before.length + context + 1) all.length := by omega
      have hcount : min (before.length + context + 1) all.length ≤ all.length := Nat.min_le_right _ _
      generalize before.length - context = start at *
      generalize min (before.length + context + 1) all.length = stop at *
      cases last with
      | none =>
        obtain ⟨rfl, hunchanged⟩ := hlast
        refine hnext 0 (some (start, stop)) ⟨Nat.zero_le _, by omega, by omega, hcount, ?_, ?_⟩
        · exact hunchanged.mono hstart
        · exact unchanged_of_le all hstop
      | some range =>
        obtain ⟨lastStart, lastStop⟩ := range
        obtain ⟨hpos, hfirst, hle, hlastStop, hbefore, hafter⟩ := hlast
        simp only
        split
        next =>
          -- the range is extended over the row
          exact hnext pos (some (lastStart, stop)) ⟨hpos, by omega, by omega, hcount, hbefore,
            unchanged_of_le all hstop⟩
        next hapart =>
          refine ⟨hpos, hle, hlastStop, hbefore, ?_⟩
          exact hnext lastStop (some (start, stop)) ⟨by omega, by omega, by omega, hcount,
            hafter.mono hstart, unchanged_of_le all hstop⟩

theorem covers_ranges {rows : List Row} {context : Nat} (hfits : context + rows.length < 2 ^ 64) :
    Covers rows 0 (rangesFrom context rows.length none 0 rows) :=
  covers_rangesFrom context [] rows 0 none ⟨rfl, unchanged_of_le rows (Nat.le_refl 0)⟩ hfits

theorem mem_drop_take {rows : List Row} {a b : Nat} {row : Row} (h : row ∈ (rows.take b).drop a) :
    ∃ i, a ≤ i ∧ i < b ∧ rows[i]? = some row := by
  obtain ⟨i, hi⟩ := List.mem_iff_getElem?.mp h
  rw [List.getElem?_drop] at hi
  by_cases hlt : a + i < b
  · rw [List.getElem?_take_of_lt hlt] at hi
    exact ⟨a + i, Nat.le_add_right a i, hlt, hi⟩
  · rw [List.getElem?_take_eq_none (Nat.not_lt.mp hlt)] at hi
    cases hi

def hunkStart (before : Nat) (lines : List Line) : Nat := if lines = [] then before else before + 1

theorem hunkLines_eq {rows : List Row} {start stop i j : Nat} {oldBefore newBefore old new : List Line}
    (hbefore : Rows 0 0 oldBefore newBefore (rows.take start)) (hi : i = oldBefore.length)
    (hj : j = newBefore.length) (hrange : Rows i j old new ((rows.take stop).drop start)) :
    hunkLines rows start stop =
      headerText (hunkStart i old) old.length (hunkStart j new) new.length ::
        ((rows.take stop).drop start).map Row.raw := by
  subst hi hj
  have hstart : ∀ lines : List Line,
      ((if lines = [] then none else some (0 + lines.length)) : Option Nat).getD 0 = lines.length := by
    intro lines
    cases lines with
    | nil => rfl
    | cons line lines => exact Nat.zero_add _
  have hgetD : ∀ (lines : List Line) (k : Nat),
      ((if lines = [] then none else some (k + 1)) : Option Nat).getD k = hunkStart k lines := by
    intro lines k
    cases lines <;> rfl
  simp only [hunkLines, hrange.countP_old, hrange.countP_new, hrange.findSome?_old,
    hrange.findSome?_new, hbefore.findSome?_reverse_old, hbefore.findSome?_reverse_new, hstart,
    hgetD]

end Goble.Diff
