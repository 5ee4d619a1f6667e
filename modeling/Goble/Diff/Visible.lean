import Goble.Lib.Joined
import Goble.Diff.Minimal
import Goble.Diff.RoundTrip

/-!
# What a diff shows of a change

A diff is taken line by line, and a line is what `lines` makes of it, without its terminator. So two
versions that differ only in how their lines end have no diff
(`unifiedDiffWithContext_eq_nil_iff`), and no diff says how the lines of the new version end. Of the
lines themselves nothing is lost as long as their numbers fit into 32 bits: the diff and the old
version determine them (`unifiedDiff_determines`). Beyond that the place of a hunk is ambiguous
(`unifiedDiff_wraps`).
-/

namespace Goble.Diff

def diffContext : Nat := 3

def unifiedDiff (old new : List Char) : List Char := unifiedDiffWithContext old new diffContext

variable {old new new' : List Char} {context : Nat}

/-! ### Versions with the same lines -/

theorem commonLead_self {α : Type} [DecidableEq α] (xs : List α) :
    commonLead xs xs = xs.length := by
  induction xs with
  | nil => rfl
  | cons x xs ih => rw [commonLead, if_pos rfl, ih, List.length_cons]

theorem diffOps_self {α : Type} [DecidableEq α] (xs : List α) :
    diffOps xs xs = List.replicate xs.length .equal := by
  have hmiddle : (xs.take (xs.length - 0)).drop xs.length = [] := by
    rw [Nat.sub_zero, List.take_length, List.drop_length]
  simp only [diffOps, commonLead_self, List.drop_length, List.reverse_nil, List.length_nil, hmiddle]
  show List.replicate xs.length Op.equal ++ [] = _
  rw [List.append_nil]

theorem kind_of_equal {old new : List Line} {i j n : Nat} :
    ∀ row ∈ rows old new i j (List.replicate n .equal), row.kind = .context := by
  induction n generalizing i j with
  | zero => exact fun row hrow => absurd hrow List.not_mem_nil
  | succ n ih =>
    intro row hrow
    rw [List.replicate_succ, rows] at hrow
    obtain rfl | hrow := List.mem_cons.mp hrow
    · rfl
    · exact ih row hrow

theorem rangesFrom_context {count index : Nat} {last : Option (Nat × Nat)} {rows : List Row}
    (h : ∀ row ∈ rows, row.kind = .context) :
    rangesFrom context count last index rows = last.toList := by
  induction rows generalizing index with
  | nil => rfl
  | cons row rows ih =>
    rw [rangesFrom, if_pos (h row List.mem_cons_self)]
    exact ih fun other hother => h other (List.mem_cons_of_mem row hother)

theorem rangesFrom_some_ne_nil {count index : Nat} {range : Nat × Nat} {rows : List Row} :
    rangesFrom context count (some range) index rows ≠ [] := by
  induction rows generalizing index range with
  | nil => exact List.cons_ne_nil _ _
  | cons row rows ih =>
    rw [rangesFrom]
    dsimp only
    split_ifs
    · exact ih
    · exact ih
    · exact List.cons_ne_nil _ _

theorem rangesFrom_eq_nil_iff {count index : Nat} {rows : List Row} :
    rangesFrom context count none index rows = [] ↔ ∀ row ∈ rows, row.kind = .context := by
  refine ⟨fun h => ?_, fun h => rangesFrom_context h⟩
  induction rows generalizing index with
  | nil => exact fun row hrow => absurd hrow List.not_mem_nil
  | cons row rows ih =>
    rw [rangesFrom] at h
    split_ifs at h with hcontext
    · intro other hother
      obtain rfl | hother := List.mem_cons.mp hother
      · exact hcontext
      · exact ih h other hother
    · exact absurd h rangesFrom_some_ne_nil

theorem render_eq_nil_iff {rows : List Row} :
    render rows context = [] ↔ ∀ row ∈ rows, row.kind = .context := by
  rw [← @rangesFrom_eq_nil_iff context rows.length 0, render,
    Text.unlines]
  constructor
  · intro h
    cases hranges : rangesFrom context rows.length none 0 rows with
    | nil => rfl
    | cons range ranges =>
      obtain ⟨header, body, hhunk⟩ :
          ∃ header body, hunkLines rows range.1 range.2 = header :: body := ⟨_, _, rfl⟩
      rw [hranges, List.flatMap_cons, hhunk, List.cons_append, List.flatMap_cons,
        List.append_assoc] at h
      exact absurd (List.append_eq_nil_iff.mp h).2 (List.cons_ne_nil _ _)
  · intro h
    rw [h]
    rfl

theorem sides_eq_of_context {rows : List Row} (h : ∀ row ∈ rows, row.kind = .context) :
    oldSide rows = newSide rows := by
  unfold oldSide newSide
  congr 1
  refine List.filter_congr fun row hrow => ?_
  rw [h row hrow]
  decide

theorem unifiedDiffWithContext_eq_nil_iff :
    unifiedDiffWithContext old new context = [] ↔ Text.lines old = Text.lines new := by
  rw [unifiedDiffWithContext]
  split_ifs with heq
  · exact ⟨fun _ => congrArg Text.lines heq, fun _ => rfl⟩
  · rw [render_eq_nil_iff]
    constructor
    · intro hcontext
      obtain ⟨hold, hnew⟩ :=
        sides_of_script (diffOps_script (Text.lines old) (Text.lines new)) [] []
      calc Text.lines old
          = oldSide _ := hold.symm
        _ = newSide _ := sides_eq_of_context hcontext
        _ = Text.lines new := hnew
    · intro hlines
      rw [hlines, diffOps_self]
      exact kind_of_equal

theorem lines_eq_of_diff_eq (hold : (Text.lines old).length < 2 ^ 32)
    (hnew : (Text.lines new).length < 2 ^ 32) (hnew' : (Text.lines new').length < 2 ^ 32)
    (hcontext : context < 2 ^ 32)
    (h : unifiedDiffWithContext old new context = unifiedDiffWithContext old new' context) :
    Text.lines new = Text.lines new' := by
  have hempty : ∀ {new₁ new₂}, old = new₁ →
      unifiedDiffWithContext old new₁ context = unifiedDiffWithContext old new₂ context →
      Text.lines new₁ = Text.lines new₂ := by
    rintro new₁ new₂ rfl heq
    rw [unifiedDiffWithContext, if_pos rfl] at heq
    exact unifiedDiffWithContext_eq_nil_iff.mp heq.symm
  by_cases hsame : old = new
  · exact hempty hsame h
  by_cases hsame' : old = new'
  · exact (hempty hsame' h.symm).symm
  obtain ⟨raw, hraw, hnl, -, hdescribes⟩ := exists_raw hsame hold hnew hcontext
  obtain ⟨raw', hraw', hnl', -, hdescribes'⟩ := exists_raw hsame' hold hnew' hcontext
  rw [hraw, hraw'] at h
  obtain rfl := flatMap_concat_inj hnl hnl' h
  exact Option.some.inj (hdescribes.applies.symm.trans hdescribes'.applies)

/-! ### What the numbers lose -/

theorem commonLead_append {α : Type} [DecidableEq α] (xs ys zs : List α) :
    commonLead (xs ++ ys) (xs ++ zs) = xs.length + commonLead ys zs := by
  induction xs with
  | nil => exact (Nat.zero_add _).symm
  | cons x xs ih =>
    rw [List.cons_append, List.cons_append, commonLead, if_pos rfl, ih, List.length_cons]
    omega

theorem diffOps_inserted {α : Type} [DecidableEq α] {x y : α} (hne : x ≠ y) (n m : Nat) :
    diffOps (List.replicate (n + m) x) (List.replicate n x ++ y :: List.replicate m x) =
      List.replicate n .equal ++ (.add :: List.replicate m .equal) := by
  have hends : ∀ back : List α, commonLead (List.replicate m x) (y :: back) = 0 := by
    intro back
    cases m with
    | zero => rfl
    | succ m => rw [List.replicate_succ, commonLead, if_neg hne]
  have hlead : commonLead (List.replicate (n + m) x)
      (List.replicate n x ++ y :: List.replicate m x) = n := by
    rw [← List.replicate_append_replicate, commonLead_append, hends, List.length_replicate,
      Nat.add_zero]
  have hold : (List.replicate (n + m) x).drop n = List.replicate m x := by
    rw [List.drop_replicate, Nat.add_sub_cancel_left]
  have hnew : (List.replicate n x ++ y :: List.replicate m x).drop n =
      y :: List.replicate m x := List.drop_left' List.length_replicate
  have htrail : commonLead (List.replicate m x).reverse (y :: List.replicate m x).reverse = m := by
    have hback := commonLead_append (List.replicate m x) [] [y]
    rw [List.append_nil, List.length_replicate] at hback
    rw [List.reverse_cons, List.reverse_replicate, hback]
    rfl
  have hmiddle : ((List.replicate (n + m) x).take (n + m - m)).drop n = [] := by
    rw [List.take_replicate, List.drop_replicate, show min (n + m - m) (n + m) - n = 0 by omega]
    rfl
  have hmiddle' : ((List.replicate n x ++ y :: List.replicate m x).take
      ((List.replicate n x ++ y :: List.replicate m x).length - m)).drop n = [y] := by
    have hsplit : List.replicate n x ++ y :: List.replicate m x =
        (List.replicate n x ++ [y]) ++ List.replicate m x := List.append_cons _ y _
    have hlength : ((List.replicate n x ++ [y]) ++ List.replicate m x).length - m =
        (List.replicate n x ++ [y]).length := by
      rw [List.length_append, List.length_replicate, Nat.add_sub_cancel]
    rw [hsplit, hlength, List.take_left]
    exact List.drop_left' List.length_replicate
  simp only [diffOps, hlead, hold, hnew, htrail, List.length_replicate, hmiddle, hmiddle']
  rfl

theorem rows_append {old new : List Line} {n : Nat} (i j : Nat) (ops : List Op) :
    rows old new i j (List.replicate n .equal ++ ops) =
      rows old new i j (List.replicate n .equal) ++ rows old new (i + n) (j + n) ops := by
  induction n generalizing i j with
  | zero => rfl
  | succ n ih =>
    rw [List.replicate_succ, List.cons_append, rows, rows, ih (i + 1) (j + 1), List.cons_append]
    congr 3
    all_goals omega

theorem rangesFrom_append {count index : Nat} {last : Option (Nat × Nat)} {front back : List Row}
    (h : ∀ row ∈ front, row.kind = .context) :
    rangesFrom context count last index (front ++ back) =
      rangesFrom context count last (index + front.length) back := by
  induction front generalizing index with
  | nil => rfl
  | cons row front ih =>
    rw [List.cons_append, rangesFrom, if_pos (h row List.mem_cons_self),
      ih fun other hother => h other (List.mem_cons_of_mem row hother), List.length_cons]
    congr 1
    omega

theorem length_rows {old new : List Line} (i j : Nat) (ops : List Op) :
    (rows old new i j ops).length = ops.length := by
  induction ops generalizing i j with
  | nil => rfl
  | cons op ops ih =>
    cases op with
    | equal => exact congrArg (· + 1) (ih (i + 1) (j + 1))
    | remove => exact congrArg (· + 1) (ih (i + 1) j)
    | add => exact congrArg (· + 1) (ih i (j + 1))

/-- The text of equal lines, and the text with another line after the first `n` of them. -/
def plain (n : Nat) : List Char := Text.unlines (List.replicate n ['a'])

def inserted (n m : Nat) : List Char :=
  Text.unlines (List.replicate n ['a'] ++ ['b'] :: List.replicate m ['a'])

theorem lines_plain (n : Nat) : Text.lines (plain n) = List.replicate n ['a'] := by
  refine Text.lines_unlines (fun line hline => ?_) fun line hline => ?_
  all_goals
    rw [(List.mem_replicate.mp hline).2]
    decide

theorem lines_inserted (n m : Nat) : Text.lines (inserted n m) =
    List.replicate n ['a'] ++ ['b'] :: List.replicate m ['a'] := by
  have hline : ∀ line ∈ List.replicate n ['a'] ++ ['b'] :: List.replicate m ['a'],
      line = ['a'] ∨ line = ['b'] := by
    intro line hline
    obtain hline | hline := List.mem_append.mp hline
    · exact .inl (List.mem_replicate.mp hline).2
    · obtain rfl | hline := List.mem_cons.mp hline
      · exact .inr rfl
      · exact .inl (List.mem_replicate.mp hline).2
  refine Text.lines_unlines (fun line hmem => ?_) fun line hmem => ?_
  all_goals obtain rfl | rfl := hline line hmem <;> decide

theorem unifiedDiff_inserted (k m : Nat) (hfits : k + m + 7 < 2 ^ 64) :
    unifiedDiff (plain (k + 3 + (m + 3))) (inserted (k + 3) (m + 3)) =
      Text.unlines (headerText (lineNumber k) 6 (lineNumber k) 7 ::
        [" a".toList, " a".toList, " a".toList, "+b".toList, " a".toList, " a".toList,
          " a".toList]) := by
  have hne : plain (k + 3 + (m + 3)) ≠ inserted (k + 3) (m + 3) := by
    intro heq
    have hlines := congrArg (fun text => (Text.lines text).length) heq
    simp only [lines_plain, lines_inserted, List.length_append, List.length_cons,
      List.length_replicate] at hlines
    omega
  rw [unifiedDiff, unifiedDiffWithContext, if_neg hne, lines_plain, lines_inserted]
  dsimp only
  rw [diffOps_inserted (by decide)]
  generalize hold : List.replicate (k + 3 + (m + 3)) ['a'] = old
  generalize hnew : List.replicate (k + 3) ['a'] ++ ['b'] :: List.replicate (m + 3) ['a'] = new
  have hline : ∀ i, i < 6 → old.getD (k + i) [] = ['a'] := by
    intro i hi
    rw [← hold, List.getD_eq_getElem?_getD, List.getElem?_replicate_of_lt (by omega)]
    rfl
  have hline' : new.getD (k + 3) [] = ['b'] := by
    rw [← hnew, List.getD_eq_getElem?_getD, List.getElem?_append_right (by simp)]
    simp
  -- the rows of the hunk, between those before and those after it
  generalize hbefore : rows old new 0 0 (List.replicate k .equal) = before
  generalize hafter : rows old new (k + 6) (k + 7) (List.replicate m .equal) = after
  obtain ⟨hunk, hhunk, hrows⟩ : ∃ hunk : List Row, hunk =
      [⟨.context, some (lineNumber k), some (lineNumber k), ['a']⟩,
        ⟨.context, some (lineNumber (k + 1)), some (lineNumber (k + 1)), ['a']⟩,
        ⟨.context, some (lineNumber (k + 2)), some (lineNumber (k + 2)), ['a']⟩,
        ⟨.added, none, some (lineNumber (k + 3)), ['b']⟩,
        ⟨.context, some (lineNumber (k + 3)), some (lineNumber (k + 4)), ['a']⟩,
        ⟨.context, some (lineNumber (k + 4)), some (lineNumber (k + 5)), ['a']⟩,
        ⟨.context, some (lineNumber (k + 5)), some (lineNumber (k + 6)), ['a']⟩] ∧
      rows old new 0 0 (List.replicate (k + 3) .equal ++ .add :: List.replicate (m + 3) .equal) =
        before ++ (hunk ++ after) := by
    refine ⟨_, rfl, ?_⟩
    have h0 : old.getD k [] = ['a'] := hline 0 (by decide)
    have h1 : old.getD (k + 1) [] = ['a'] := hline 1 (by decide)
    have h2 : old.getD (k + 1 + 1) [] = ['a'] := hline 2 (by decide)
    have h3 : old.getD (k + 1 + 1 + 1) [] = ['a'] := hline 3 (by decide)
    have h4 : old.getD (k + 1 + 1 + 1 + 1) [] = ['a'] := hline 4 (by decide)
    have h5 : old.getD (k + 1 + 1 + 1 + 1 + 1) [] = ['a'] := hline 5 (by decide)
    have h6 : new.getD (k + 1 + 1 + 1) [] = ['b'] := hline'
    rw [List.replicate_add k 3, List.append_assoc, rows_append, hbefore, Nat.zero_add]
    show before ++ rows old new k k (.equal :: .equal :: .equal :: .add :: .equal :: .equal ::
      .equal :: List.replicate m .equal) = _
    rw [rows, rows, rows, rows, rows, rows, rows, h0, h1, h2, h3, h4, h5, h6, ← hafter]
    rfl
  have hlength : before.length = k := by
    rw [← hbefore, length_rows, List.length_replicate]
  have hcontext : ∀ row ∈ before, row.kind = .context := by
    rw [← hbefore]
    exact kind_of_equal
  have hcontext' : ∀ row ∈ after, row.kind = .context := by
    rw [← hafter]
    exact kind_of_equal
  have hcount : (before ++ (hunk ++ after)).length = k + 7 + m := by
    rw [List.length_append, List.length_append, hlength, hhunk, ← hafter, length_rows,
      List.length_replicate]
    show k + (7 + m) = k + 7 + m
    omega
  have hranges : rangesFrom diffContext (before ++ (hunk ++ after)).length none 0
      (before ++ (hunk ++ after)) = [(k, k + 7)] := by
    rw [hcount, rangesFrom_append hcontext, hlength, hhunk, Nat.zero_add]
    simp only [List.cons_append, List.nil_append]
    rw [rangesFrom, if_pos rfl, rangesFrom, if_pos rfl, rangesFrom, if_pos rfl, rangesFrom,
      if_neg (show RowKind.added ≠ .context by decide)]
    dsimp only
    rw [rangesFrom, if_pos rfl, rangesFrom, if_pos rfl, rangesFrom, if_pos rfl,
      rangesFrom_context hcontext']
    have hstart : k + 1 + 1 + 1 - diffContext = k := Nat.add_sub_cancel k 3
    have hstop : min ((k + 1 + 1 + 1 + diffContext + 1) % 2 ^ 64) (k + 7 + m) = k + 7 := by
      rw [diffContext, Nat.mod_eq_of_lt (by omega)]
      omega
    rw [hstart, hstop]
    rfl
  have hrange : ((before ++ (hunk ++ after)).take (k + 7)).drop k = hunk := by
    have hfront : (before ++ hunk).length = k + 7 := by
      rw [List.length_append, hlength, hhunk]
      rfl
    rw [← List.append_assoc, List.take_left' hfront, List.drop_left' hlength]
  rw [hrows, render, hranges]
  show Text.unlines (hunkLines (before ++ (hunk ++ after)) k (k + 7) ++ []) = _
  rw [List.append_nil]
  congr 1
  simp only [hunkLines, hrange]
  rw [hhunk]
  rfl

theorem unifiedDiff_wraps {n m : Nat} (hn : 3 ≤ n) (hm : 3 ≤ m) (hfits : n + m < 2 ^ 63)
    (hnumber : lineNumber (n - 3) = lineNumber (m - 3)) :
    unifiedDiff (plain (n + m)) (inserted n m) = unifiedDiff (plain (n + m)) (inserted m n) := by
  obtain ⟨k, rfl⟩ := Nat.exists_eq_add_of_le' hn
  obtain ⟨l, rfl⟩ := Nat.exists_eq_add_of_le' hm
  rw [Nat.add_sub_cancel, Nat.add_sub_cancel] at hnumber
  have hlast := unifiedDiff_inserted l k (by omega)
  rw [Nat.add_comm (l + 3), ← hnumber] at hlast
  exact (unifiedDiff_inserted k l (by omega)).trans hlast.symm

theorem inserted_ne {n m : Nat} (h : n < m) : inserted n m ≠ inserted m n := by
  intro heq
  have hlines := congrArg (fun text => (Text.lines text)[n]?) heq
  simp only [lines_inserted] at hlines
  rw [List.getElem?_append_right (Nat.le_of_eq List.length_replicate), List.length_replicate,
    Nat.sub_self, List.getElem?_cons_zero,
    List.getElem?_append_left (by rw [List.length_replicate]; exact h),
    List.getElem?_replicate_of_lt h] at hlines
  exact absurd (Option.some.inj hlines) (by decide)

/-- **No change of a line is invisible**, and the diff with the old version determines the lines of
the new one. -/
theorem unifiedDiff_determines (old : List Char) :
    (∀ new, Text.lines old ≠ Text.lines new → unifiedDiff old new ≠ []) ∧
    ((Text.lines old).length < 2 ^ 32 → ∀ new new', (Text.lines new).length < 2 ^ 32 →
      (Text.lines new').length < 2 ^ 32 → unifiedDiff old new = unifiedDiff old new' →
        Text.lines new = Text.lines new') :=
  ⟨fun _ hne hnil => hne (unifiedDiffWithContext_eq_nil_iff.mp hnil),
    fun hold _ _ hnew hnew' => lines_eq_of_diff_eq hold hnew hnew' (by decide)⟩

/-- `c` is inserted after `a`, and what is inserted can be told from anything else. -/
theorem unifiedDiff_determines_insertion :
    unifiedDiff "a\nb\n".toList "a\nc\nb\n".toList ≠ [] ∧
    ∀ new, (Text.lines new).length < 2 ^ 32 →
      unifiedDiff "a\nb\n".toList "a\nc\nb\n".toList = unifiedDiff "a\nb\n".toList new →
        Text.lines "a\nc\nb\n".toList = Text.lines new :=
  ⟨(unifiedDiff_determines _).1 _ (by decide),
    fun new hnew => (unifiedDiff_determines _).2 (by decide) _ new (by decide) hnew⟩

/-- A last line that loses its newline has no diff, a new file has the same diff with it and without
it, and so has a line that is inserted `2 ^ 32` lines further down. -/
theorem not_unifiedDiff_exact :
    ("a\n".toList ≠ "a".toList ∧ unifiedDiff "a\n".toList "a".toList = []) ∧
    unifiedDiff [] "a".toList = unifiedDiff [] "a\n".toList ∧
    (inserted 4 (2 ^ 32 + 4) ≠ inserted (2 ^ 32 + 4) 4 ∧
      unifiedDiff (plain (4 + (2 ^ 32 + 4))) (inserted 4 (2 ^ 32 + 4)) =
        unifiedDiff (plain (4 + (2 ^ 32 + 4))) (inserted (2 ^ 32 + 4) 4)) := by
  refine ⟨⟨by decide, unifiedDiffWithContext_eq_nil_iff.mpr (by decide)⟩, by decide, ?_, ?_⟩
  · exact inserted_ne (by decide)
  · exact unifiedDiff_wraps (by decide) (by decide) (by decide) (by decide)

end Goble.Diff
