import Goble.Diff.Unified

/-!
# Reading a unified diff

The diff element parses the recorded diff back into hunks
(`crates/goble-ui/src/elements/diff/model.rs`). It reads the starts and the counts from a header,
and numbers the body lines itself, by counting what it has consumed of either side. A hunk ends at
the next header, or when it has its counts.

The reader's half of the round trip: a header that the writer has written is read back
(`parseHunkHeader_headerText`), and numbered rows after it come back with their numbers
(`foldl_parseStep_rows`).
-/

namespace Goble.Diff

inductive DiffLineKind
  | context | added | removed
deriving DecidableEq, Repr

structure DiffLine where
  kind : DiffLineKind
  oldLine : Option Nat
  newLine : Option Nat
  text : Line
deriving DecidableEq, Repr

structure Hunk where
  oldStart : Nat
  oldCount : Nat
  newStart : Nat
  newCount : Nat
  sectionLabel : List Char
  lines : List DiffLine
deriving DecidableEq, Repr

def parseRange (token : List Char) : Option (Nat × Nat) :=
  let token := token.dropWhile fun c => c == '-' || c == '+'
  match token.splitOn ',' with
  | [] => none
  | [start] => (Text.parseNat (2 ^ 32) (Text.trim start)).map fun start => (start, 1)
  | start :: count :: _ =>
    (Text.parseNat (2 ^ 32) (Text.trim start)).bind fun start =>
      (Text.parseNat (2 ^ 32) (Text.trim count)).map fun count => (start, count)

def parseHunkHeader : List Char → Option Hunk
  | '@' :: '@' :: rest =>
    (Text.cutAt "@@".toList rest).bind fun (ranges, after) =>
      match Text.splitWhitespace ranges with
      | old :: new :: _ =>
        (parseRange old).bind fun (oldStart, oldCount) =>
          (parseRange new).map fun (newStart, newCount) =>
            { oldStart, oldCount, newStart, newCount, sectionLabel := Text.trim after, lines := [] }
      | _ => none
  | _ => none

/-- The variables of the loop. -/
structure ParseState where
  hunks : List Hunk
  current : Option Hunk
  consumedOld : Nat
  consumedNew : Nat
deriving DecidableEq, Repr

def Hunk.push (hunk : Hunk) (line : DiffLine) : Hunk :=
  { hunk with lines := hunk.lines ++ [line] }

def ParseState.push (s : ParseState) (hunk : Hunk) (kind : DiffLineKind) (text : Line) :
    ParseState :=
  let line : DiffLine :=
    { kind
      oldLine := if kind ≠ .added then some ((hunk.oldStart + s.consumedOld) % 2 ^ 32) else none
      newLine := if kind ≠ .removed then some ((hunk.newStart + s.consumedNew) % 2 ^ 32) else none
      text }
  { s with
    current := some (hunk.push line)
    consumedOld := if kind ≠ .added then (s.consumedOld + 1) % 2 ^ 32 else s.consumedOld
    consumedNew := if kind ≠ .removed then (s.consumedNew + 1) % 2 ^ 32 else s.consumedNew }

def parseStep (s : ParseState) (raw : List Char) : ParseState :=
  if "@@".toList.isPrefixOf raw then
    match parseHunkHeader raw with
    | some hunk => ⟨s.hunks ++ s.current.toList, some hunk, 0, 0⟩
    | none => { s with hunks := s.hunks ++ s.current.toList, current := none }
  else
    match s.current with
    | none => s
    | some hunk =>
      if s.consumedOld ≥ hunk.oldCount ∧ s.consumedNew ≥ hunk.newCount then
        { s with hunks := s.hunks ++ [hunk], current := none }
      else
        match raw with
        | ' ' :: text => s.push hunk .context text
        | '+' :: text => s.push hunk .added text
        | '-' :: text => s.push hunk .removed text
        | _ => s

def parseUnifiedDiff (input : List Char) : List Hunk :=
  let s := (Text.lines input).foldl parseStep ⟨[], none, 0, 0⟩
  s.hunks ++ s.current.toList

/-! ### Headers -/

theorem rangeText_chars {start count : Nat} {c : Char} (h : c ∈ rangeText start count) :
    c.isDigit = true ∨ c = ',' := by
  rw [rangeText] at h
  split at h
  · exact .inl (Text.isDigit_of_mem_toDigits h)
  · rw [List.mem_append, List.mem_cons] at h
    obtain h | rfl | h := h
    · exact .inl (Text.isDigit_of_mem_toDigits h)
    · exact .inr rfl
    · exact .inl (Text.isDigit_of_mem_toDigits h)

theorem toDigits_ne {n : Nat} {c : Char} (h : c.isDigit = false) : c ∉ Nat.toDigits 10 n :=
  fun hmem => by rw [Text.isDigit_of_mem_toDigits hmem] at h; cases h

theorem dropWhile_sign {sign : Char} (hsign : sign = '-' ∨ sign = '+') (n : Nat)
    (rest : List Char) :
    (sign :: (Nat.toDigits 10 n ++ rest)).dropWhile (fun c => c == '-' || c == '+') =
      Nat.toDigits 10 n ++ rest := by
  have hpos : (sign == '-' || sign == '+') = true := by
    obtain rfl | rfl := hsign <;> rfl
  rw [List.dropWhile_cons_of_pos (by exact hpos)]
  cases hdigits : Nat.toDigits 10 n with
  | nil => exact absurd hdigits Nat.toDigits_ne_nil
  | cons c digits =>
    have hmem : c ∈ Nat.toDigits 10 n := hdigits ▸ List.mem_cons_self
    have hminus : c ≠ '-' := fun heq => toDigits_ne (n := n) (c := '-') rfl (heq ▸ hmem)
    have hplus : c ≠ '+' := fun heq => toDigits_ne (n := n) (c := '+') rfl (heq ▸ hmem)
    rw [List.cons_append, List.dropWhile_cons_of_neg (by simp [hminus, hplus])]

theorem parseRange_rangeText {sign : Char} (hsign : sign = '-' ∨ sign = '+') {start count : Nat}
    (hstart : start < 2 ^ 32) (hcount : count < 2 ^ 32) :
    parseRange (sign :: rangeText start count) = some (start, count) := by
  rw [parseRange, rangeText]
  by_cases hone : count = 1
  · rw [if_pos hone]
    have hdrop := dropWhile_sign hsign start []
    rw [List.append_nil] at hdrop
    simp only [hdrop, List.splitOn_eq_singleton (toDigits_ne (n := start) (c := ',') rfl),
      Text.trim_toDigits, Text.parseNat_toDigits hstart, Option.map_some, hone]
  · rw [if_neg hone]
    have hsplit : (Nat.toDigits 10 start ++ ',' :: Nat.toDigits 10 count).splitOn ',' =
        [Nat.toDigits 10 start, Nat.toDigits 10 count] := by
      rw [List.splitOn_append_cons_self_of_not_mem (toDigits_ne rfl),
        List.splitOn_eq_singleton (toDigits_ne rfl)]
    simp only [dropWhile_sign hsign start, hsplit, Text.trim_toDigits,
      Text.parseNat_toDigits hstart, Text.parseNat_toDigits hcount, Option.bind_some,
      Option.map_some]

theorem not_whitespace_of_mem_rangeText (start count : Nat) {sign c : Char}
    (hsign : Text.isWhitespace sign = false) (h : c ∈ sign :: rangeText start count) :
    Text.isWhitespace c = false := by
  obtain rfl | h := List.mem_cons.mp h
  · exact hsign
  · obtain hdigit | rfl := rangeText_chars h
    · exact Text.isWhitespace_of_isDigit hdigit
    · rfl

theorem at_notMem_rangeText (start count : Nat) : '@' ∉ rangeText start count := by
  intro hmem
  obtain hdigit | hcomma := rangeText_chars hmem
  · cases hdigit
  · cases hcomma

theorem parseHunkHeader_headerText {oldStart oldCount newStart newCount : Nat}
    (hold : oldStart < 2 ^ 32) (hold' : oldCount < 2 ^ 32) (hnew : newStart < 2 ^ 32)
    (hnew' : newCount < 2 ^ 32) :
    parseHunkHeader (headerText oldStart oldCount newStart newCount) =
      some ⟨oldStart, oldCount, newStart, newCount, [], []⟩ := by
  have hat : '@' ∉ ' ' :: '-' :: (rangeText oldStart oldCount ++ ' ' :: '+' ::
      (rangeText newStart newCount ++ [' '])) := by
    simp [at_notMem_rangeText]
  have hcut := Text.cutAt_append ['@'] [] hat
  have htokens : Text.splitWhitespace (' ' :: '-' :: (rangeText oldStart oldCount ++ ' ' :: '+' ::
      (rangeText newStart newCount ++ [' ']))) =
        ['-' :: rangeText oldStart oldCount, '+' :: rangeText newStart newCount] := by
    have hold : ∀ c ∈ '-' :: rangeText oldStart oldCount, Text.isWhitespace c = false :=
      fun c => not_whitespace_of_mem_rangeText oldStart oldCount rfl
    have hnew : ∀ c ∈ '+' :: rangeText newStart newCount, Text.isWhitespace c = false :=
      fun c => not_whitespace_of_mem_rangeText newStart newCount rfl
    have hnil : ∀ c ∈ ([] : List Char), Text.isWhitespace c = false := by simp
    have hfirst := List.splitOnP_append_cons_of_forall_mem hnil ' ' rfl
      ('-' :: (rangeText oldStart oldCount ++ ' ' :: '+' ::
        (rangeText newStart newCount ++ [' '])))
    have hsecond := List.splitOnP_append_cons_of_forall_mem hold ' ' rfl
      ('+' :: (rangeText newStart newCount ++ [' ']))
    have hthird := List.splitOnP_append_cons_of_forall_mem hnew ' ' rfl []
    rw [List.nil_append] at hfirst
    rw [List.cons_append] at hsecond hthird
    rw [Text.splitWhitespace, hfirst, hsecond, hthird]
    rfl
  have htext : headerText oldStart oldCount newStart newCount = '@' :: '@' :: ((' ' :: '-' ::
      (rangeText oldStart oldCount ++ ' ' :: '+' :: (rangeText newStart newCount ++ [' ']))) ++
        ['@', '@'] ++ []) := by
    simp [headerText]
  have hmarker : "@@".toList = ['@', '@'] := rfl
  rw [htext, parseHunkHeader, hmarker, hcut]
  simp only [htokens, parseRange_rangeText (.inl rfl) hold hold',
    parseRange_rangeText (.inr rfl) hnew hnew', Option.bind_some, Option.map_some]
  rfl

/-! ### Bodies -/

def Row.line (row : Row) : DiffLine :=
  { kind := match row.kind with
      | .context => .context
      | .removed => .removed
      | .added => .added
    oldLine := row.oldLine, newLine := row.newLine, text := row.text }

theorem parseStep_raw {s : ParseState} {hunk : Hunk} (hcurrent : s.current = some hunk)
    (hopen : s.consumedOld < hunk.oldCount ∨ s.consumedNew < hunk.newCount) (row : Row) :
    parseStep s row.raw = s.push hunk row.line.kind row.text := by
  have hmore : ¬ (s.consumedOld ≥ hunk.oldCount ∧ s.consumedNew ≥ hunk.newCount) := by omega
  have hheader : ("@@".toList.isPrefixOf row.raw) = false := by
    obtain ⟨kind, oldLine, newLine, text⟩ := row
    cases kind <;> rfl
  rw [parseStep, hheader, if_neg Bool.false_ne_true, hcurrent]
  simp only [if_neg hmore]
  obtain ⟨kind, oldLine, newLine, text⟩ := row
  cases kind <;> rfl

structure Side (start count consumed before : Nat) (lines : List Line) : Prop where
  owed : count = consumed + lines.length
  number : lines ≠ [] → start + consumed = before + 1
  bound : before + lines.length < 2 ^ 32
  small : count < 2 ^ 32

theorem Side.next {start count consumed before : Nat} {line : Line} {lines : List Line}
    (h : Side start count consumed before (line :: lines)) :
    consumed < count ∧ (start + consumed) % 2 ^ 32 = before + 1 ∧
      (consumed + 1) % 2 ^ 32 = consumed + 1 ∧
      Side start count (consumed + 1) (before + 1) lines := by
  obtain ⟨hcount, hstart, hbound, hsmall⟩ := h
  have hstart := hstart (List.cons_ne_nil _ _)
  rw [List.length_cons] at hcount hbound
  exact ⟨by omega, by omega, Nat.mod_eq_of_lt (by omega), by omega, fun _ => by omega, by omega,
    hsmall⟩

section

variable {i j : Nat} {old new : List Line} {rows : List Row}

theorem foldl_parseStep_rows (h : Rows i j old new rows) {s : ParseState} {hunk : Hunk}
    (hcurrent : s.current = some hunk) (hold : Side hunk.oldStart hunk.oldCount s.consumedOld i old)
    (hnew : Side hunk.newStart hunk.newCount s.consumedNew j new) :
    (rows.map Row.raw).foldl parseStep s =
      ⟨s.hunks, some { hunk with lines := hunk.lines ++ rows.map Row.line },
        s.consumedOld + old.length, s.consumedNew + new.length⟩ := by
  induction h generalizing s hunk with
  | nil =>
    obtain ⟨hunks, current, consumedOld, consumedNew⟩ := s
    obtain rfl : current = some hunk := hcurrent
    simp
  | @context i j old new rows text _ ih =>
    obtain ⟨hopen, hnumber, hcount, hold⟩ := hold.next
    obtain ⟨-, hnumber', hcount', hnew⟩ := hnew.next
    have hpush : s.push hunk .context text =
        ⟨s.hunks, some (hunk.push ⟨.context, some (i + 1), some (j + 1), text⟩),
          s.consumedOld + 1, s.consumedNew + 1⟩ := by
      rw [ParseState.push, hnumber, hnumber', hcount, hcount']
      rfl
    rw [List.map_cons, List.foldl_cons, parseStep_raw hcurrent (.inl hopen)]
    refine (congrArg (List.foldl parseStep · _) hpush).trans ((ih rfl ?_ ?_).trans ?_)
    · exact hold
    · exact hnew
    simp [Hunk.push, Row.line, Nat.add_assoc, Nat.add_comm 1]
  | @removed i j old new rows text _ ih =>
    obtain ⟨hopen, hnumber, hcount, hold⟩ := hold.next
    have hpush : s.push hunk .removed text =
        ⟨s.hunks, some (hunk.push ⟨.removed, some (i + 1), none, text⟩),
          s.consumedOld + 1, s.consumedNew⟩ := by
      rw [ParseState.push, hnumber, hcount]
      rfl
    rw [List.map_cons, List.foldl_cons, parseStep_raw hcurrent (.inl hopen)]
    refine (congrArg (List.foldl parseStep · _) hpush).trans ((ih rfl ?_ ?_).trans ?_)
    · exact hold
    · exact hnew
    simp [Hunk.push, Row.line, Nat.add_assoc, Nat.add_comm 1]
  | @added i j old new rows text _ ih =>
    obtain ⟨hopen, hnumber, hcount, hnew⟩ := hnew.next
    have hpush : s.push hunk .added text =
        ⟨s.hunks, some (hunk.push ⟨.added, none, some (j + 1), text⟩),
          s.consumedOld, s.consumedNew + 1⟩ := by
      rw [ParseState.push, hnumber, hcount]
      rfl
    rw [List.map_cons, List.foldl_cons, parseStep_raw hcurrent (.inr hopen)]
    refine (congrArg (List.foldl parseStep · _) hpush).trans ((ih rfl ?_ ?_).trans ?_)
    · exact hold
    · exact hnew
    simp [Hunk.push, Row.line, Nat.add_assoc, Nat.add_comm 1]

def hunkOf (i j : Nat) (old new : List Line) (rows : List Row) : Hunk :=
  ⟨hunkStart i old, old.length, hunkStart j new, new.length, [], rows.map Row.line⟩

theorem side_hunkStart {before : Nat} {lines : List Line} (h : before + lines.length < 2 ^ 32) :
    hunkStart before lines < 2 ^ 32 ∧ lines.length < 2 ^ 32 ∧
      Side (hunkStart before lines) lines.length 0 before lines := by
  have hlt : lines.length < 2 ^ 32 := Nat.lt_of_le_of_lt (Nat.le_add_left _ before) h
  refine ⟨?_, hlt, (Nat.zero_add _).symm, fun hne => if_neg hne, h, hlt⟩
  rw [hunkStart]
  split
  next => exact Nat.lt_of_le_of_lt (Nat.le_add_right before _) h
  next hne =>
    have hpos := List.length_pos_of_ne_nil hne
    omega

/-- A hunk that has been written is read back, whatever was read before. -/
theorem foldl_parseStep_hunk (h : Rows i j old new rows) (s : ParseState)
    (hold : i + old.length < 2 ^ 32) (hnew : j + new.length < 2 ^ 32) :
    (headerText (hunkStart i old) old.length (hunkStart j new) new.length ::
        rows.map Row.raw).foldl parseStep s =
      ⟨s.hunks ++ s.current.toList, some (hunkOf i j old new rows), old.length, new.length⟩ := by
  obtain ⟨hstart, hcount, hside⟩ := side_hunkStart hold
  obtain ⟨hstart', hcount', hside'⟩ := side_hunkStart hnew
  have hheader : "@@".toList.isPrefixOf
      (headerText (hunkStart i old) old.length (hunkStart j new) new.length) = true := by
    simp [headerText]
  rw [List.foldl_cons, parseStep, if_pos hheader,
    parseHunkHeader_headerText hstart hcount hstart' hcount']
  refine (foldl_parseStep_rows h rfl hside hside').trans ?_
  simp [hunkOf]

end

end Goble.Diff
