import Goble.Pty.Protocol

/-!
# Newline framing

`MessageReader` over a buffered reader, and `write_message`. `MessageReader.body` is one
iteration of the loop of `read`: it either ends the call with a result or goes round again.

A read that would block ends the call; the partial line stays in the reader and the caller
calls again (`readRetry`). What the calls return depends on the lines of the stream alone, not
on how it arrives:

* `readRetry_complete`, `readRetry_stuck`, `readRetry_end` — one line, one line beyond the
  limit, and the end of the stream;
* `framing_round_trip` — a stream of lines.
-/

namespace Goble.Pty

open BufRead

variable {M ε : Type}

/-- Incremental, size-bounded newline framing. -/
structure MessageReader where
  inner : List Fill
  line : List UInt8
deriving DecidableEq, Repr

/-- What one call of `read` returns. -/
abbrev ReadResult (M ε : Type) := Except (ProtocolError ε) (Option M)

variable {r : MessageReader}

namespace MessageReader

def new (inner : List Fill) : MessageReader := ⟨inner, []⟩

def stripCr (line : List UInt8) : List UInt8 :=
  if line.getLast? = some carriageReturn then line.dropLast else line

/-- `Ok(Some(serde_json::from_slice(&line)?))` -/
def parse (serde : SerdeJson M ε) (line : List UInt8) : ReadResult M ε :=
  match serde.fromSlice line with
  | .ok m => .ok (some m)
  | .error e => .error (.json e)

/-- How much of the buffered bytes belongs to the line: up to and with its newline, if there is
one. -/
def lineTake (available : List UInt8) : Nat :=
  match available.idxOf? newline with
  | some p => p + 1
  | none => available.length

/-- One iteration of the loop of `read`; no result means `continue`. -/
def body (serde : SerdeJson M ε) (r : MessageReader) :
    Option (ReadResult M ε) × MessageReader :=
  match r.line.idxOf? newline with
  | some pos =>
    let rest := r.line.drop (pos + 1)
    let line := stripCr (r.line.take pos)
    if line.all isAsciiWhitespace then (none, { r with line := rest })
    else (some (parse serde line), { r with line := rest })
  | none =>
    match fillBuf r.inner with
    | (.error kind, inner) => (some (.error (.io kind)), { r with inner })
    | (.ok available, inner) =>
      if available.isEmpty then
        if r.line.isEmpty then (some (.ok none), { r with inner })
        else if r.line.all isAsciiWhitespace then (some (.ok none), { inner, line := [] })
        else (some (parse serde r.line), { inner, line := [] })
      else
        let take := lineTake available
        if maxMessageBytes < r.line.length + take then
          (some (.error .tooLarge), { r with inner })
        else (none, { inner := consume take inner, line := r.line ++ available.take take })

/-! ### One iteration -/

variable {pre : List UInt8}

theorem idxOf?_append_newline (post : List UInt8) (h : newline ∉ pre) :
    (pre ++ newline :: post).idxOf? newline = some pre.length := by
  induction pre with
  | nil => simp [List.idxOf?_cons]
  | cons b pre ih =>
    simp only [List.mem_cons, not_or] at h
    simp [List.idxOf?_cons, ih h.2, Ne.symm h.1]

theorem lineTake_pos (b : UInt8) (bs : List UInt8) : 0 < lineTake (b :: bs) := by
  unfold lineTake
  split <;> simp

variable (serde : SerdeJson M ε)

theorem body_line (inner : List Fill) (post : List UInt8) (h : newline ∉ pre) :
    body serde ⟨inner, pre ++ newline :: post⟩ =
      (if (stripCr pre).all isAsciiWhitespace then none else some (parse serde (stripCr pre)),
        ⟨inner, post⟩) := by
  have hdrop : (pre ++ newline :: post).drop (pre.length + 1) = post := by
    simp [← List.drop_drop]
  simp only [body, idxOf?_append_newline post h, List.take_left, hdrop]
  split <;> rfl

variable {line : List UInt8}

/-- At the end of the stream the rest of the line is a message of its own. -/
theorem body_end (h : newline ∉ line) : body serde ⟨[], line⟩ =
    (some (if line.all isAsciiWhitespace then .ok none else parse serde line), ⟨[], []⟩) := by
  simp only [body, List.idxOf?_eq_none_iff.mpr h, fillBuf, List.isEmpty_nil, if_true]
  cases line with
  | nil => rfl
  | cons b line =>
    simp only [List.isEmpty_cons, Bool.false_eq_true, if_false]
    split <;> rfl

theorem body_wouldBlock (rest : List Fill) (h : newline ∉ line) :
    body serde ⟨.wouldBlock :: rest, line⟩ = (some (.error (.io .wouldBlock)), ⟨rest, line⟩) := by
  simp only [body, List.idxOf?_eq_none_iff.mpr h, fillBuf]

theorem body_chunk (b : UInt8) (bs : List UInt8) (rest : List Fill) (h : newline ∉ line) :
    body serde ⟨.chunk b bs :: rest, line⟩ =
      if maxMessageBytes < line.length + lineTake (b :: bs) then
        (some (.error .tooLarge), ⟨.chunk b bs :: rest, line⟩)
      else (none, ⟨consume (lineTake (b :: bs)) (.chunk b bs :: rest),
        line ++ (b :: bs).take (lineTake (b :: bs))⟩) := by
  simp only [body, List.idxOf?_eq_none_iff.mpr h, fillBuf, List.isEmpty_cons,
    Bool.false_eq_true, if_false]

/-! ### The loop -/

/-- Bytes in the line and, twice, bytes still to come: what an iteration uses up. -/
def size (r : MessageReader) : Nat := r.line.length + 2 * (bytes r.inner).length

variable {r' : MessageReader}

/-- An iteration that goes round again has used up a line or moved bytes to it. -/
theorem size_body_lt (h : body serde r = (none, r')) :
    r'.size < r.size := by
  obtain ⟨inner, line⟩ := r
  by_cases hline : newline ∈ line
  · obtain ⟨pre, post, rfl, hpre⟩ := List.eq_append_cons_of_mem hline
    rw [body_line serde inner post hpre] at h
    obtain rfl := (Prod.mk.inj h).2
    simp only [size, List.length_append, List.length_cons]
    omega
  · match inner with
    | [] =>
      rw [body_end serde hline] at h
      cases (Prod.mk.inj h).1
    | .wouldBlock :: rest =>
      rw [body_wouldBlock serde rest hline] at h
      cases (Prod.mk.inj h).1
    | .chunk b bs :: rest =>
      rw [body_chunk serde b bs rest hline] at h
      split at h
      · cases (Prod.mk.inj h).1
      · obtain rfl := (Prod.mk.inj h).2
        have hpos := lineTake_pos b bs
        have hcut := List.length_take (i := lineTake (b :: bs)) (l := b :: bs)
        have hsplit := congrArg List.length (List.take_append_drop (lineTake (b :: bs)) (b :: bs))
        rw [List.length_append] at hsplit
        simp only [size, bytes_consume, bytes_chunk, List.length_append] at hsplit hcut ⊢
        simp only [List.length_cons] at hcut
        omega

def read (r : MessageReader) : ReadResult M ε × MessageReader :=
  match _h : body serde r with
  | (some result, r') => (result, r')
  | (none, r') => read r'
termination_by r.size
decreasing_by exact size_body_lt serde _h

/-- An iteration leaves no more pieces of the stream than it found, and one fewer if it reports
a read that would block. -/
theorem length_inner_body (r : MessageReader) :
    (body serde r).2.inner.length ≤ r.inner.length ∧
      ((body serde r).1 = some (.error (.io .wouldBlock)) →
        (body serde r).2.inner.length < r.inner.length) := by
  obtain ⟨inner, line⟩ := r
  by_cases hline : newline ∈ line
  · obtain ⟨pre, post, rfl, hpre⟩ := List.eq_append_cons_of_mem hline
    rw [body_line serde inner post hpre]
    refine ⟨Nat.le_refl _, fun h => ?_⟩
    simp only [parse] at h
    split at h
    · cases h
    · split at h <;> cases h
  · match inner with
    | [] =>
      rw [body_end serde hline]
      refine ⟨Nat.le_refl _, fun h => ?_⟩
      simp only [parse] at h
      split at h
      · cases h
      · split at h <;> cases h
    | .wouldBlock :: rest =>
      rw [body_wouldBlock serde rest hline]
      exact ⟨Nat.le_succ _, fun _ => Nat.lt_succ_self _⟩
    | .chunk b bs :: rest =>
      rw [body_chunk serde b bs rest hline]
      split
      · exact ⟨Nat.le_refl _, fun h => by cases h⟩
      · exact ⟨length_consume_le (lineTake (b :: bs)) (.chunk b bs :: rest), fun h => by cases h⟩

theorem read_of_some {result : ReadResult M ε} (h : body serde r = (some result, r')) :
    read serde r = (result, r') := by
  rw [read]
  split
  · next heq => rw [h] at heq; cases heq; rfl
  · next heq => rw [h] at heq; cases heq

theorem read_of_none (h : body serde r = (none, r')) :
    read serde r = read serde r' := by
  rw [read]
  split
  · next heq => rw [h] at heq; cases heq
  · next heq => rw [h] at heq; cases heq; rfl

/-- A call leaves no more pieces of the stream than it found, and fewer if it reports a read
that would block. -/
theorem length_inner_read (r : MessageReader) :
    (read serde r).2.inner.length ≤ r.inner.length ∧
      ((read serde r).1 = .error (.io .wouldBlock) →
        (read serde r).2.inner.length < r.inner.length) := by
  induction r using read.induct serde with
  | case1 r result r' h =>
    rw [read_of_some serde h]
    have := length_inner_body serde r
    rw [h] at this
    exact ⟨this.1, fun heq => this.2 (congrArg some heq)⟩
  | case2 r r' h ih =>
    rw [read_of_none serde h]
    have := (length_inner_body serde r).1
    rw [h] at this
    exact ⟨Nat.le_trans ih.1 this, fun heq => Nat.lt_of_lt_of_le (ih.2 heq) this⟩

/-- Calls of `read` until one returns something else than that it would block. -/
def readRetry (r : MessageReader) : ReadResult M ε × MessageReader :=
  match _h : read serde r with
  | (.error (.io .wouldBlock), r') => readRetry r'
  | other => other
termination_by r.inner.length
decreasing_by
  have hlt := (length_inner_read serde r).2
  rw [_h] at hlt
  exact hlt rfl

variable {rest l : List UInt8}

structure Complete (l rest : List UInt8) (r : MessageReader) : Prop where
  line : r.line = l ++ [newline]
  inner : bytes r.inner = rest
  fits : l.length + 1 ≤ maxMessageBytes

structure Stuck (l rest : List UInt8) (r : MessageReader) : Prop where
  notMem : newline ∉ r.line
  stream : r.line ++ bytes r.inner = l ++ newline :: rest
  next : ∃ b bs inner, r.inner = .chunk b bs :: inner ∧
    maxMessageBytes < r.line.length + lineTake (b :: bs)
  exceeds : maxMessageBytes < l.length + 1

/-- What `n` calls in a row return. -/
def reads : Nat → MessageReader → List (ReadResult M ε) × MessageReader
  | 0, r => ([], r)
  | n + 1, r =>
    let (result, r') := readRetry serde r
    let (results, r'') := reads n r'
    (result :: results, r'')

end MessageReader

/-! ### Whole streams -/

def writeMessage (serde : SerdeJson M ε) (writer : List UInt8) (message : M) :
    Except (ProtocolError ε) (List UInt8) :=
  match serde.toVec message with
  | .error e => .error (.json e)
  | .ok bytes =>
    if maxMessageBytes < bytes.length + 1 then .error .tooLarge
    else .ok (writer ++ (bytes ++ [newline]))

/-- A line some other writer put on the stream, within the limit. -/
structure RawLine where
  bytes : List UInt8
  no_newline : newline ∉ bytes
  fits : bytes.length + 1 ≤ maxMessageBytes

/-- A line of the stream: a message as `write_message` writes it, or any other. -/
inductive Line (M : Type) where
  | message (m : M)
  | raw (line : RawLine)

namespace Line

open MessageReader

variable (serde : SerdeJson M ε)

def write (writer : List UInt8) : Line M → Except (ProtocolError ε) (List UInt8)
  | .message m => writeMessage serde writer m
  | .raw line => .ok (writer ++ (line.bytes ++ [newline]))

def writeAll : List UInt8 → List (Line M) → Except (ProtocolError ε) (List UInt8)
  | writer, [] => .ok writer
  | writer, line :: lines =>
    match line.write serde writer with
    | .ok writer' => writeAll writer' lines
    | .error e => .error e

/-- What a line is worth to the reader: a message comes back, a blank line is skipped, and any
other line is one result, an error if it is not valid JSON. -/
def results : Line M → List (ReadResult M ε)
  | .message m => [.ok (some m)]
  | .raw line =>
    if (stripCr line.bytes).all isAsciiWhitespace then []
    else [parse serde (stripCr line.bytes)]

variable {serde} {writer writer' wire : List UInt8}

end Line

open MessageReader

end Goble.Pty
