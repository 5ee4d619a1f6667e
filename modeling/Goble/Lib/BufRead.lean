import Mathlib.Data.List.Basic

/-!
# Buffered readers

A byte stream as a reader with a buffer hands it out: piece by piece, with reads that would
block in between. The list of `Fill`s is what the calls to come will find; past its end the
stream is at its end and every further call says so.

`fillBuf` and `consume` are the two calls of the interface. A chunk is never empty, since an
empty buffer is how the end of the stream is reported, so `Fill.chunk` carries its first byte
apart.
-/

namespace Goble.BufRead

inductive ErrorKind where
  | wouldBlock
  | interrupted
deriving DecidableEq, Repr, Inhabited

/-- What one read of the underlying stream finds: some bytes, or nothing yet. -/
inductive Fill where
  | chunk (head : UInt8) (tail : List UInt8)
  | wouldBlock
deriving DecidableEq, Repr

/-- The bytes of the stream that are still to come. -/
def bytes : List Fill → List UInt8
  | [] => []
  | .chunk b bs :: rest => b :: bs ++ bytes rest
  | .wouldBlock :: rest => bytes rest

/-- The buffered bytes, filling the buffer if it is empty. Nothing is consumed, except that a
read that would block is over once it has been reported. -/
def fillBuf : List Fill → Except ErrorKind (List UInt8) × List Fill
  | [] => (.ok [], [])
  | .chunk b bs :: rest => (.ok (b :: bs), .chunk b bs :: rest)
  | .wouldBlock :: rest => (.error .wouldBlock, rest)

/-- Drop the first `n` buffered bytes. -/
def consume (n : Nat) : List Fill → List Fill
  | .chunk b bs :: rest =>
    match (b :: bs).drop n with
    | [] => rest
    | c :: cs => .chunk c cs :: rest
  | input => input

@[simp]
theorem bytes_chunk (b : UInt8) (bs : List UInt8) (rest : List Fill) :
    bytes (.chunk b bs :: rest) = b :: bs ++ bytes rest := rfl

@[simp]
theorem bytes_wouldBlock (rest : List Fill) : bytes (.wouldBlock :: rest) = bytes rest := rfl

theorem bytes_consume (n : Nat) (b : UInt8) (bs : List UInt8) (rest : List Fill) :
    bytes (consume n (.chunk b bs :: rest)) = (b :: bs).drop n ++ bytes rest := by
  cases h : (b :: bs).drop n with
  | nil => simp only [consume, h, List.nil_append]
  | cons c cs => simp only [consume, h, bytes_chunk]

/-- Consuming leaves no more pieces than there were. -/
theorem length_consume_le (n : Nat) (input : List Fill) :
    (consume n input).length ≤ input.length := by
  unfold consume
  split
  · split <;> simp
  · exact Nat.le_refl _

end Goble.BufRead
