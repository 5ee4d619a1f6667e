/-!
# The per-session replay ring

A bounded, byte-exact history of one session's output. `startSeq` is the absolute offset of the
oldest retained byte. `Retains` says what the ring is for: after any output it holds a suffix of
it, at the offset where that suffix starts.
-/

namespace Goble.Pty

/-- The replay window every session keeps. -/
def replayCapacity : Nat := 512 * 1024

/-- How much output one `output` event carries during replay. -/
def outputChunk : Nat := 8 * 1024

/-- A bounded, byte-exact history of one session's output. -/
structure ReplayRing where
  data : List UInt8
  startSeq : Nat
  capacity : Nat
deriving DecidableEq, Repr

namespace ReplayRing

/-- A ring holding at most `capacity` bytes. Zero is treated as one byte. -/
def new (capacity : Nat) : ReplayRing := ⟨[], 0, max capacity 1⟩

/-- Offset one past the newest retained byte. -/
def endSeq (ring : ReplayRing) : Nat := ring.startSeq + ring.data.length

/-- `pop_front` while there are more than `capacity` bytes. -/
def trim (capacity : Nat) : List UInt8 → List UInt8
  | [] => []
  | b :: bs => if capacity < (b :: bs).length then trim capacity bs else b :: bs

/-- Append `bytes`; returns the sequence (byte offset) of the first one. -/
def push (ring : ReplayRing) (bytes : List UInt8) : Nat × ReplayRing :=
  let seq := ring.endSeq
  let data := trim ring.capacity (ring.data ++ bytes)
  let total := seq + bytes.length
  (seq, { ring with data, startSeq := total - data.length })

/-- The retained bytes from `fromSeq` onward, and the offset they start at. -/
def readFrom (ring : ReplayRing) (fromSeq : Nat) : Nat × List UInt8 :=
  let start := min (max fromSeq ring.startSeq) ring.endSeq
  (start, ring.data.drop (start - ring.startSeq))

/-- `slice::chunks`; `fuel` bounds the number of chunks. -/
def chunks (size : Nat) : Nat → List UInt8 → List (List UInt8)
  | 0, _ => []
  | _ + 1, [] => []
  | fuel + 1, b :: bs => (b :: bs).take size :: chunks size fuel ((b :: bs).drop size)

/-- Split retained bytes at `fromSeq` into replay-sized chunks. -/
def chunksFrom (ring : ReplayRing) (fromSeq : Nat) : List (Nat × List UInt8) :=
  let (start, bytes) := ring.readFrom fromSeq
  (chunks outputChunk bytes.length bytes).zipIdx.map fun (chunk, index) =>
    (start + index * outputChunk, chunk)

@[simp]
theorem chunks_nil (size fuel : Nat) : chunks size fuel [] = [] := by cases fuel <;> rfl

/-! ### What the ring retains -/

theorem trim_eq_drop (capacity : Nat) (data : List UInt8) :
    trim capacity data = data.drop (data.length - capacity) := by
  induction data with
  | nil => rw [trim, List.drop_nil]
  | cons b bs ih =>
    rw [trim]
    split
    · next h =>
      rw [ih, show (b :: bs).length - capacity = bs.length - capacity + 1 by
        simp only [List.length_cons] at h ⊢; omega, List.drop_succ_cons]
    · next h => rw [show (b :: bs).length - capacity = 0 by omega, List.drop_zero]

structure Retains (ring : ReplayRing) (output : List UInt8) : Prop where
  start_le : ring.startSeq ≤ output.length
  data : ring.data = output.drop ring.startSeq

theorem retains_new (capacity : Nat) : (new capacity).Retains [] := ⟨Nat.le_refl 0, rfl⟩

variable {ring : ReplayRing} {output : List UInt8}

theorem Retains.endSeq (h : ring.Retains output) : ring.endSeq = output.length := by
  have := h.start_le
  rw [ReplayRing.endSeq, h.data, List.length_drop]
  omega

theorem Retains.push (h : ring.Retains output) (bytes : List UInt8) :
    (ring.push bytes).2.Retains (output ++ bytes) := by
  have hle := h.start_le
  have hsuffix : ring.data ++ bytes = (output ++ bytes).drop ring.startSeq := by
    rw [h.data, List.drop_append_of_le_length hle]
  have hend := h.endSeq
  refine ⟨?_, ?_⟩
  · simp only [ReplayRing.push, hend, List.length_append]
    omega
  · simp only [ReplayRing.push, trim_eq_drop, hend, hsuffix, List.drop_drop, List.length_drop,
      List.length_append]
    congr 1
    omega

/-- What is read back is the rest of the output, from the offset asked for or the closest one
retained. -/
theorem Retains.readFrom (h : ring.Retains output) (fromSeq : Nat) :
    ring.readFrom fromSeq = (min (max fromSeq ring.startSeq) output.length,
      output.drop (min (max fromSeq ring.startSeq) output.length)) := by
  have hle := h.start_le
  simp only [ReplayRing.readFrom, h.endSeq, h.data, List.drop_drop]
  congr 2
  omega

end ReplayRing

/-! ### Contiguous pieces -/

/-- The pieces, each with its offset, are the bytes of `output` at these offsets and follow on
each other from `next` on. -/
def Contiguous (output : List UInt8) : Nat → List (Nat × List UInt8) → Prop
  | _, [] => True
  | next, (seq, bytes) :: rest =>
    seq = next ∧ bytes = (output.drop seq).take bytes.length ∧
      Contiguous output (next + bytes.length) rest

/-- How many bytes the pieces are. -/
def span : List (Nat × List UInt8) → Nat
  | [] => 0
  | (_, bytes) :: rest => bytes.length + span rest

theorem span_append (xs ys : List (Nat × List UInt8)) : span (xs ++ ys) = span xs + span ys := by
  induction xs with
  | nil => simp [span]
  | cons x xs ih => simp [span, ih, Nat.add_assoc]

theorem contiguous_append {output : List UInt8} {next : Nat} {xs ys : List (Nat × List UInt8)} :
    Contiguous output next (xs ++ ys) ↔
      Contiguous output next xs ∧ Contiguous output (next + span xs) ys := by
  induction xs generalizing next with
  | nil => simp [Contiguous, span]
  | cons x xs ih =>
    obtain ⟨seq, bytes⟩ := x
    simp only [List.cons_append, Contiguous, ih, span, Nat.add_assoc, and_assoc]

theorem Contiguous.append_output {output : List UInt8} {next : Nat}
    {pieces : List (Nat × List UInt8)} (h : Contiguous output next pieces) (more : List UInt8) :
    Contiguous (output ++ more) next pieces := by
  induction pieces generalizing next with
  | nil => trivial
  | cons x pieces ih =>
    obtain ⟨seq, bytes⟩ := x
    obtain ⟨hseq, hbytes, hrest⟩ := h
    refine ⟨hseq, ?_, ih hrest⟩
    have hlen := congrArg List.length hbytes
    rw [List.length_take, List.length_drop] at hlen
    by_cases hle : seq ≤ output.length
    · rw [List.drop_append_of_le_length hle, List.take_append_of_le_length]
      · exact hbytes
      · rw [List.length_drop]
        omega
    · obtain rfl : bytes = [] := List.length_eq_zero_iff.mp (by omega)
      rw [List.length_nil, List.take_zero]

theorem contiguous_chunks {output : List UInt8} {start size : Nat} (hsize : 0 < size)
    (fuel index : Nat) (bytes : List UInt8) (hfuel : bytes.length ≤ fuel)
    (hbytes : bytes = output.drop (start + index * size))
    (hle : start + index * size ≤ output.length) :
    Contiguous output (start + index * size)
        (((ReplayRing.chunks size fuel bytes).zipIdx index).map fun (chunk, i) =>
          (start + i * size, chunk)) ∧
      start + index * size +
        span (((ReplayRing.chunks size fuel bytes).zipIdx index).map fun (chunk, i) =>
          (start + i * size, chunk)) = output.length := by
  have hlen : bytes.length = output.length - (start + index * size) := by
    rw [hbytes, List.length_drop]
  induction fuel generalizing index bytes with
  | zero =>
    simp only [ReplayRing.chunks, List.zipIdx_nil, List.map_nil, Contiguous, span, true_and]
    omega
  | succ fuel ih =>
    cases bytes with
    | nil =>
      simp only [ReplayRing.chunks, List.zipIdx_nil, List.map_nil, Contiguous, span, true_and]
      simp only [List.length_nil] at hlen
      omega
    | cons b bs =>
      have hpiece : (b :: bs).take size =
          (output.drop (start + index * size)).take ((b :: bs).take size).length := by
        rw [← hbytes, List.length_take, List.take_eq_take_iff]
        omega
      simp only [ReplayRing.chunks, List.zipIdx_cons, List.map_cons, Contiguous, span]
      rw [true_and, and_assoc, and_iff_right hpiece, List.length_take]
      rcases Nat.lt_or_ge size (b :: bs).length with hlong | hshort
      · -- a full chunk, after which the next one starts
        have hnext : start + (index + 1) * size = start + index * size + size := by
          rw [Nat.succ_mul, Nat.add_assoc]
        have hdrop : ((b :: bs).drop size).length = (b :: bs).length - size := List.length_drop
        have ih := ih (index + 1) ((b :: bs).drop size) (by omega)
          (by rw [hbytes, List.drop_drop, hnext]) (by omega) (by omega)
        rw [hnext] at ih
        rw [Nat.min_eq_left (Nat.le_of_lt hlong), ← Nat.add_assoc]
        exact ih
      · rw [List.drop_of_length_le hshort, ReplayRing.chunks_nil, Nat.min_eq_right hshort]
        simp only [List.zipIdx_nil, List.map_nil, Contiguous, span, true_and]
        omega

theorem ReplayRing.Retains.chunksFrom {ring : ReplayRing} {output : List UInt8}
    (h : ring.Retains output) (fromSeq : Nat) :
    Contiguous output (ring.readFrom fromSeq).1 (ring.chunksFrom fromSeq) ∧
      (ring.readFrom fromSeq).1 + span (ring.chunksFrom fromSeq) = output.length := by
  have := @contiguous_chunks output (ring.readFrom fromSeq).1 outputChunk (by decide)
    (ring.readFrom fromSeq).2.length 0
    (ring.readFrom fromSeq).2 (Nat.le_refl _) (by simp [h.readFrom])
    (by simp only [h.readFrom]; omega)
  rw [Nat.zero_mul, Nat.add_zero] at this
  exact this

/-! ### Every history -/

theorem Contiguous.flatten {output : List UInt8} {next : Nat} {pieces : List (Nat × List UInt8)}
    (h : Contiguous output next pieces) :
    (pieces.map Prod.snd).flatten = (output.drop next).take (span pieces) := by
  induction pieces generalizing next with
  | nil => rw [span, List.take_zero]; rfl
  | cons piece pieces ih =>
    obtain ⟨seq, bytes⟩ := piece
    obtain ⟨rfl, hbytes, hrest⟩ := h
    rw [List.map_cons, List.flatten_cons, ih hrest, span, List.take_add, List.drop_drop, ← hbytes]

namespace ReplayRing

theorem length_le_of_mem_chunks {size fuel : Nat} {bytes chunk : List UInt8}
    (h : chunk ∈ chunks size fuel bytes) : chunk.length ≤ size := by
  induction fuel generalizing bytes with
  | zero => exact absurd h List.not_mem_nil
  | succ fuel ih =>
    cases bytes with
    | nil => exact absurd h List.not_mem_nil
    | cons b bs =>
      rw [chunks] at h
      rcases List.mem_cons.mp h with rfl | h
      · exact List.length_take_le _ _
      · exact ih h

theorem length_le_of_mem_chunksFrom {ring : ReplayRing} {fromSeq : Nat}
    {piece : Nat × List UInt8} (h : piece ∈ ring.chunksFrom fromSeq) :
    piece.2.length ≤ outputChunk := by
  rw [chunksFrom] at h
  obtain ⟨⟨chunk, index⟩, hmem, rfl⟩ := List.mem_map.mp h
  exact length_le_of_mem_chunks (List.fst_mem_of_mem_zipIdx hmem)

def pushAll (ring : ReplayRing) : List (List UInt8) → List Nat × ReplayRing
  | [] => ([], ring)
  | bytes :: pushes =>
    let (seq, ring) := ring.push bytes
    let (seqs, ring) := ring.pushAll pushes
    (seq :: seqs, ring)

/-- The ring holds the end of `output`, as much of it as it can. -/
structure Exact (ring : ReplayRing) (output : List UInt8) : Prop extends ring.Retains output where
  full : ring.startSeq = output.length - ring.capacity

theorem exact_new (capacity : Nat) : (new capacity).Exact [] :=
  ⟨retains_new capacity, (Nat.zero_sub _).symm⟩

variable {ring : ReplayRing} {output : List UInt8}

theorem capacity_push (bytes : List UInt8) : (ring.push bytes).2.capacity = ring.capacity := rfl

theorem Exact.push (h : ring.Exact output) (bytes : List UInt8) :
    (ring.push bytes).1 = output.length ∧ (ring.push bytes).2.Exact (output ++ bytes) := by
  have hend := h.toRetains.endSeq
  refine ⟨hend, h.toRetains.push bytes, ?_⟩
  -- as many bytes are kept as there are, up to the capacity
  have hdata : ring.data.length = output.length - ring.startSeq := by
    rw [h.data, List.length_drop]
  have hfull := h.full
  rw [capacity_push]
  simp only [ReplayRing.push, trim_eq_drop, hend, List.length_drop, List.length_append]
  omega

theorem Exact.pushAll (h : ring.Exact output) (pushes : List (List UInt8)) :
    (ring.pushAll pushes).2.Exact (output ++ pushes.flatten) ∧
      (ring.pushAll pushes).2.capacity = ring.capacity ∧
      (ring.pushAll pushes).1 = (List.range pushes.length).map fun i =>
        (output ++ (pushes.take i).flatten).length := by
  induction pushes generalizing ring output with
  | nil =>
    rw [List.flatten_nil, List.append_nil]
    exact ⟨h, rfl, rfl⟩
  | cons bytes pushes ih =>
    obtain ⟨hseq, hnext⟩ := h.push bytes
    obtain ⟨hexact, hcapacity, hseqs⟩ := ih hnext
    refine ⟨?_, hcapacity, ?_⟩
    · rw [List.flatten_cons, ← List.append_assoc]
      exact hexact
    · show (ring.push bytes).1 :: ((ring.push bytes).2.pushAll pushes).1 = _
      rw [hseq, hseqs, List.length_cons, List.range_succ_eq_map, List.map_cons, List.map_map,
        List.take_zero, List.flatten_nil, List.append_nil]
      refine congrArg _ (List.map_congr_left fun i _ => ?_)
      rw [Function.comp_apply, List.take_succ_cons, List.flatten_cons, List.append_assoc]

/-- **Replay is exact.** After any pushes the ring holds the last bytes of what was pushed, as many
as it can, each push having returned how much was pushed before it; and what is read back from an
offset, in one piece or in chunks, is what was pushed from there on, or from the closest offset that
is still held. -/
theorem exact_of_pushes (capacity : Nat) (pushes : List (List UInt8)) :
    match (new capacity).pushAll pushes with
    | (seqs, ring) =>
      let output := pushes.flatten
      let kept := min (max capacity 1) output.length
      (ring.data = output.drop (output.length - kept) ∧ ring.data.length = kept ∧
          ring.startSeq = output.length - kept ∧ ring.endSeq = output.length) ∧
        (seqs = (List.range pushes.length).map fun i => (pushes.take i).flatten.length) ∧
        ∀ fromSeq,
          let start := min (max fromSeq ring.startSeq) ring.endSeq
          ring.readFrom fromSeq = (start, output.drop start) ∧
            (∀ piece ∈ ring.chunksFrom fromSeq, piece.2.length ≤ outputChunk) ∧
            Contiguous output start (ring.chunksFrom fromSeq) ∧
            ((ring.chunksFrom fromSeq).map Prod.snd).flatten = output.drop start := by
  obtain ⟨hexact, hcapacity, hseqs⟩ := (exact_new capacity).pushAll pushes
  rw [List.nil_append] at hexact
  have hcap : ((new capacity).pushAll pushes).2.capacity = max capacity 1 := hcapacity
  have hend := hexact.toRetains.endSeq
  have hstart : ((new capacity).pushAll pushes).2.startSeq =
      pushes.flatten.length - min (max capacity 1) pushes.flatten.length := by
    rw [hexact.full, hcap]
    omega
  refine ⟨⟨?_, ?_, hstart, hend⟩, ?_, fun fromSeq => ?_⟩
  · rw [← hstart]
    exact hexact.data
  · rw [hexact.data, List.length_drop, hstart]
    omega
  · rw [hseqs]
    rfl
  · dsimp only
    have hread := hexact.toRetains.readFrom fromSeq
    obtain ⟨hcontiguous, hspan⟩ := hexact.toRetains.chunksFrom fromSeq
    rw [hread] at hcontiguous hspan
    rw [hend]
    refine ⟨hread, fun piece => length_le_of_mem_chunksFrom, hcontiguous, ?_⟩
    rw [hcontiguous.flatten, List.take_of_length_le]
    rw [List.length_drop]
    exact Nat.le_of_eq (Nat.sub_eq_of_eq_add' hspan.symm)

end ReplayRing

end Goble.Pty
