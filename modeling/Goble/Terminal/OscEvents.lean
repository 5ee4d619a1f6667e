import Goble.Terminal.Osc
import Goble.Terminal.OscUri
import Mathlib.Algebra.Ring.Int.Defs

/-!
# What the observer reports

`decode` reads the two `OSC` numbers the terminal acts on. A sequence of one of them is reported
wherever it begins, unless it begins inside another one that was never ended: its own `ESC` is then
taken for the start of that one's terminator, and its `]` abandons both (`reports_iff`).
-/

namespace Goble.Terminal.OscTap

/-- `parse::<i32>` -/
def parseInt32 (text : List Char) : Option Int32 :=
  let (negative, digits) := match text with
    | '+' :: digits => (false, digits)
    | '-' :: digits => (true, digits)
    | digits => (false, digits)
  let value : Int := Nat.ofDigitChars 10 digits 0
  let value := if negative then -value else value
  if !digits.isEmpty && digits.all Char.isDigit && decide (-2 ^ 31 ≤ value ∧ value < 2 ^ 31) then
    some (.ofInt value)
  else none

/-- The exit code after `D;`, when the shell sent one. -/
def exitCode (rest : List UInt8) : Option Int32 :=
  match Text.splitOnce 0x3b rest with
  | some (_, value) =>
    if value ≠ [] ∧ Text.isUtf8 value then parseInt32 (Text.trim (Text.lossy value)) else none
  | none => none

/-- Decode the numbers we care about, ignoring the rest. -/
def decode (body : List UInt8) : Option OscEvent :=
  match Text.splitOnce 0x3b body with
  | none => none
  | some (number, rest) =>
    if number = [0x37] then
      if Text.isUtf8 rest then (pathFromUri rest).map .workingDirectory else none
    else if number = [0x31, 0x33, 0x33] then
      match rest.head? with
      | some 0x41 => some (.prompt .promptStart)
      | some 0x42 => some (.prompt .commandStart)
      | some 0x43 => some (.prompt .outputStart)
      | some 0x44 => some (.prompt (.commandEnd (exitCode rest)))
      | _ => none
    else none

example : decode (Text.encode "133;D; -7".toList) = some (.prompt (.commandEnd (some (-7)))) := by
  decide +kernel

/-! ### Sequences -/

inductive Terminator where
  | bel
  | st
deriving DecidableEq, Repr

def Terminator.bytes : Terminator → List UInt8
  | bel => [OscTap.bel]
  | st => [esc, 0x5c]

def sequence (body : List UInt8) (terminator : Terminator) : List UInt8 :=
  esc :: 0x5d :: (body ++ terminator.bytes)

/-- A body that can be collected and says something. -/
structure Encodes (body : List UInt8) (event : OscEvent) : Prop where
  esc_notMem : esc ∉ body
  bel_notMem : bel ∉ body
  length_lt : body.length < maxBody
  decode_eq : decode body = some event

/-- The events of a stream that a fresh tap is fed in chunks. -/
def events (chunks : List (List UInt8)) : List OscEvent :=
  (Transducer.runChunks (step decode) (new, []) chunks).2

def after (bytes : List UInt8) : OscTap := (tap decode (new, []) bytes).1.1

def State.inBody : State → Bool
  | .body .. => true
  | _ => false

section Scan

variable {scan : List UInt8 → Option OscEvent} {st : State} {dropped : Nat} {bytes : List UInt8}

theorem tap_eq (scan : List UInt8 → Option OscEvent) (st : OscTap × List UInt8)
    (input : List UInt8) :
    tap scan st input = (((Transducer.run (observe scan) st.1 input).1, st.2 ++ input),
      (Transducer.run (observe scan) st.1 input).2) := by
  rw [tap]
  induction input generalizing st with
  | nil => rw [Transducer.run_nil, Transducer.run_nil, List.append_nil]
  | cons byte input ih =>
    rw [Transducer.run_cons, Transducer.run_cons, ih]
    show ((_, st.2 ++ [byte] ++ input), _) = ((_, st.2 ++ byte :: input), _)
    rw [List.append_assoc]
    rfl

theorem run_ground (h : esc ∉ bytes) :
    Transducer.run (observe scan) ⟨.ground, dropped⟩ bytes = (⟨.ground, dropped⟩, []) := by
  induction bytes with
  | nil => rfl
  | cons byte bytes ih =>
    have hstep : observe scan ⟨.ground, dropped⟩ byte = (⟨.ground, dropped⟩, []) :=
      if_neg fun heq : byte = esc => h (heq ▸ List.mem_cons_self)
    rw [Transducer.run_cons, hstep, ih fun hmem => h (List.mem_cons_of_mem byte hmem)]
    rfl

theorem run_body {body : List UInt8} (hesc : esc ∉ bytes) (hbel : bel ∉ bytes)
    (hlen : body.length + bytes.length ≤ maxBody) :
    Transducer.run (observe scan) ⟨.body body false, dropped⟩ bytes =
      (⟨.body (body ++ bytes) false, dropped⟩, []) := by
  induction bytes generalizing body with
  | nil => rw [Transducer.run_nil, List.append_nil]
  | cons byte bytes ih =>
    rw [List.length_cons] at hlen
    have hstep : observe scan ⟨.body body false, dropped⟩ byte =
        (⟨.body (body ++ [byte]) false, dropped⟩, []) := by
      rw [observe]
      dsimp only
      rw [if_neg fun heq : byte = bel => hbel (heq ▸ List.mem_cons_self),
        if_neg fun heq : byte = esc => hesc (heq ▸ List.mem_cons_self), if_neg (by omega)]
    rw [Transducer.run_cons, hstep, ih (fun hmem => hesc (List.mem_cons_of_mem byte hmem))
      (fun hmem => hbel (List.mem_cons_of_mem byte hmem))
      (by rw [List.length_append, List.length_singleton]; omega), List.append_assoc]
    rfl

theorem run_open (h : st.inBody = false) :
    Transducer.run (observe scan) ⟨st, dropped⟩ [esc, 0x5d] = (⟨.body [] false, dropped⟩, []) := by
  cases st with
  | ground => rfl
  | escape => rfl
  | body body pending => cases h

/-- The introducer of a sequence abandons an open one, and opens none. -/
theorem run_abandon (h : st.inBody = true) :
    Transducer.run (observe scan) ⟨st, dropped⟩ [esc, 0x5d] = (⟨.ground, dropped + 1⟩, []) := by
  cases st with
  | ground => cases h
  | escape => cases h
  | body body pending =>
    cases pending with
    | true => rfl
    | false => rfl

theorem run_close (body : List UInt8) (terminator : Terminator) :
    Transducer.run (observe scan) ⟨.body body false, dropped⟩ terminator.bytes =
      (⟨.ground, dropped⟩, (scan body).toList) := by
  cases terminator with
  | bel => exact Prod.ext rfl (List.append_nil _)
  | st => exact Prod.ext rfl (List.append_nil _)

theorem run_ground_terminator (terminator : Terminator) :
    Transducer.run (observe scan) ⟨.ground, dropped⟩ terminator.bytes = (⟨.ground, dropped⟩, []) := by
  cases terminator with
  | bel => rfl
  | st => rfl

end Scan

section Sequence

variable {st : State} {dropped : Nat} {body : List UInt8} {event : OscEvent}
  {terminator : Terminator}

theorem sequence_eq : sequence body terminator = [esc, 0x5d] ++ (body ++ terminator.bytes) := rfl

theorem run_sequence (h : Encodes body event) (hst : st.inBody = false) :
    (Transducer.run (observe decode) ⟨st, dropped⟩ (sequence body terminator)).2 = [event] := by
  rw [sequence_eq, Transducer.run_append, run_open hst, Transducer.run_append,
    run_body h.esc_notMem h.bel_notMem (by rw [List.length_nil, Nat.zero_add]; exact h.length_lt.le),
    List.nil_append, run_close, h.decode_eq]
  rfl

theorem run_sequence_inBody (h : Encodes body event) (hst : st.inBody = true) :
    (Transducer.run (observe decode) ⟨st, dropped⟩ (sequence body terminator)).2 = [] := by
  rw [sequence_eq, Transducer.run_append, run_abandon hst, Transducer.run_append,
    run_ground h.esc_notMem, run_ground_terminator]
  rfl

theorem events_eq (chunks : List (List UInt8)) :
    events chunks = (Transducer.run (observe decode) new chunks.flatten).2 := by
  have htap := congrArg Prod.snd (tap_eq decode (new, []) chunks.flatten)
  rw [events, Transducer.runChunks_eq]
  exact htap

/-- However the stream is cut, a sequence adds its own event to those of the bytes before it. -/
def Reports (before body : List UInt8) (terminator : Terminator) (event : OscEvent) : Prop :=
  ∀ chunks, chunks.flatten = before ++ sequence body terminator →
    events chunks = events [before] ++ [event]

theorem events_congr {chunks chunks' : List (List UInt8)} (h : chunks.flatten = chunks'.flatten) :
    events chunks = events chunks' := by
  rw [events_eq, events_eq, h]

theorem events_append (before more : List UInt8) :
    events [before ++ more] =
      events [before] ++ (Transducer.run (observe decode) (after before) more).2 := by
  have hafter : after before = (Transducer.run (observe decode) new before).1 :=
    congrArg (·.1.1) (tap_eq decode (new, []) before)
  rw [events_eq, events_eq, List.flatten_singleton, List.flatten_singleton, Transducer.run_append,
    hafter]

/-- **No marker is missed but in an open sequence.** The events do not depend on how the stream is
cut; and whatever came before, a sequence is reported after the events of what came before it,
exactly if it does not begin inside a sequence that has not ended. -/
theorem reports_iff (before : List UInt8) (terminator : Terminator) (h : Encodes body event) :
    (∀ chunks chunks' : List (List UInt8), chunks.flatten = chunks'.flatten →
      events chunks = events chunks') ∧
    (Reports before body terminator event ↔ (after before).state.inBody = false) := by
  refine ⟨fun _ _ => events_congr, fun hreports => ?_, fun hst chunks hchunks => ?_⟩
  · have hevents := hreports [before ++ sequence body terminator] List.flatten_singleton
    rw [events_append] at hevents
    refine Bool.eq_false_iff.mpr fun hbody => ?_
    rw [run_sequence_inBody h hbody] at hevents
    exact absurd (List.append_cancel_left hevents) (List.cons_ne_nil _ _).symm
  · have hwhole : events chunks = events [before ++ sequence body terminator] :=
      events_congr (by rw [hchunks, List.flatten_singleton])
    rw [hwhole, events_append, run_sequence h hst]

end Sequence

/-- A title that has ended, and an `ESC`. -/
theorem reports_after_escape :
    Reports (Text.encode "\x1b]0;x\x07\x1b".toList) (Text.encode "133;A".toList) .st
      (.prompt .promptStart) :=
  (reports_iff _ _ ⟨by decide, by decide, by decide, by decide +kernel⟩).2.mpr (by decide +kernel)

/-- A title that was cut off: the marker after it is not reported. -/
theorem not_reports_after_title :
    Encodes (Text.encode "133;A".toList) (.prompt .promptStart) ∧
      events [Text.encode "\x1b]0;x".toList ++ sequence (Text.encode "133;A".toList) .bel] = [] :=
  ⟨⟨by decide, by decide, by decide, by decide +kernel⟩, by decide +kernel⟩

end Goble.Terminal.OscTap
