import Goble.Goblin.Stream
import Mathlib.Data.List.Basic

/-!
# The bytes of a stream

The waiter cancels whatever is still on its way. `Stream.Sound` is what holds as long as it does so
only when nothing is (`Sound.step`): each byte is in a frame, in flight or unread, in the order in
which it was written, and the exit is reported after the last frame. The sizes of the frames need no
condition (`Bounded.step`).
-/

namespace Goble.Goblin

/-! ### Where the bytes are -/

def Child.hasExited : Child → Bool
  | .running => false
  | .exited _ => true

def Reader.held : Reader → List Bytes
  | .sending chunk => [chunk]
  | _ => []

/-- What the output task has received. -/
def Output.held : Output → List Bytes
  | .joining batch => [batch]
  | .emitting batch pending => batch :: pending.toList
  | _ => []

def Waiter.isReported : Waiter → Bool
  | .reported _ => true
  | _ => false

def Waiter.hasCancelled : Waiter → Bool
  | .waiting | .reaped _ => false
  | _ => true

/-- The exit code the waiter goes about with. -/
def Waiter.code : Waiter → Option (Option Int32)
  | .waiting => none
  | .reaped code | .cancelled code | .forgotten code | .reported code => some code

def Waiter.report : Waiter → List Event
  | .reported code => [.exit code]
  | _ => []

def Event.bytes : Event → Bytes
  | .output data => (Base64.decode data).getD []
  | .exit _ => []

def decoded (events : List Event) : Bytes := events.flatMap Event.bytes

theorem decoded_append (events more : List Event) :
    decoded (events ++ more) = decoded events ++ decoded more := List.flatMap_append

theorem decoded_output (batch : Bytes) : decoded [.output (Base64.encode batch)] = batch := by
  simp only [decoded, List.flatMap_singleton, Event.bytes, Base64.decode_encode, Option.getD_some]

namespace Stream

variable {out : List Event} {s s' : Stream} {task : Task}

theorem waiterStep_cases (hstep : s.waiterStep task = some (s', out)) :
    (∃ waiter cancel, s' = { s with waiter, cancel }) ∧ (out = [] ∨ ∃ code, out = [.exit code]) ∧
      s.waiter.isReported = false := by
  cases task with
  | waiterReaps =>
    simp only [Stream.waiterStep] at hstep
    split at hstep
    · next code hwaiting _ =>
      obtain ⟨rfl, rfl⟩ := Prod.mk.inj (Option.some.inj hstep)
      exact ⟨⟨_, _, rfl⟩, .inl rfl, by rw [hwaiting]; rfl⟩
    · cases hstep
  | waiterCancels =>
    simp only [Stream.waiterStep] at hstep
    split at hstep
    · next code hreaped =>
      obtain ⟨rfl, rfl⟩ := Prod.mk.inj (Option.some.inj hstep)
      exact ⟨⟨_, _, rfl⟩, .inl rfl, by rw [hreaped]; rfl⟩
    · cases hstep
  | waiterForgets =>
    simp only [Stream.waiterStep] at hstep
    split at hstep
    · next code hcancelled =>
      obtain ⟨rfl, rfl⟩ := Prod.mk.inj (Option.some.inj hstep)
      exact ⟨⟨_, _, rfl⟩, .inl rfl, by rw [hcancelled]; rfl⟩
    · cases hstep
  | waiterReports =>
    simp only [Stream.waiterStep] at hstep
    split at hstep
    · next code hforgotten =>
      obtain ⟨rfl, rfl⟩ := Prod.mk.inj (Option.some.inj hstep)
      exact ⟨⟨_, _, rfl⟩, .inr ⟨code, rfl⟩, by rw [hforgotten]; rfl⟩
    · cases hstep
  | _ => cases hstep

def inFlight (s : Stream) : List Bytes := s.output.held ++ s.queue ++ s.reader.held

/-- All that the child wrote is in frames. -/
def Drained (s : Stream) : Prop := s.inFlight = [] ∧ s.unread = []

instance (s : Stream) : Decidable s.Drained := inferInstanceAs (Decidable (_ ∧ _))

structure Sound (s : Stream) (sent : List Event) : Prop where
  flow : s.wrote = decoded sent ++ s.inFlight.flatten ++ s.unread
  readerEnded : s.reader = .ended → s.child.hasExited ∧ s.unread = []
  stopped : s.cancel ∨ s.output = .ended → s.child.hasExited ∧ s.Drained
  reaped : ∀ code, s.waiter.code = some code → s.child = .exited code
  cancelled : s.waiter.hasCancelled → s.cancel
  ordered : ∃ frames : List String, sent = frames.map .output ++ s.waiter.report

theorem Sound.init : Sound .init [] where
  flow := rfl
  readerEnded := nofun
  stopped := by
    rintro (h | h)
    · cases h
    · cases h
  reaped := nofun
  cancelled := nofun
  ordered := ⟨[], rfl⟩

def Patient (s : Stream) (task : Task) : Prop := task = .waiterCancels → s.Drained

instance (s : Stream) (task : Task) : Decidable (s.Patient task) :=
  inferInstanceAs (Decidable (_ → _))

variable {sent : List Event}

theorem Sound.decoded_of_drained (h : Sound s sent) (hdrained : s.Drained) :
    decoded sent = s.wrote := by
  rw [h.flow, hdrained.1, hdrained.2, List.flatten_nil, List.append_nil, List.append_nil]

theorem Sound.move (h : Sound s sent) (hwrote : s'.wrote = s.wrote) (hchild : s'.child = s.child)
    (hcancel : s'.cancel = s.cancel) (hwaiter : s'.waiter = s.waiter)
    (hflow : s'.inFlight.flatten ++ s'.unread = s.inFlight.flatten ++ s.unread)
    (hreader : s'.reader = .ended → s.child.hasExited ∧ s'.unread = [])
    (hstopped : s.cancel ∨ s'.output = .ended → s.child.hasExited ∧ s'.Drained) :
    Sound s' sent where
  flow := by rw [hwrote, List.append_assoc, hflow, ← List.append_assoc, h.flow]
  readerEnded := by rwa [hchild]
  stopped := by rwa [hchild, hcancel]
  reaped := by
    rw [hchild, hwaiter]
    exact h.reaped
  cancelled := by
    rw [hcancel, hwaiter]
    exact h.cancelled
  ordered := by
    rw [hwaiter]
    exact h.ordered

theorem Sound.childStep {writes : Bytes} {child : Child} (h : Sound s sent)
    (hstep : s.childStep writes child = some (s', out)) :
    Sound s' (sent ++ out) := by
  obtain ⟨hrunning, rfl, rfl⟩ := childStep_cases hstep
  have hnot : ¬ s.child.hasExited := by
    rw [hrunning]
    exact Bool.false_ne_true
  rw [List.append_nil]
  refine ⟨?_, fun hended => ?_, fun hstopped => ?_, fun code hcode => ?_, h.cancelled, h.ordered⟩
  · rw [h.flow]
    exact List.append_assoc ..
  · exact absurd (h.readerEnded hended).1 hnot
  · exact absurd (h.stopped hstopped).1 hnot
  · rw [h.reaped code hcode] at hrunning
    cases hrunning

theorem Sound.readerReads {count : Nat} (h : Sound s sent)
    (hstep : s.readerReads count = some (s', out)) :
    Sound s' (sent ++ out) := by
  obtain ⟨hreading, hpos, -, hcount, rfl, rfl⟩ := readerReads_cases hstep
  rw [List.append_nil]
  refine h.move rfl rfl rfl rfl ?_ nofun fun hstopped => ?_
  · simp only [inFlight, hreading, Reader.held, List.append_nil, List.flatten_append,
      List.flatten_singleton, List.append_assoc, List.take_append_drop]
  · have hunread := (h.stopped hstopped).2.2
    rw [hunread, List.length_nil] at hcount
    omega

theorem Sound.readerEnds (h : Sound s sent) (hstep : s.readerEnds = some (s', out)) :
    Sound s' (sent ++ out) := by
  obtain ⟨hreading, ⟨code, hexited⟩, hunread, rfl, rfl⟩ := readerEnds_cases hstep
  rw [List.append_nil]
  have hinFlight : { s with reader := .ended }.inFlight = s.inFlight := by
    simp only [inFlight, hreading, Reader.held]
  refine h.move rfl rfl rfl rfl (by rw [hinFlight]) (fun _ => ?_) fun hstopped => ?_
  · exact ⟨by rw [hexited]; rfl, hunread⟩
  · obtain ⟨hgone, hdrained⟩ := h.stopped hstopped
    exact ⟨hgone, hinFlight.trans hdrained.1, hunread⟩

theorem Sound.readerSends (h : Sound s sent) (hstep : s.readerSends = some (s', out)) :
    Sound s' (sent ++ out) := by
  obtain ⟨chunk, hsending, rfl, hcases⟩ := readerSends_cases hstep
  -- A chunk is in flight, so that nothing has stopped.
  have hflows : ¬ (s.cancel ∨ s.output = .ended) := by
    intro hstopped
    have hinFlight := (h.stopped hstopped).2.1
    simp [inFlight, hsending, Reader.held] at hinFlight
  rw [List.append_nil]
  rcases hcases with ⟨hended, -⟩ | ⟨-, rfl⟩
  · exact absurd (.inr hended) hflows
  · refine h.move rfl rfl rfl rfl ?_ nofun fun hstopped => absurd hstopped hflows
    simp only [inFlight, hsending, Reader.held, List.append_nil, List.append_assoc]

theorem Sound.outputSelects (h : Sound s sent) (hstep : s.outputSelects = some (s', out)) :
    Sound s' (sent ++ out) := by
  obtain ⟨hselect, rfl, rfl⟩ := outputSelects_cases hstep
  rw [List.append_nil]
  have hheld : (if s.cancel then Output.ended else .receive).held = s.output.held := by
    rw [hselect]
    split <;> rfl
  have hinFlight : { s with output := if s.cancel then .ended else .receive }.inFlight =
      s.inFlight := by
    simp only [inFlight, hheld]
  refine h.move rfl rfl rfl rfl (by rw [hinFlight]) h.readerEnded fun hstopped => ?_
  have hcancel : s.cancel = true := by
    rcases hstopped with hcancel | hended
    · exact hcancel
    · by_contra hnot
      rw [if_neg hnot] at hended
      cases hended
  obtain ⟨hgone, hdrained⟩ := h.stopped (.inl hcancel)
  exact ⟨hgone, hinFlight.trans hdrained.1, hdrained.2⟩

variable {output : Output}

theorem Sound.outputMoves (h : Sound s sent) (hbusy : s.inFlight ≠ []) {queue : List Bytes}
    (hflow : output.held.flatten ++ queue.flatten = s.output.held.flatten ++ s.queue.flatten)
    (hgoesOn : output ≠ .ended) : Sound { s with queue, output } sent := by
  refine h.move rfl rfl rfl rfl ?_ h.readerEnded fun hstopped => ?_
  · simp only [inFlight, List.flatten_append, hflow]
  · have hcancel := hstopped.resolve_right hgoesOn
    exact absurd (h.stopped (.inl hcancel)).2.1 hbusy

theorem Sound.outputReceives (h : Sound s sent) (hstep : s.outputReceives = some (s', out)) :
    Sound s' (sent ++ out) := by
  obtain ⟨hreceive, rfl, ⟨chunk, queue, hqueue, rfl⟩ | ⟨hqueue, rfl⟩⟩ :=
    outputReceives_cases hstep <;> rw [List.append_nil]
  · refine h.outputMoves ?_ ?_ nofun
    · simp [inFlight, hqueue]
    · simp only [hreceive, hqueue, Output.held, List.flatten_cons, List.flatten_nil,
        List.append_nil, List.nil_append]
  · have hheld : (if s.reader = .ended then Output.ended else .select).held = s.output.held := by
      rw [hreceive]
      split <;> rfl
    have hinFlight : { s with
        output := if s.reader = Reader.ended then .ended else .select }.inFlight = s.inFlight := by
      simp only [inFlight, hheld]
    refine h.move rfl rfl rfl rfl (by rw [hinFlight]) h.readerEnded ?_
    rintro (hcancel | hended)
    · obtain ⟨hgone, hdrained⟩ := h.stopped (.inl hcancel)
      exact ⟨hgone, hinFlight.trans hdrained.1, hdrained.2⟩
    · have hreader : s.reader = .ended := by
        by_contra hnot
        rw [if_neg hnot] at hended
        cases hended
      obtain ⟨hgone, hunread⟩ := h.readerEnded hreader
      refine ⟨hgone, hinFlight.trans ?_, hunread⟩
      rw [inFlight, hreceive, hqueue, hreader]
      rfl

theorem Sound.outputJoins (h : Sound s sent) (hstep : s.outputJoins = some (s', out)) :
    Sound s' (sent ++ out) := by
  obtain ⟨batch, hjoining, rfl, hcases⟩ := outputJoins_cases hstep
  have hbusy : s.inFlight ≠ [] := by simp [inFlight, hjoining, Output.held]
  rw [List.append_nil]
  rcases hcases with rfl | ⟨next, queue, hqueue, -, ⟨-, rfl⟩ | ⟨room, -, rfl⟩⟩
  · exact h.outputMoves hbusy (by rw [hjoining]; rfl) nofun
  · refine h.outputMoves hbusy ?_ nofun
    simp only [hjoining, hqueue, Output.held, List.flatten_cons, List.flatten_nil,
      List.append_nil, List.append_assoc]
  · refine h.outputMoves hbusy ?_ nofun
    -- The two halves of the chunk stay next to each other.
    simp only [hjoining, hqueue, Output.held, Option.toList_some, List.flatten_cons,
      List.flatten_nil, List.append_nil, List.append_assoc]
    rw [← List.append_assoc (next.take _), List.take_append_drop]

theorem Sound.report_eq_nil (h : Sound s sent) (hbusy : s.inFlight ≠ []) :
    s.waiter.report = [] := by
  cases hwaiter : s.waiter with
  | reported code =>
    have hcancel := h.cancelled (by rw [hwaiter]; rfl)
    exact absurd (h.stopped (.inl hcancel)).2.1 hbusy
  | _ => rfl

theorem Sound.emits {batch : Bytes} {held : List Bytes} (h : Sound s sent)
    (hheld : s.output.held = batch :: held) (houtput : output.held = held)
    (hgoesOn : output ≠ .ended) :
    Sound { s with output } (sent ++ [.output (Base64.encode batch)]) := by
  have hbusy : s.inFlight ≠ [] := by simp [inFlight, hheld]
  refine ⟨?_, h.readerEnded, fun hstopped => ?_, h.reaped, h.cancelled, ?_⟩
  · rw [decoded_append, decoded_output, h.flow]
    simp only [inFlight, hheld, houtput, List.cons_append, List.flatten_cons, List.append_assoc]
  · have hcancel := hstopped.resolve_right hgoesOn
    exact absurd (h.stopped (.inl hcancel)).2.1 hbusy
  · obtain ⟨frames, hframes⟩ := h.ordered
    refine ⟨frames ++ [Base64.encode batch], ?_⟩
    have hreport := h.report_eq_nil hbusy
    rw [hframes, hreport, List.append_nil, List.append_nil, List.map_append]
    rfl

theorem Sound.outputEmits (h : Sound s sent) (hstep : s.outputEmits = some (s', out)) :
    Sound s' (sent ++ out) := by
  obtain ⟨batch, pending, hemitting, rfl, rfl⟩ := outputEmits_cases hstep
  have hheld : s.output.held = batch :: pending.toList := by
    rw [hemitting]
    rfl
  cases pending with
  | none => exact h.emits hheld rfl nofun
  | some pending => exact h.emits hheld rfl nofun

theorem Sound.waiterStep (h : Sound s sent) (hpatient : s.Patient task)
    (hstep : s.waiterStep task = some (s', out)) :
    Sound s' (sent ++ out) := by
  have hordered : s.waiter.report = [] → ∃ frames : List String, sent = frames.map .output := by
    intro hreport
    obtain ⟨frames, hframes⟩ := h.ordered
    exact ⟨frames, by rw [hframes, hreport, List.append_nil]⟩
  cases task with
  | waiterReaps =>
    simp only [Stream.waiterStep] at hstep
    split at hstep
    · next code hwaiting hexited =>
      obtain ⟨rfl, rfl⟩ := Prod.mk.inj (Option.some.inj hstep)
      obtain ⟨frames, hframes⟩ := hordered (by rw [hwaiting]; rfl)
      refine ⟨by rw [List.append_nil]; exact h.flow, h.readerEnded, h.stopped, ?_, nofun,
        ⟨frames, by rw [hframes]; rfl⟩⟩
      intro other hother
      rw [← Option.some.inj hother]
      exact hexited
    · cases hstep
  | waiterCancels =>
    simp only [Stream.waiterStep] at hstep
    split at hstep
    · next code hreaped =>
      obtain ⟨rfl, rfl⟩ := Prod.mk.inj (Option.some.inj hstep)
      obtain ⟨frames, hframes⟩ := hordered (by rw [hreaped]; rfl)
      have hexited := h.reaped code (by rw [hreaped]; rfl)
      refine ⟨by rw [List.append_nil]; exact h.flow, h.readerEnded, fun _ => ?_, ?_, fun _ => rfl,
        ⟨frames, by rw [hframes]; rfl⟩⟩
      · exact ⟨by rw [hexited]; rfl, hpatient rfl⟩
      · intro other hother
        rw [← Option.some.inj hother]
        exact hexited
    · cases hstep
  | waiterForgets =>
    simp only [Stream.waiterStep] at hstep
    split at hstep
    · next code hcancelled =>
      obtain ⟨rfl, rfl⟩ := Prod.mk.inj (Option.some.inj hstep)
      obtain ⟨frames, hframes⟩ := hordered (by rw [hcancelled]; rfl)
      have hreaped := h.reaped
      have hcancel := h.cancelled
      rw [hcancelled] at hreaped hcancel
      exact ⟨by rw [List.append_nil]; exact h.flow, h.readerEnded, h.stopped, hreaped, hcancel,
        ⟨frames, by rw [hframes]; rfl⟩⟩
    · cases hstep
  | waiterReports =>
    simp only [Stream.waiterStep] at hstep
    split at hstep
    · next code hforgotten =>
      obtain ⟨rfl, rfl⟩ := Prod.mk.inj (Option.some.inj hstep)
      obtain ⟨frames, hframes⟩ := hordered (by rw [hforgotten]; rfl)
      have hreaped := h.reaped
      have hcancel := h.cancelled
      rw [hforgotten] at hreaped hcancel
      refine ⟨?_, h.readerEnded, h.stopped, hreaped, hcancel, ⟨frames, by rw [hframes]; rfl⟩⟩
      rw [decoded_append, h.flow]
      exact (congrArg (· ++ _ ++ _) (List.append_nil _)).symm
    · cases hstep
  | _ => cases hstep

theorem Sound.step (h : Sound s sent) (hpatient : s.Patient task)
    (hstep : s.step task = some (s', out)) :
    Sound s' (sent ++ out) := by
  cases task with
  | childWrites bytes => exact h.childStep hstep
  | childExits code => exact h.childStep hstep
  | readerReads count => exact h.readerReads hstep
  | readerEnds => exact h.readerEnds hstep
  | readerSends => exact h.readerSends hstep
  | outputSelects => exact h.outputSelects hstep
  | outputReceives => exact h.outputReceives hstep
  | outputJoins => exact h.outputJoins hstep
  | outputEmits => exact h.outputEmits hstep
  | waiterReaps => exact h.waiterStep hpatient hstep
  | waiterCancels => exact h.waiterStep hpatient hstep
  | waiterForgets => exact h.waiterStep hpatient hstep
  | waiterReports => exact h.waiterStep hpatient hstep

/-! ### The sizes of the frames -/

def frameBound : Nat := max maxOutputEvent readChunk

structure Bounded (s : Stream) (sent : List Event) : Prop where
  queue : ∀ chunk ∈ s.queue, chunk.length ≤ readChunk
  reader : ∀ chunk ∈ s.reader.held, chunk.length ≤ readChunk
  output : ∀ batch ∈ s.output.held, batch.length ≤ frameBound
  frames : ∀ event ∈ sent, event.bytes.length ≤ frameBound

theorem Bounded.init : Bounded .init [] where
  queue := nofun
  reader := nofun
  output := nofun
  frames := nofun

theorem Bounded.readerReads {count : Nat} (h : Bounded s sent)
    (hstep : s.readerReads count = some (s', out)) :
    Bounded s' (sent ++ out) := by
  obtain ⟨-, -, hcount, -, rfl, rfl⟩ := readerReads_cases hstep
  rw [List.append_nil]
  refine ⟨h.queue, fun chunk hchunk => ?_, h.output, h.frames⟩
  rw [List.mem_singleton.mp hchunk, List.length_take]
  omega

theorem Bounded.readerEnds (h : Bounded s sent) (hstep : s.readerEnds = some (s', out)) :
    Bounded s' (sent ++ out) := by
  obtain ⟨-, -, -, rfl, rfl⟩ := readerEnds_cases hstep
  rw [List.append_nil]
  exact ⟨h.queue, nofun, h.output, h.frames⟩

theorem Bounded.readerSends (h : Bounded s sent) (hstep : s.readerSends = some (s', out)) :
    Bounded s' (sent ++ out) := by
  obtain ⟨chunk, hsending, rfl, hcases⟩ := readerSends_cases hstep
  rw [List.append_nil]
  rcases hcases with ⟨-, rfl⟩ | ⟨-, rfl⟩
  · exact ⟨h.queue, nofun, h.output, h.frames⟩
  · refine ⟨fun other hother => ?_, nofun, h.output, h.frames⟩
    rcases List.mem_append.mp hother with hother | hother
    · exact h.queue other hother
    · rw [List.mem_singleton.mp hother]
      exact h.reader chunk (by rw [hsending]; exact List.mem_singleton_self chunk)

theorem Bounded.outputMoves (h : Bounded s sent) {queue : List Bytes} (hqueue : queue ⊆ s.queue)
    (houtput : ∀ batch ∈ output.held, batch.length ≤ frameBound) :
    Bounded { s with queue, output } sent where
  queue := fun chunk hchunk => h.queue chunk (hqueue hchunk)
  reader := h.reader
  output := houtput
  frames := h.frames

theorem Bounded.emits (h : Bounded s sent) {batch : Bytes} (hbatch : batch ∈ s.output.held)
    (houtput : output.held ⊆ s.output.held) :
    Bounded { s with output } (sent ++ [.output (Base64.encode batch)]) where
  queue := h.queue
  reader := h.reader
  output := fun other hother => h.output other (houtput hother)
  frames := by
    intro event hevent
    rcases List.mem_append.mp hevent with hevent | hevent
    · exact h.frames event hevent
    · rw [List.mem_singleton.mp hevent, Event.bytes, Base64.decode_encode, Option.getD_some]
      exact h.output batch hbatch

theorem Bounded.outputSelects (h : Bounded s sent) (hstep : s.outputSelects = some (s', out)) :
    Bounded s' (sent ++ out) := by
  obtain ⟨-, rfl, rfl⟩ := outputSelects_cases hstep
  rw [List.append_nil]
  refine h.outputMoves (List.Subset.refl _) ?_
  split <;> exact nofun

theorem Bounded.outputReceives (h : Bounded s sent) (hstep : s.outputReceives = some (s', out)) :
    Bounded s' (sent ++ out) := by
  obtain ⟨-, rfl, ⟨chunk, queue, hqueue, rfl⟩ | ⟨-, rfl⟩⟩ := outputReceives_cases hstep <;>
    rw [List.append_nil]
  · refine h.outputMoves (hqueue ▸ List.subset_cons_self chunk queue) fun batch hbatch => ?_
    rw [List.mem_singleton.mp hbatch]
    have hchunk := h.queue chunk (hqueue ▸ List.mem_cons_self)
    exact Nat.le_trans hchunk (Nat.le_max_right ..)
  · refine h.outputMoves (List.Subset.refl _) ?_
    split <;> exact nofun

theorem Bounded.outputJoins (h : Bounded s sent) (hstep : s.outputJoins = some (s', out)) :
    Bounded s' (sent ++ out) := by
  obtain ⟨batch, hjoining, rfl, hcases⟩ := outputJoins_cases hstep
  have hmax : maxOutputEvent ≤ frameBound := Nat.le_max_left ..
  have hread : readChunk ≤ frameBound := Nat.le_max_right ..
  rw [List.append_nil]
  rcases hcases with rfl | ⟨next, queue, hqueue, -, hjoined⟩
  · refine h.outputMoves (List.Subset.refl _) fun other hother => ?_
    rw [List.mem_singleton.mp hother]
    exact h.output batch (by rw [hjoining]; exact List.mem_singleton_self batch)
  · have hsubset : queue ⊆ s.queue := hqueue ▸ List.subset_cons_self next queue
    rcases hjoined with ⟨hroom, rfl⟩ | ⟨room, hroom, rfl⟩
    · refine h.outputMoves hsubset fun other hother => ?_
      rw [List.mem_singleton.mp hother, List.length_append]
      omega
    · have hnext := h.queue next (hqueue ▸ List.mem_cons_self)
      refine h.outputMoves hsubset fun other hother => ?_
      rcases List.mem_cons.mp hother with rfl | hpending
      · rw [List.length_append, List.length_take]
        omega
      · rw [List.mem_singleton.mp hpending, List.length_drop]
        omega

theorem Bounded.outputEmits (h : Bounded s sent) (hstep : s.outputEmits = some (s', out)) :
    Bounded s' (sent ++ out) := by
  obtain ⟨batch, pending, hemitting, rfl, rfl⟩ := outputEmits_cases hstep
  have hheld : s.output.held = batch :: pending.toList := by
    rw [hemitting]
    rfl
  refine h.emits (hheld ▸ List.mem_cons_self) ?_
  rw [hheld]
  cases pending with
  | none => exact List.nil_subset _
  | some pending => exact List.subset_cons_self batch [pending]

/-- **Every frame is bounded**, whatever the waiter does. -/
theorem Bounded.step (h : Bounded s sent) (hstep : s.step task = some (s', out)) :
    Bounded s' (sent ++ out) := by
  have hchild : ∀ {writes child}, s.childStep writes child = some (s', out) →
      Bounded s' (sent ++ out) := by
    intro writes child hstep
    obtain ⟨-, rfl, rfl⟩ := childStep_cases hstep
    rw [List.append_nil]
    exact ⟨h.queue, h.reader, h.output, h.frames⟩
  have hwaiter : s.waiterStep task = some (s', out) → Bounded s' (sent ++ out) := by
    intro hstep
    obtain ⟨⟨waiter, cancel, rfl⟩, hout, -⟩ := waiterStep_cases hstep
    refine ⟨h.queue, h.reader, h.output, fun event hevent => ?_⟩
    rcases List.mem_append.mp hevent with hevent | hevent
    · exact h.frames event hevent
    · rcases hout with rfl | ⟨code, rfl⟩
      · cases hevent
      · rw [List.mem_singleton.mp hevent]
        exact Nat.zero_le _
  cases task with
  | childWrites bytes => exact hchild hstep
  | childExits code => exact hchild hstep
  | readerReads count => exact h.readerReads hstep
  | readerEnds => exact h.readerEnds hstep
  | readerSends => exact h.readerSends hstep
  | outputSelects => exact h.outputSelects hstep
  | outputReceives => exact h.outputReceives hstep
  | outputJoins => exact h.outputJoins hstep
  | outputEmits => exact h.outputEmits hstep
  | waiterReaps => exact hwaiter hstep
  | waiterCancels => exact hwaiter hstep
  | waiterForgets => exact hwaiter hstep
  | waiterReports => exact hwaiter hstep

/-! ### A stream that is over -/

/-- Neither the output task nor the waiter has anything left to say. -/
def Ended (s : Stream) : Prop := s.output = .ended ∧ s.waiter.isReported

instance (s : Stream) : Decidable s.Ended := inferInstanceAs (Decidable (_ ∧ _))

theorem Ended.step (h : s.Ended) (hstep : s.step task = some (s', out)) : s'.Ended ∧ out = [] := by
  obtain ⟨houtput, hwaiter⟩ := h
  have hchild : ∀ {writes child}, s.childStep writes child = some (s', out) →
      s'.Ended ∧ out = [] := by
    intro writes child hstep
    obtain ⟨-, rfl, rfl⟩ := childStep_cases hstep
    exact ⟨⟨houtput, hwaiter⟩, rfl⟩
  have hsilent : ¬ s.waiterStep task = some (s', out) := by
    intro hstep
    have hnot := (waiterStep_cases hstep).2.2
    rw [hwaiter] at hnot
    cases hnot
  cases task with
  | childWrites bytes => exact hchild hstep
  | childExits code => exact hchild hstep
  | readerReads count =>
    obtain ⟨-, -, -, -, rfl, rfl⟩ := readerReads_cases hstep
    exact ⟨⟨houtput, hwaiter⟩, rfl⟩
  | readerEnds =>
    obtain ⟨-, -, -, rfl, rfl⟩ := readerEnds_cases hstep
    exact ⟨⟨houtput, hwaiter⟩, rfl⟩
  | readerSends =>
    obtain ⟨chunk, -, rfl, ⟨-, rfl⟩ | ⟨-, rfl⟩⟩ := readerSends_cases hstep
    · exact ⟨⟨houtput, hwaiter⟩, rfl⟩
    · exact ⟨⟨houtput, hwaiter⟩, rfl⟩
  | outputSelects =>
    have hselect := (outputSelects_cases hstep).1
    cases houtput.symm.trans hselect
  | outputReceives =>
    have hreceive := (outputReceives_cases hstep).1
    cases houtput.symm.trans hreceive
  | outputJoins =>
    obtain ⟨batch, hjoining, -⟩ := outputJoins_cases hstep
    cases houtput.symm.trans hjoining
  | outputEmits =>
    obtain ⟨batch, pending, hemitting, -⟩ := outputEmits_cases hstep
    cases houtput.symm.trans hemitting
  | waiterReaps => exact absurd hstep hsilent
  | waiterCancels => exact absurd hstep hsilent
  | waiterForgets => exact absurd hstep hsilent
  | waiterReports => exact absurd hstep hsilent

end Stream

end Goble.Goblin
