import Goble.Goblin.Flow
import Goble.Lib.Lists
import Goble.Lib.Machine
import Mathlib.Data.List.Pairwise

/-!
# The panes of a worker

The manager maps the id of a pane to its generation, and the tasks of every generation run on beside
the others. A close and the exit of the child take the id out of the map first, so that it can be
opened again while the tasks of the old pane still have something to say; what they say names only
the id.

* `State.Faithful` — the frames of a pane that is left alone carry all that its child wrote, and end
  before its exit is reported; nothing of a generation is shown after a later one of its id is open;
* `faithful_of_careful` — a run of such steps is faithful.
-/

namespace Goble.Goblin

inductive WorkerMessage
  | ptyOpened (paneId : String)
  | ptyOutput (paneId data : String)
  | ptyExit (paneId : String) (code : Option Int32)
  | ptyError (paneId message : String)
deriving DecidableEq

/-- How far a close of the pane has come. -/
inductive Closing
  | live
  | removed
  /-- The stream is cancelled and the child killed. -/
  | killed
deriving DecidableEq

structure Pane where
  owner : String
  paneId : String
  stream : Stream
  closing : Closing
  /-- The caller of `spawn` has emitted what it returned. -/
  announced : Bool

/-- A message on the event channel, with the generation it is about, which the message does not
show. -/
structure Emission where
  generation : Option Nat
  message : WorkerMessage
deriving DecidableEq

/-- `all` are the panes there ever were, by generation. -/
structure State where
  panes : String → Option Nat
  all : List Pane
  emitted : List Emission

/-- `OpenPty` and `ClosePty`, the ends of connections, and the steps of the tasks. The errors of the
system are part of a label, as texts. -/
inductive Label
  | spawn (owner paneId : String) (cols rows : Nat) (cwdError spawnError : Option String)
  | announce (generation : Nat)
  | close (owner paneId : String)
  | closeOwned (owner : String)
  | closeAll
  | kill (generation : Nat) (killError : Option String)
  | task (generation : Nat) (task : Task)

def Event.message (paneId : String) : Event → WorkerMessage
  | .output data => .ptyOutput paneId data
  | .exit code => .ptyExit paneId code

namespace State

def ptyError (s : State) (paneId message : String) : State :=
  { s with emitted := s.emitted ++ [⟨none, .ptyError paneId message⟩] }

def spawn (s : State) (owner paneId : String) (cols rows : Nat)
    (cwdError spawnError : Option String) : State :=
  if cols = 0 ∨ rows = 0 then s.ptyError paneId "cols and rows must be greater than zero"
  else
    match cwdError with
    | some message => s.ptyError paneId message
    | none =>
      if (s.panes paneId).isSome then s.ptyError paneId "a pane with this id is already open"
      else
        match spawnError with
        | some message => s.ptyError paneId message
        | none =>
          { s with
            panes := Function.update s.panes paneId (some s.all.length)
            all := s.all ++ [⟨owner, paneId, .init, .live, false⟩] }

/-- The part of a close under the lock. -/
def closeWhere (s : State) (found : Pane → Bool) : State :=
  { s with
    panes := fun paneId => (s.panes paneId).filter fun generation =>
      !(s.all[generation]?.any found)
    all := s.all.mapIdx fun generation pane =>
      if s.panes pane.paneId = some generation ∧ found pane then { pane with closing := .removed }
      else pane }

def close (s : State) (owner paneId : String) : State :=
  if ((s.panes paneId).bind (s.all[·]?)).any (·.owner ≠ owner) then
    s.ptyError paneId "pane belongs to another connection"
  else s.closeWhere (·.paneId = paneId)

def kill (s : State) (generation : Nat) (killError : Option String) : Option State :=
  match s.all[generation]? with
  | none => none
  | some pane =>
    if pane.closing = .removed then
      some { s with
        all := s.all.set generation
          { pane with closing := .killed, stream := { pane.stream with cancel := true } }
        emitted := s.emitted ++ killError.toList.map fun message =>
          ⟨none, .ptyError pane.paneId message⟩ }
    else none

def announce (s : State) (generation : Nat) : Option State :=
  match s.all[generation]? with
  | none => none
  | some pane =>
    if pane.announced then none
    else
      some { s with
        all := s.all.set generation { pane with announced := true }
        emitted := s.emitted ++ [⟨some generation, .ptyOpened pane.paneId⟩] }

/-- The waiter takes the id out of the map, unless it is that of another generation by now. -/
def forget (s : State) (generation : Nat) (paneId : String) : String → Option Nat :=
  if s.panes paneId = some generation then Function.update s.panes paneId none else s.panes

def task (s : State) (generation : Nat) (task : Task) : Option State :=
  match s.all[generation]? with
  | none => none
  | some pane =>
    (pane.stream.step task).map fun (stream, events) =>
      { panes := if task = .waiterForgets then s.forget generation pane.paneId else s.panes
        all := s.all.set generation { pane with stream }
        emitted := s.emitted ++ events.map fun event =>
          ⟨some generation, event.message pane.paneId⟩ }

def step (s : State) : Label → Option State
  | .spawn owner paneId cols rows cwdError spawnError =>
    some (s.spawn owner paneId cols rows cwdError spawnError)
  | .announce generation => s.announce generation
  | .close owner paneId => some (s.close owner paneId)
  | .closeOwned owner => some (s.closeWhere (·.owner = owner))
  | .closeAll => some (s.closeWhere fun _ => true)
  | .kill generation killError => s.kill generation killError
  | .task generation task => s.task generation task

end State

/-- `PtyManager`, and the caller that emits what it returns. -/
def manager : Machine State Label where
  init := ⟨fun _ => none, [], []⟩
  step := State.step

/-! ### What is shown of a pane -/

def Emission.eventOf (generation : Nat) (emission : Emission) : Option Event :=
  if emission.generation = some generation then
    match emission.message with
    | .ptyOutput _ data => some (.output data)
    | .ptyExit _ code => some (.exit code)
    | _ => none
  else none

def eventsOf (generation : Nat) (emitted : List Emission) : List Event :=
  emitted.filterMap (Emission.eventOf generation)

/-- The second message is about an older generation of the id that the first one opens. -/
def Stale (opened later : Emission) : Prop :=
  ∃ paneId older newer, opened = ⟨some newer, .ptyOpened paneId⟩ ∧ older < newer ∧
    ((∃ data, later = ⟨some older, .ptyOutput paneId data⟩) ∨
      ∃ code, later = ⟨some older, .ptyExit paneId code⟩)

structure Complete (stream : Stream) (sent : List Event) : Prop where
  inOrder : decoded sent <+: stream.wrote
  exitLast : ∃ frames : List String, sent = frames.map .output ∨
    ∃ code, sent = frames.map .output ++ [.exit code] ∧ decoded sent = stream.wrote

structure State.Faithful (s : State) : Prop where
  complete : ∀ generation pane, s.all[generation]? = some pane → pane.closing = .live →
    Complete pane.stream (eventsOf generation s.emitted)
  bounded : ∀ generation, ∀ event ∈ eventsOf generation s.emitted,
    event.bytes.length ≤ max maxOutputEvent readChunk
  fresh : s.emitted.Pairwise fun earlier later => ¬ Stale earlier later

/-- The waiter of a pane that is left alone waits until the stream is drained, and an opening is
announced when the older generations of the id are over. -/
def Careful (s : State) : Label → Prop
  | .task generation task => ∀ pane ∈ s.all[generation]?, pane.closing = .live →
      pane.stream.Patient task
  | .announce generation => ∀ older < generation, ∀ before ∈ s.all[older]?,
      ∀ pane ∈ s.all[generation]?, before.paneId = pane.paneId → before.stream.Ended
  | _ => True

instance (s : State) : ∀ l, Decidable (Careful s l)
  | .task generation task => inferInstanceAs (Decidable (∀ pane ∈ s.all[generation]?,
      pane.closing = .live → pane.stream.Patient task))
  | .announce generation => inferInstanceAs (Decidable (∀ older < generation,
      ∀ before ∈ s.all[older]?, ∀ pane ∈ s.all[generation]?, before.paneId = pane.paneId →
        before.stream.Ended))
  | .spawn .. | .close .. | .closeOwned .. | .closeAll | .kill .. => isTrue trivial

/-! ### The invariant -/

theorem eventsOf_append (generation : Nat) (emitted more : List Emission) :
    eventsOf generation (emitted ++ more) =
      eventsOf generation emitted ++ eventsOf generation more := List.filterMap_append

theorem eventsOf_messages (generation other : Nat) (paneId : String) (events : List Event) :
    eventsOf other (events.map fun event => ⟨some generation, event.message paneId⟩) =
      if generation = other then events else [] := by
  unfold eventsOf
  rw [List.filterMap_map]
  split
  · next h =>
    conv_rhs => rw [← List.filterMap_some (l := events)]
    refine List.filterMap_congr fun event _ => ?_
    cases event <;> simp [Emission.eventOf, Event.message, h]
  · next h =>
    refine List.filterMap_eq_nil_iff.mpr fun event _ => ?_
    simp [Emission.eventOf, h]

structure Pane.Accounted (pane : Pane) (sent : List Event) : Prop where
  sound : pane.closing = .live → pane.stream.Sound sent
  bounded : pane.stream.Bounded sent

def State.Named (s : State) (emission : Emission) : Prop :=
  ∀ generation, emission.generation = some generation → ∃ pane, s.all[generation]? = some pane ∧
    ∀ paneId, (emission.message = .ptyOpened paneId → paneId = pane.paneId ∧ pane.announced) ∧
      ((∃ data, emission.message = .ptyOutput paneId data) → paneId = pane.paneId) ∧
      ((∃ code, emission.message = .ptyExit paneId code) → paneId = pane.paneId)

structure State.Inv (s : State) : Prop where
  accounted : ∀ generation (pane : Pane), s.all[generation]? = some pane →
    pane.Accounted (eventsOf generation s.emitted)
  named : ∀ emission ∈ s.emitted, s.Named emission
  superseded : ∀ (older newer : Nat) (before pane : Pane), older < newer →
    s.all[older]? = some before → s.all[newer]? = some pane → pane.announced →
    before.paneId = pane.paneId → before.stream.Ended
  fresh : s.emitted.Pairwise fun earlier later => ¬ Stale earlier later

theorem inv_init : State.Inv ⟨fun _ => none, [], []⟩ where
  accounted := by
    intro generation pane hpane
    rw [List.getElem?_nil] at hpane
    cases hpane
  named := fun _ hmem => absurd hmem List.not_mem_nil
  superseded := by
    intro older newer before pane _ hbefore
    rw [List.getElem?_nil] at hbefore
    cases hbefore
  fresh := .nil

structure Pane.Closes (pane pane' : Pane) : Prop where
  paneId : pane'.paneId = pane.paneId
  announced : pane'.announced = pane.announced
  stream : pane'.stream = pane.stream ∨ ∃ cancel, pane'.stream = { pane.stream with cancel }
  live : pane'.closing = .live → pane' = pane

theorem Pane.Closes.refl (pane : Pane) : pane.Closes pane := ⟨rfl, rfl, .inl rfl, fun _ => rfl⟩

theorem Pane.Closes.ended {pane pane' : Pane} (h : pane.Closes pane') (hended : pane.stream.Ended) :
    pane'.stream.Ended := by
  rcases h.stream with hstream | ⟨cancel, hstream⟩ <;> rw [hstream] <;> exact hended

theorem Pane.Closes.accounted {pane pane' : Pane} {sent : List Event} (h : pane.Closes pane')
    (haccounted : pane.Accounted sent) : pane'.Accounted sent where
  sound := by
    intro hlive
    obtain rfl := h.live hlive
    exact haccounted.sound hlive
  bounded := by
    have hbounded := haccounted.bounded
    rcases h.stream with hstream | ⟨cancel, hstream⟩ <;> rw [hstream]
    · exact hbounded
    · exact ⟨hbounded.queue, hbounded.reader, hbounded.output, hbounded.frames⟩

variable {s s' : State}

/-- A message stays true of panes that keep their ids and their announcements. -/
theorem State.Named.mono {emission : Emission} (h : s.Named emission)
    (hpanes : ∀ (generation : Nat) (pane : Pane), s.all[generation]? = some pane →
      ∃ pane' : Pane, s'.all[generation]? = some pane' ∧ pane'.paneId = pane.paneId ∧
        (pane.announced → pane'.announced)) : s'.Named emission := by
  intro generation hgeneration
  obtain ⟨pane, hpane, hnames⟩ := h generation hgeneration
  obtain ⟨pane', hpane', hpaneId, hannounced⟩ := hpanes generation pane hpane
  refine ⟨pane', hpane', fun paneId => ?_⟩
  rw [hpaneId]
  exact ⟨fun hopened => ⟨((hnames paneId).1 hopened).1, hannounced ((hnames paneId).1 hopened).2⟩,
    (hnames paneId).2⟩

variable {generation : Nat}

theorem eventsOf_errors {errors : List Emission}
    (h : ∀ emission ∈ errors, emission.generation = none) : eventsOf generation errors = [] := by
  refine List.filterMap_eq_nil_iff.mpr fun emission hemission => ?_
  rw [Emission.eventOf, h emission hemission]
  rfl

theorem fresh_errors {emitted errors : List Emission}
    (h : emitted.Pairwise fun earlier later => ¬ Stale earlier later)
    (herrors : ∀ emission ∈ errors, emission.generation = none) :
    (emitted ++ errors).Pairwise fun earlier later => ¬ Stale earlier later := by
  have hlater : ∀ later ∈ errors, ∀ earlier, ¬ Stale earlier later := by
    rintro later hmem earlier ⟨paneId, older, newer, -, -, ⟨data, rfl⟩ | ⟨code, rfl⟩⟩
    · cases herrors _ hmem
    · cases herrors _ hmem
  refine List.pairwise_append.mpr ⟨h, ?_, fun earlier _ later hmem => hlater later hmem earlier⟩
  exact List.Pairwise.imp_of_mem (fun _ hmem _ => hlater _ hmem _)
    (List.pairwise_of_forall fun _ _ => trivial)

/-- Closes, and messages about no generation, leave the account as it is. -/
theorem State.Inv.closes (h : s.Inv)
    (hall : ∀ generation : Nat, Option.Rel Pane.Closes s.all[generation]? s'.all[generation]?)
    {errors : List Emission} (hemitted : s'.emitted = s.emitted ++ errors)
    (herrors : ∀ emission ∈ errors, emission.generation = none) : s'.Inv := by
  have hbefore : ∀ (generation : Nat) (pane' : Pane), s'.all[generation]? = some pane' →
      ∃ pane : Pane, s.all[generation]? = some pane ∧ pane.Closes pane' := by
    intro generation pane' hpane'
    have hrel := hall generation
    rw [hpane'] at hrel
    generalize s.all[generation]? = found at hrel
    cases hrel with
    | some hcloses => exact ⟨_, rfl, hcloses⟩
  have hafter : ∀ (generation : Nat) (pane : Pane), s.all[generation]? = some pane →
      ∃ pane' : Pane, s'.all[generation]? = some pane' ∧ pane.Closes pane' := by
    intro generation pane hpane
    have hrel := hall generation
    rw [hpane] at hrel
    generalize s'.all[generation]? = found at hrel
    cases hrel with
    | some hcloses => exact ⟨_, rfl, hcloses⟩
  refine ⟨?_, ?_, ?_, ?_⟩
  · intro generation pane' hpane'
    obtain ⟨pane, hpane, hcloses⟩ := hbefore generation pane' hpane'
    rw [hemitted, eventsOf_append, eventsOf_errors herrors, List.append_nil]
    exact hcloses.accounted (h.accounted generation pane hpane)
  · intro emission hmem
    rw [hemitted] at hmem
    rcases List.mem_append.mp hmem with hmem | hmem
    · refine (h.named emission hmem).mono fun generation pane hpane => ?_
      obtain ⟨pane', hpane', hcloses⟩ := hafter generation pane hpane
      exact ⟨pane', hpane', hcloses.paneId, fun hannounced => by rwa [hcloses.announced]⟩
    · intro generation hgeneration
      cases (herrors emission hmem).symm.trans hgeneration
  · intro older newer before' pane' hlt hbefore' hpane' hannounced hpaneId
    obtain ⟨before, hfound, hcloses⟩ := hbefore older before' hbefore'
    obtain ⟨pane, hpane, hcloses'⟩ := hbefore newer pane' hpane'
    rw [hcloses.paneId, hcloses'.paneId] at hpaneId
    rw [hcloses'.announced] at hannounced
    exact hcloses.ended (h.superseded older newer before pane hlt hfound hpane hannounced hpaneId)
  · rw [hemitted]
    exact fresh_errors h.fresh herrors

theorem State.Inv.ptyError (h : s.Inv) (paneId message : String) :
    (s.ptyError paneId message).Inv := by
  refine h.closes (fun generation => ?_) rfl fun emission hmem => ?_
  · change Option.Rel Pane.Closes s.all[generation]? s.all[generation]?
    cases s.all[generation]? with
    | none => exact .none
    | some pane => exact .some (.refl pane)
  · rw [List.mem_singleton.mp hmem]

theorem State.Inv.eventsOf_eq_nil (h : s.Inv) (hnone : s.all[generation]? = none) :
    eventsOf generation s.emitted = [] := by
  refine List.filterMap_eq_nil_iff.mpr fun emission hmem => ?_
  have hne : emission.generation ≠ some generation := by
    intro hgeneration
    obtain ⟨pane, hpane, -⟩ := h.named emission hmem generation hgeneration
    cases hnone.symm.trans hpane
  rw [Emission.eventOf, if_neg hne]

theorem State.Inv.spawn (h : s.Inv) (owner paneId : String) (cols rows : Nat)
    (cwdError spawnError : Option String) :
    (s.spawn owner paneId cols rows cwdError spawnError).Inv := by
  unfold State.spawn
  split
  · exact h.ptyError ..
  split
  · exact h.ptyError ..
  split
  · exact h.ptyError ..
  split
  · exact h.ptyError ..
  have hall : ∀ {generation : Nat} {pane : Pane},
      (s.all ++ [⟨owner, paneId, .init, .live, false⟩])[generation]? = some pane →
        s.all[generation]? = some pane ∨
          generation = s.all.length ∧ ⟨owner, paneId, .init, .live, false⟩ = pane :=
    fun hpane => getElem?_concat_eq_some.mp hpane
  refine ⟨?_, ?_, ?_, h.fresh⟩
  · intro generation pane hpane
    rcases hall hpane with hpane | ⟨rfl, rfl⟩
    · exact h.accounted generation pane hpane
    · rw [h.eventsOf_eq_nil (List.getElem?_eq_none (Nat.le_refl _))]
      exact ⟨fun _ => .init, .init⟩
  · intro emission hmem
    refine (h.named emission hmem).mono fun generation pane hpane => ?_
    exact ⟨pane, getElem?_concat_eq_some.mpr (.inl hpane), rfl, id⟩
  · intro older newer before pane hlt hbefore hpane hannounced hpaneId
    rcases hall hpane with hpane | ⟨rfl, rfl⟩
    · have hlength := (List.getElem?_eq_some_iff.mp hpane).1
      rcases hall hbefore with hbefore | ⟨rfl, -⟩
      · exact h.superseded older newer before pane hlt hbefore hpane hannounced hpaneId
      · omega
    · cases hannounced

theorem State.Inv.closeWhere (h : s.Inv) (found : Pane → Bool) :
    (s.closeWhere found).Inv := by
  have hemitted : (s.closeWhere found).emitted = s.emitted ++ [] := (List.append_nil _).symm
  refine h.closes (fun generation => ?_) hemitted nofun
  change Option.Rel Pane.Closes s.all[generation]? (List.mapIdx _ s.all)[generation]?
  rw [List.getElem?_mapIdx]
  cases s.all[generation]? with
  | none => exact .none
  | some pane =>
    refine .some ?_
    dsimp only
    split
    · exact ⟨rfl, rfl, .inl rfl, nofun⟩
    · exact .refl pane

theorem State.Inv.close (h : s.Inv) (owner paneId : String) :
    (s.close owner paneId).Inv := by
  rw [State.close]
  split
  · exact h.ptyError ..
  · exact h.closeWhere _

theorem State.Inv.kill (h : s.Inv) {killError : Option String}
    (hstep : s.kill generation killError = some s') : s'.Inv := by
  rw [State.kill] at hstep
  split at hstep
  · cases hstep
  next pane hpane =>
  split at hstep
  · obtain rfl := Option.some.inj hstep
    refine h.closes (fun other => ?_) rfl fun emission hmem => ?_
    · by_cases hother : generation = other
      · subst hother
        have hlt := (List.getElem?_eq_some_iff.mp hpane).1
        rw [hpane, List.getElem?_set_self hlt]
        exact .some ⟨rfl, rfl, .inr ⟨true, rfl⟩, nofun⟩
      · rw [List.getElem?_set_ne hother]
        cases s.all[other]? with
        | none => exact .none
        | some pane => exact .some (.refl pane)
    · obtain ⟨message, -, rfl⟩ := List.mem_map.mp hmem
      rfl
  · cases hstep

theorem State.Inv.set (h : s.Inv) {pane : Pane} (pane' : Pane)
    (hpane : s.all[generation]? = some pane) (hpaneId : pane'.paneId = pane.paneId)
    (hkept : pane.announced → pane'.announced) {more : List Emission}
    (hmore : ∀ other, other ≠ generation → eventsOf other more = [])
    (haccounted : pane'.Accounted (eventsOf generation (s.emitted ++ more)))
    (hended : pane.stream.Ended → pane'.stream.Ended)
    (hannounced : pane'.announced → pane.announced ∨ ∀ older < generation, ∀ before : Pane,
      s.all[older]? = some before → before.paneId = pane.paneId → before.stream.Ended)
    (panes : String → Option Nat) (hnamed : ∀ emission ∈ more,
      State.Named ⟨panes, s.all.set generation pane', s.emitted ++ more⟩ emission)
    (hfresh : (s.emitted ++ more).Pairwise fun earlier later => ¬ Stale earlier later) :
    State.Inv ⟨panes, s.all.set generation pane', s.emitted ++ more⟩ := by
  have hself : (s.all.set generation pane')[generation]? = some pane' :=
    List.getElem?_set_self (List.getElem?_eq_some_iff.mp hpane).1
  have hother : ∀ other, other ≠ generation →
      (s.all.set generation pane')[other]? = s.all[other]? :=
    fun other hne => List.getElem?_set_ne hne.symm
  refine ⟨?_, ?_, ?_, hfresh⟩
  · intro other found hfound
    by_cases hne : other = generation
    · subst hne
      obtain rfl := Option.some.inj (hself.symm.trans hfound)
      exact haccounted
    · rw [eventsOf_append, hmore other hne, List.append_nil]
      exact h.accounted other found ((hother other hne).symm.trans hfound)
  · intro emission hmem
    rcases List.mem_append.mp hmem with hmem | hmem
    · refine (h.named emission hmem).mono fun other found hfound => ?_
      by_cases hne : other = generation
      · subst hne
        obtain rfl := Option.some.inj (hpane.symm.trans hfound)
        exact ⟨pane', hself, hpaneId, hkept⟩
      · exact ⟨found, (hother other hne).trans hfound, rfl, id⟩
    · exact hnamed emission hmem
  · intro older newer before found hlt hbefore hfound hfoundAnnounced hsame
    -- What is known of the pane that opened later, in terms of the state before.
    have hsuperseded : ∀ earlier : Pane, s.all[older]? = some earlier →
        earlier.paneId = before.paneId → earlier.stream.Ended := by
      intro earlier hearlier hearlierId
      by_cases hne : newer = generation
      · subst hne
        obtain rfl := Option.some.inj (hself.symm.trans hfound)
        rw [hpaneId] at hsame
        rcases hannounced hfoundAnnounced with hbeforehand | hguard
        · exact h.superseded older newer earlier pane hlt hearlier hpane hbeforehand
            (hearlierId.trans hsame)
        · exact hguard older hlt earlier hearlier (hearlierId.trans hsame)
      · have hfound' := (hother newer hne).symm.trans hfound
        exact h.superseded older newer earlier found hlt hearlier hfound' hfoundAnnounced
          (hearlierId.trans hsame)
    by_cases hne : older = generation
    · subst hne
      obtain rfl := Option.some.inj (hself.symm.trans hbefore)
      exact hended (hsuperseded pane hpane hpaneId.symm)
    · exact hsuperseded before ((hother older hne).symm.trans hbefore) rfl

theorem State.Inv.announce (h : s.Inv) (hcareful : Careful s (.announce generation))
    (hstep : s.announce generation = some s') :
    s'.Inv := by
  unfold State.announce at hstep
  split at hstep
  · cases hstep
  next pane hpane =>
  split at hstep
  · cases hstep
  obtain rfl := Option.some.inj hstep
  have hsilent : ∀ other, eventsOf other [⟨some generation, .ptyOpened pane.paneId⟩] = [] := by
    intro other
    unfold eventsOf Emission.eventOf
    by_cases hother : generation = other <;> simp [hother]
  refine h.set { pane with announced := true } hpane rfl (fun _ => rfl)
    (fun other _ => hsilent other) ?_ id ?_ _ ?_ ?_
  · rw [eventsOf_append, hsilent, List.append_nil]
    have haccounted := h.accounted generation pane hpane
    exact ⟨haccounted.sound, haccounted.bounded⟩
  · exact fun _ => .inr fun older hlt before hbefore hsame =>
      hcareful older hlt before hbefore pane hpane hsame
  · intro emission hmem other hother
    obtain rfl := List.mem_singleton.mp hmem
    obtain rfl := Option.some.inj hother
    have hlt := (List.getElem?_eq_some_iff.mp hpane).1
    refine ⟨_, List.getElem?_set_self hlt, fun paneId => ⟨fun hopened => ?_, nofun, nofun⟩⟩
    exact ⟨(WorkerMessage.ptyOpened.inj hopened).symm, rfl⟩
  · refine List.pairwise_append.mpr ⟨h.fresh, List.pairwise_singleton _ _, ?_⟩
    rintro earlier - later hmem ⟨paneId, older, newer, -, -, ⟨data, rfl⟩ | ⟨code, rfl⟩⟩
    · cases List.mem_singleton.mp hmem
    · cases List.mem_singleton.mp hmem

theorem State.Inv.task (h : s.Inv) {task : Task} (hcareful : Careful s (.task generation task))
    (hstep : s.task generation task = some s') :
    s'.Inv := by
  unfold State.task at hstep
  split at hstep
  · cases hstep
  next pane hpane =>
  obtain ⟨⟨stream, events⟩, hstream, rfl⟩ := Option.map_eq_some_iff.mp hstep
  have haccounted := h.accounted generation pane hpane
  refine h.set { pane with stream } hpane rfl id ?_ ?_ ?_ .inl _ ?_ ?_
  · intro other hother
    rw [eventsOf_messages, if_neg hother.symm]
  · rw [eventsOf_append, eventsOf_messages, if_pos rfl]
    refine ⟨fun hlive => ?_, haccounted.bounded.step hstream⟩
    exact (haccounted.sound hlive).step (hcareful pane hpane hlive) hstream
  · exact fun hended => (hended.step hstream).1
  · intro emission hmem other hother
    obtain ⟨event, -, rfl⟩ := List.mem_map.mp hmem
    obtain rfl := Option.some.inj hother
    have hlt := (List.getElem?_eq_some_iff.mp hpane).1
    refine ⟨_, List.getElem?_set_self hlt, fun paneId => ?_⟩
    cases event with
    | output data =>
      refine ⟨nofun, fun ⟨_, hmessage⟩ => ?_, nofun⟩
      exact (WorkerMessage.ptyOutput.inj hmessage).1.symm
    | exit code =>
      refine ⟨nofun, nofun, fun ⟨_, hmessage⟩ => ?_⟩
      exact (WorkerMessage.ptyExit.inj hmessage).1.symm
  · refine List.pairwise_append.mpr ⟨h.fresh, ?_, ?_⟩
    · refine List.pairwise_map.mpr (List.pairwise_of_forall fun first second => ?_)
      rintro ⟨paneId, older, newer, hopened, -⟩
      cases first <;> cases congrArg Emission.message hopened
    · rintro earlier hearlier later hmem ⟨paneId, older, newer, rfl, hlt, hlater⟩
      obtain ⟨event, hevent, rfl⟩ := List.mem_map.mp hmem
      -- The later pane was announced, so that this one is over and has nothing to say.
      obtain ⟨opened, hopened, hnames⟩ := h.named _ hearlier newer rfl
      obtain ⟨hpaneId, hannounced⟩ := (hnames paneId).1 rfl
      have hsame : older = generation ∧ paneId = pane.paneId := by
        rcases hlater with ⟨data, hlater⟩ | ⟨code, hlater⟩
        · cases event with
          | output _ =>
            obtain ⟨hgeneration, hmessage⟩ := Emission.mk.inj hlater
            have hpaneId := (WorkerMessage.ptyOutput.inj hmessage).1
            exact ⟨(Option.some.inj hgeneration).symm, hpaneId.symm⟩
          | exit _ => cases congrArg Emission.message hlater
        · cases event with
          | output _ => cases congrArg Emission.message hlater
          | exit _ =>
            obtain ⟨hgeneration, hmessage⟩ := Emission.mk.inj hlater
            have hpaneId := (WorkerMessage.ptyExit.inj hmessage).1
            exact ⟨(Option.some.inj hgeneration).symm, hpaneId.symm⟩
      obtain ⟨rfl, rfl⟩ := hsame
      have hended := h.superseded older newer pane opened hlt hpane hopened hannounced hpaneId
      rw [(hended.step hstream).2] at hevent
      cases hevent

theorem State.Inv.step {l : Label} (h : s.Inv) (hcareful : Careful s l)
    (hstep : manager.step s l = some s') : s'.Inv := by
  cases l with
  | spawn owner paneId cols rows cwdError spawnError =>
    obtain rfl := Option.some.inj hstep
    exact h.spawn ..
  | announce generation => exact h.announce hcareful hstep
  | close owner paneId =>
    obtain rfl := Option.some.inj hstep
    exact h.close ..
  | closeOwned owner =>
    obtain rfl := Option.some.inj hstep
    exact h.closeWhere _
  | closeAll =>
    obtain rfl := Option.some.inj hstep
    exact h.closeWhere _
  | kill generation killError => exact h.kill hstep
  | task generation task => exact h.task hcareful hstep

theorem Stream.Sound.complete {stream : Stream} {sent : List Event} (h : stream.Sound sent) :
    Complete stream sent where
  inOrder := by
    rw [h.flow, List.append_assoc]
    exact List.prefix_append ..
  exitLast := by
    obtain ⟨frames, hframes⟩ := h.ordered
    refine ⟨frames, ?_⟩
    cases hwaiter : stream.waiter with
    | reported code =>
      rw [hwaiter] at hframes
      have hcancel := h.cancelled (by rw [hwaiter]; rfl)
      exact .inr ⟨code, hframes, h.decoded_of_drained (h.stopped (.inl hcancel)).2⟩
    | _ =>
      rw [hwaiter] at hframes
      exact .inl (hframes.trans (List.append_nil _))

theorem State.Inv.faithful (h : s.Inv) : s.Faithful where
  complete := fun generation pane hpane hlive =>
    ((h.accounted generation pane hpane).sound hlive).complete
  bounded := by
    intro generation event hevent
    cases hpane : s.all[generation]? with
    | none =>
      rw [h.eventsOf_eq_nil hpane] at hevent
      cases hevent
    | some pane => exact (h.accounted generation pane hpane).bounded.frames event hevent
  fresh := h.fresh

/-- **The output of a worker's terminals.** What is shown is faithful, in whatever order the tasks
run, where the waiters cancel only drained streams and openings are announced only when the older
generations are over. -/
theorem faithful_of_careful (ls : List Label) (s : State)
    (hcareful : manager.Along Careful manager.init ls)
    (hrun : manager.exec manager.init ls = some s) : s.Faithful :=
  State.Inv.faithful (Machine.invariant (I := State.Inv) inv_init
    (fun _ _ _ h hcareful hstep => h.step hcareful hstep) hcareful hrun)

def patientRun : List Label :=
  [.spawn "conn" "pane" 80 24 none none, .announce 0, .task 0 (.childWrites [104, 105]),
    .task 0 (.readerReads 2), .task 0 .readerSends, .task 0 (.childExits (some 0)),
    .task 0 .outputSelects, .task 0 .outputReceives, .task 0 .outputJoins, .task 0 .outputEmits,
    .task 0 .waiterReaps, .task 0 .waiterCancels, .task 0 .waiterForgets, .task 0 .waiterReports,
    .task 0 .outputSelects, .spawn "conn" "pane" 80 24 none none, .announce 1]

theorem faithful_of_careful_patientRun :
    ∃ s, manager.exec manager.init patientRun = some s ∧ s.Faithful ∧
      s.emitted.map Emission.message = [.ptyOpened "pane", .ptyOutput "pane" "aGk=",
        .ptyExit "pane" (some 0), .ptyOpened "pane"] := by
  obtain ⟨s, hrun, hshown⟩ : ∃ s, manager.exec manager.init patientRun = some s ∧
      s.emitted.map Emission.message = [.ptyOpened "pane", .ptyOutput "pane" "aGk=",
        .ptyExit "pane" (some 0), .ptyOpened "pane"] :=
    Option.map_eq_some_iff.mp (by decide)
  exact ⟨s, hrun, faithful_of_careful patientRun s (by decide) hrun, hshown⟩

def lostRun : List Label :=
  [.spawn "conn" "pane" 80 24 none none, .announce 0, .task 0 (.childWrites [104]),
    .task 0 (.readerReads 1), .task 0 .readerSends, .task 0 (.childExits (some 0)),
    .task 0 .waiterReaps, .task 0 .waiterCancels, .task 0 .waiterForgets, .task 0 .waiterReports,
    .task 0 .outputSelects]

def staleRun : List Label :=
  [.spawn "conn" "pane" 80 24 none none, .announce 0, .close "conn" "pane", .kill 0 none,
    .spawn "conn" "pane" 80 24 none none, .announce 1, .task 0 (.childExits none),
    .task 0 .waiterReaps, .task 0 .waiterCancels, .task 0 .waiterForgets, .task 0 .waiterReports]

theorem not_faithful :
    (∃ s, manager.exec manager.init lostRun = some s ∧ ¬ s.Faithful) ∧
      ∃ s, manager.exec manager.init staleRun = some s ∧ ¬ s.Faithful := by
  constructor
  · obtain ⟨s, hrun, hs⟩ : ∃ s, manager.exec manager.init lostRun = some s ∧
        (s.all.map fun pane => (pane.closing, pane.stream.wrote), eventsOf 0 s.emitted) =
          ([(Closing.live, [104])], [.exit (some 0)]) :=
      Option.map_eq_some_iff.mp (by decide)
    obtain ⟨hall, hevents⟩ := Prod.mk.inj hs
    refine ⟨s, hrun, fun hfaithful => ?_⟩
    obtain ⟨pane, hpanes, hpane⟩ := List.map_eq_singleton_iff.mp hall
    obtain ⟨hlive, hwrote⟩ := Prod.mk.inj hpane
    have hcomplete := hfaithful.complete 0 pane (by rw [hpanes]; rfl) hlive
    rw [hevents] at hcomplete
    obtain ⟨frames, hframes | ⟨code, -, hdecoded⟩⟩ := hcomplete.exitLast
    · cases frames <;> cases hframes
    · rw [hwrote] at hdecoded
      cases hdecoded
  · obtain ⟨s, hrun, hs⟩ : ∃ s, manager.exec manager.init staleRun = some s ∧ s.emitted =
        [⟨some 0, .ptyOpened "pane"⟩, ⟨some 1, .ptyOpened "pane"⟩,
          ⟨some 0, .ptyExit "pane" none⟩] :=
      Option.map_eq_some_iff.mp (by decide)
    refine ⟨s, hrun, fun hfaithful => ?_⟩
    have hfresh := hfaithful.fresh
    rw [hs] at hfresh
    have hnot := (List.pairwise_cons.mp (List.pairwise_cons.mp hfresh).2).1 _ List.mem_cons_self
    exact hnot ⟨"pane", 0, 1, rfl, Nat.zero_lt_one, .inr ⟨none, rfl⟩⟩

end Goble.Goblin
