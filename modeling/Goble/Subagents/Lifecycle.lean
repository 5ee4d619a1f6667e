import Goble.Lib.Threads
import Goble.Subagents.Registry

/-!
# The lifecycle events of a sub-agent

A change of a child's record is made under the registry's lock and announced after it, under the
lock of the sink. Other threads may run between the two.

* `lifecycle_of_run` — along every run in which each event is due when it is sent, the sink
  receives the events of a child in order. A record that has ended stays, in any run.
-/

namespace Goble.Subagents

/-- The lifecycle events, as they cross a turn's stream. -/
inductive HarnessEvent where
  | subAgentSpawned (chatId subagentId subagentType description parentCallId : String)
    (runInBackground : Bool)
  | subAgentProgress (chatId subagentId status activity : String)
    (turns toolCalls tokens durationMs : Nat)
  | subAgentFinished (chatId subagentId status : String) (output error : Option String)
    (durationMs turns toolCalls tokens : Nat)
deriving DecidableEq, Repr

namespace HarnessEvent

def child : HarnessEvent → String
  | subAgentSpawned _ id _ _ _ _ | subAgentProgress _ id _ _ _ _ _ _
  | subAgentFinished _ id _ _ _ _ _ _ _ => id

def isSpawned : HarnessEvent → Bool
  | subAgentSpawned .. => true
  | _ => false

def isProgress : HarnessEvent → Bool
  | subAgentProgress .. => true
  | _ => false

def isFinished : HarnessEvent → Bool
  | subAgentFinished .. => true
  | _ => false

end HarnessEvent

/-- The status name of the wire payloads. -/
def statusKind : SubAgentStatus → String
  | .initializing => "initializing"
  | .running .. => "running"
  | .completed .. => "completed"
  | .failed _ => "failed"
  | .cancelled _ => "cancelled"

def SubAgentRecord.elapsedMsAt (record : SubAgentRecord) (now : Int) : Nat :=
  (record.finishedAt.getD now - record.startedAt).toNat

def subagentSpawned (record : SubAgentRecord) : HarnessEvent :=
  .subAgentSpawned record.spec.parentChatId record.spec.id record.spec.subagentType
    record.spec.description record.spec.parentCallId record.spec.runInBackground

def subagentProgress (record : SubAgentRecord) (now : Int) : HarnessEvent :=
  let activity := match record.status with
    | .running _ _ _ activity => activity
    | _ => ""
  .subAgentProgress record.spec.parentChatId record.spec.id (statusKind record.status) activity
    record.status.counts.1 record.status.counts.2.1 record.status.counts.2.2
    (record.elapsedMsAt now)

def subagentFinished (record : SubAgentRecord) : HarnessEvent :=
  let outcome := match record.status with
    | .completed output .. => (some output, none)
    | .failed error => (none, some error)
    | .cancelled reason => (none, some reason)
    | _ => (none, none)
  .subAgentFinished record.spec.parentChatId record.spec.id (statusKind record.status) outcome.1
    outcome.2 ((record.finishedAt.map fun finished =>
      (finished - record.startedAt).toNat).getD 0) record.status.counts.1
    record.status.counts.2.1 record.status.counts.2.2

def ChildEntry.writeRecord (record : SubAgentRecord) (entry : ChildEntry) : ChildEntry :=
  if entry.id = record.spec.id then { entry with record } else entry

theorem ChildEntry.writeRecord_id (record : SubAgentRecord) (entry : ChildEntry) :
    (entry.writeRecord record).id = entry.id := by
  unfold ChildEntry.writeRecord
  split
  · next h => exact h.symm
  · rfl

namespace Registry

/-- Add a live child before its task runs. -/
def register (registry : Registry) (record : SubAgentRecord) (handle : ChildCancel) :
    Registry × List HarnessEvent :=
  if h : registry.find record.spec.id = none then
    (registry.push ⟨record, handle, .new⟩ h, [subagentSpawned record])
  else (registry, [])

/-- Write a child's own view of its record, unless the record has ended. -/
def publish (registry : Registry) (record : SubAgentRecord) (now : Int) :
    Registry × List HarnessEvent :=
  match registry.find record.spec.id with
  | none => (registry, [])
  | some entry =>
    if entry.isTerminal then (registry, [])
    else
      (registry.update record.spec.id (fun e => e.writeRecord record)
          fun e => e.writeRecord_id record,
        [if record.status.isTerminal then subagentFinished record
          else subagentProgress record now])

end Registry

inductive RegistryCall where
  | register (record : SubAgentRecord) (handle : ChildCancel)
  | publish (record : SubAgentRecord) (now : Int)
  | cancel (id reason : String) (now : Int)
  | cancelAll (reason : String) (now : Int)
deriving DecidableEq, Repr

/-- What a call does under the lock, and the events it has to send after it. -/
def RegistryCall.apply (registry : Registry) : RegistryCall → Registry × List HarnessEvent
  | .register record handle => registry.register record handle
  | .publish record now => registry.publish record now
  | .cancel id reason now =>
    ((registry.cancel id reason now).1, (registry.cancel id reason now).2.map subagentFinished)
  | .cancelAll reason now =>
    ((registry.cancelAll reason now).1, (registry.cancelAll reason now).2.map subagentFinished)

structure Lifecycles where
  registry : Registry
  received : List HarnessEvent

inductive RegistryThread where
  | begin (call : RegistryCall)
  | emitting (events : List HarnessEvent)
deriving DecidableEq, Repr

def RegistryThread.pending : RegistryThread → List HarnessEvent
  | begin _ => []
  | emitting events => events

/-- Go on sending, if there is anything to send. -/
def RegistryThread.emits : List HarnessEvent → Option RegistryThread
  | [] => none
  | events => some (emitting events)

def registryThreads : Threads Lifecycles RegistryThread RegistryCall Unit where
  init := ⟨.empty, []⟩
  enter _ call := some (.begin call)
  next shared thread _ :=
    match thread with
    | .begin call =>
      some ({ shared with registry := (call.apply shared.registry).1 },
        RegistryThread.emits (call.apply shared.registry).2)
    | .emitting [] => none
    | .emitting (event :: events) =>
      some ({ shared with received := shared.received ++ [event] }, RegistryThread.emits events)

theorem RegistryThread.pending_emits (events : List HarnessEvent) :
    (RegistryThread.emits events).toList.flatMap pending = events := by
  cases events with
  | nil => rfl
  | cons event events => simp [emits, pending]

/-! ### What a call changes -/

/-- What has become of a child's record: nothing, or one step of its lifecycle with its event. -/
inductive Advances (registry registry' : Registry) (c : String) : List HarnessEvent → Prop
  | none (h : (registry'.find c).map ChildEntry.record = (registry.find c).map ChildEntry.record) :
    Advances registry registry' c []
  | spawned {entry : ChildEntry} (h : registry.find c = .none)
    (h' : registry'.find c = some entry) :
    Advances registry registry' c [subagentSpawned entry.record]
  | progress {entry entry' : ChildEntry} {now : Int} (h : registry.find c = some entry)
    (hlive : entry.isTerminal = false) (h' : registry'.find c = some entry')
    (hlive' : entry'.isTerminal = false) :
    Advances registry registry' c [subagentProgress entry'.record now]
  | finished {entry entry' : ChildEntry} (h : registry.find c = some entry)
    (hlive : entry.isTerminal = false) (h' : registry'.find c = some entry')
    (hterminal : entry'.isTerminal = true) :
    Advances registry registry' c [subagentFinished entry'.record]

variable {registry' : Registry}

theorem Advances.find_of_terminal {registry : Registry} {c : String} {events : List HarnessEvent}
    {entry : ChildEntry} (h : Advances registry registry' c events)
    (hfind : registry.find c = some entry) (hterminal : entry.isTerminal = true) :
    ∃ entry', registry'.find c = some entry' ∧ entry'.record = entry.record := by
  cases h with
  | none hsame =>
    rw [hfind] at hsame
    exact Option.map_eq_some_iff.mp hsame
  | spawned hnone => exact absurd (hnone.symm.trans hfind) (by simp)
  | progress hfind' hlive | finished hfind' hlive =>
    obtain rfl := Option.some.inj (hfind'.symm.trans hfind)
    exact absurd (hlive.symm.trans hterminal) (by simp)

def eventsOf (c : String) (events : List HarnessEvent) : List HarnessEvent :=
  events.filter fun event => event.child = c

theorem eventsOf_append (c : String) (events more : List HarnessEvent) :
    eventsOf c (events ++ more) = eventsOf c events ++ eventsOf c more :=
  List.filter_append ..

theorem eventsOf_eq_nil {c : String} {events : List HarnessEvent} :
    eventsOf c events = [] ↔ ∀ event ∈ events, event.child ≠ c := by
  simp [eventsOf, List.filter_eq_nil_iff]

theorem Registry.Kills.advances {reason : String} {now : Int} {registry : Registry}
    {ended : List SubAgentRecord} (h : Kills reason now registry registry' ended) (c : String) :
    Advances registry registry' c (eventsOf c (ended.map subagentFinished)) := by
  rcases h.find_cases c with ⟨hsame, hc⟩ | ⟨entry, hfind, hlive, hkilled, hc⟩
  · have hnone : eventsOf c (ended.map subagentFinished) = [] := by
      refine eventsOf_eq_nil.mpr fun event hevent he => hc ?_
      obtain ⟨record, hrecord, rfl⟩ := List.mem_map.mp hevent
      exact List.mem_map.mpr ⟨record, hrecord, he⟩
    rw [hnone]
    exact .none (by rw [hsame])
  · have hone : eventsOf c (ended.map subagentFinished) =
        [subagentFinished (entry.kill reason now).record] := by
      obtain ⟨record, hrecord, rfl⟩ := List.mem_map.mp hc
      obtain ⟨entry', hfind', -, heq, -⟩ := h.killed record hrecord
      obtain rfl := Option.some.inj (hfind'.symm.trans hfind)
      -- no other record ended has the id
      obtain ⟨before, after, hsplit⟩ := List.append_of_mem hrecord
      have hnodup := h.nodup
      rw [hsplit, List.map_append, List.map_cons] at hnodup
      obtain ⟨-, hnodup', hdisjoint⟩ := List.nodup_append.mp hnodup
      have hbefore : eventsOf record.spec.id (before.map subagentFinished) = [] := by
        refine eventsOf_eq_nil.mpr fun event hevent he => ?_
        obtain ⟨other, hother, rfl⟩ := List.mem_map.mp hevent
        exact hdisjoint _ (List.mem_map_of_mem hother) _ List.mem_cons_self he
      have hafter : eventsOf record.spec.id (after.map subagentFinished) = [] := by
        refine eventsOf_eq_nil.mpr fun event hevent he => ?_
        obtain ⟨other, hother, rfl⟩ := List.mem_map.mp hevent
        exact (List.nodup_cons.mp hnodup').1 (List.mem_map.mpr ⟨other, hother, he⟩)
      have hself : eventsOf record.spec.id [subagentFinished record] = [subagentFinished record] :=
        List.filter_eq_self.mpr (List.forall_mem_singleton.mpr (decide_eq_true rfl))
      rw [hsplit, List.map_append, List.map_cons, eventsOf_append, hbefore,
        ← List.singleton_append, eventsOf_append, hself, hafter, ← heq]
      rfl
    rw [hone]
    exact .finished hfind hlive hkilled (entry.kill_isTerminal reason now)

theorem eventsOf_singleton (c : String) (event : HarnessEvent) :
    eventsOf c [event] = if event.child = c then [event] else [] := by
  unfold eventsOf
  by_cases h : event.child = c <;> simp [h]

theorem Registry.advances_register (registry : Registry) (record : SubAgentRecord)
    (handle : ChildCancel) (c : String) :
    Advances registry (registry.register record handle).1 c
      (eventsOf c (registry.register record handle).2) := by
  unfold register
  split
  · next h =>
    have hfind := registry.find_push ⟨record, handle, .new⟩ h c
    by_cases hc : record.spec.id = c
    · rw [eventsOf_singleton, if_pos (show (subagentSpawned record).child = c from hc)]
      have hnone : registry.find c = none := hc ▸ h
      exact .spawned hnone (hfind.trans (if_pos hc.symm))
    · rw [eventsOf_singleton, if_neg (show ¬ (subagentSpawned record).child = c from hc)]
      have hsame := hfind.trans (if_neg fun he => hc he.symm)
      exact .none (congrArg _ hsame)
  · exact .none rfl

theorem Registry.advances_publish (registry : Registry) (record : SubAgentRecord) (now : Int)
    (c : String) :
    Advances registry (registry.publish record now).1 c
      (eventsOf c (registry.publish record now).2) := by
  unfold publish
  split
  · exact .none rfl
  · next entry hfind =>
    split
    · exact .none rfl
    · next hlive =>
      have hchild : (if record.status.isTerminal then subagentFinished record
          else subagentProgress record now).child = record.spec.id := by
        split <;> rfl
      rw [eventsOf_singleton, hchild]
      by_cases hc : record.spec.id = c
      · subst hc
        have hwritten : entry.writeRecord record = { entry with record } :=
          if_pos (mem_of_find hfind).2
        have hfind' : (registry.update record.spec.id (fun e => e.writeRecord record)
            fun e => e.writeRecord_id record).find record.spec.id =
              some { entry with record } := by
          rw [find_update, if_pos rfl, hfind, Option.map_some, hwritten]
        rw [if_pos rfl]
        by_cases hterminal : record.status.isTerminal = true
        · rw [if_pos hterminal]
          exact .finished hfind (Bool.eq_false_iff.mpr hlive) hfind' hterminal
        · rw [if_neg hterminal]
          exact .progress hfind (Bool.eq_false_iff.mpr hlive) hfind'
            (Bool.eq_false_iff.mpr hterminal)
      · rw [if_neg hc]
        refine .none ?_
        rw [find_update, if_neg fun he => hc he.symm]

/-- **One call is one step of each lifecycle at most.** -/
theorem RegistryCall.advances (registry : Registry) (call : RegistryCall) (c : String) :
    Advances registry (call.apply registry).1 c (eventsOf c (call.apply registry).2) := by
  cases call with
  | register record handle => exact registry.advances_register record handle c
  | publish record now => exact registry.advances_publish record now c
  | cancel id reason now => exact (registry.walk_cancel id reason now).kills.advances c
  | cancelAll reason now => exact (registry.kills_cancelAll reason now).1.advances c

/-! ### The order of the events -/

def Ended (registry : Registry) (c : String) (event : HarnessEvent) : Prop :=
  ∃ entry, registry.find c = some entry ∧ entry.isTerminal = true ∧
    event = subagentFinished entry.record

def Lifecycle (registry : Registry) (c : String) (events : List HarnessEvent) : Prop :=
  ∃ spawned progress, ∃ finished : Option HarnessEvent,
    events = spawned :: (progress ++ finished.toList) ∧ spawned.isSpawned = true ∧
      (∀ event ∈ progress, event.isProgress = true) ∧ ∀ event ∈ finished, Ended registry c event

/-- The events of a child are in order: there are none yet, or they are a lifecycle so far. -/
def Ordered (registry : Registry) (c : String) (events : List HarnessEvent) : Prop :=
  events = [] ∨ Lifecycle registry c events

def Trace (registry : Registry) (c : String) (events : List HarnessEvent) : Prop :=
  registry.find c = none ∧ events = [] ∨
    (registry.find c).isSome = true ∧ Lifecycle registry c events

variable {event : HarnessEvent} {more : List HarnessEvent}

theorem Ended.advances {registry : Registry} {c : String} (h : Ended registry c event)
    (hadvances : Advances registry registry' c more) : Ended registry' c event := by
  obtain ⟨entry, hfind, hterminal, rfl⟩ := h
  obtain ⟨entry', hfind', hrecord⟩ := hadvances.find_of_terminal hfind hterminal
  exact ⟨entry', hfind', by rw [ChildEntry.isTerminal, hrecord]; exact hterminal, by rw [hrecord]⟩

theorem Lifecycle.advances {registry : Registry} {c : String} {events : List HarnessEvent}
    (h : Lifecycle registry c events) (hadvances : Advances registry registry' c more) :
    Lifecycle registry' c events := by
  obtain ⟨spawned, progress, finished, rfl, hspawned, hprogress, hfinished⟩ := h
  exact ⟨spawned, progress, finished, rfl, hspawned, hprogress,
    fun event hevent => (hfinished event hevent).advances hadvances⟩

theorem Ordered.advances {registry : Registry} {c : String} {events : List HarnessEvent}
    (h : Ordered registry c events) (hadvances : Advances registry registry' c more) :
    Ordered registry' c events :=
  h.imp_right fun hlifecycle => hlifecycle.advances hadvances

theorem Lifecycle.of_live {registry : Registry} {c : String} {events : List HarnessEvent}
    {entry : ChildEntry} (h : Lifecycle registry c events) (hfind : registry.find c = some entry)
    (hlive : entry.isTerminal = false) :
    ∃ spawned progress, events = spawned :: progress ∧ spawned.isSpawned = true ∧
      ∀ event ∈ progress, event.isProgress = true := by
  obtain ⟨spawned, progress, finished, rfl, hspawned, hprogress, hfinished⟩ := h
  cases finished with
  | none => exact ⟨spawned, progress, by simp, hspawned, hprogress⟩
  | some event =>
    obtain ⟨entry', hfind', hterminal, -⟩ := hfinished event rfl
    obtain rfl := Option.some.inj (hfind'.symm.trans hfind)
    exact absurd (hlive.symm.trans hterminal) (by simp)

theorem Trace.advances {registry : Registry} {c : String} {events : List HarnessEvent}
    (h : Trace registry c events) (hadvances : Advances registry registry' c more) :
    Trace registry' c (events ++ more) := by
  have hlife : ∀ {entry : ChildEntry}, registry.find c = some entry →
      Lifecycle registry c events := by
    intro entry hfind
    obtain ⟨hnone, -⟩ | ⟨-, hlifecycle⟩ := h
    · exact absurd (hnone.symm.trans hfind) (by simp)
    · exact hlifecycle
  cases hadvances with
  | none hsame =>
    rw [List.append_nil]
    refine h.imp (fun ⟨hnone, hnil⟩ => ⟨?_, hnil⟩) fun ⟨hsome, hlifecycle⟩ =>
      ⟨?_, hlifecycle.advances (.none hsame)⟩
    · rw [hnone] at hsame
      exact Option.map_eq_none_iff.mp hsame
    · rw [← Option.isSome_map, hsame, Option.isSome_map]
      exact hsome
  | @spawned entry hfind hfind' =>
    obtain ⟨-, rfl⟩ | ⟨hsome, -⟩ := h
    · exact .inr ⟨by rw [hfind']; rfl, subagentSpawned entry.record, [], none, rfl, rfl,
        fun _ he => absurd he List.not_mem_nil, fun _ he => by cases he⟩
    · rw [hfind] at hsome
      cases hsome
  | @progress entry entry' now hfind hlive hfind' hlive' =>
    obtain ⟨spawned, progress, rfl, hspawned, hprogress⟩ := (hlife hfind).of_live hfind hlive
    refine .inr ⟨by rw [hfind']; rfl, spawned, progress ++ [subagentProgress entry'.record now],
      none, by simp, hspawned, ?_, fun _ he => by cases he⟩
    exact List.forall_mem_append.mpr ⟨hprogress, List.forall_mem_singleton.mpr rfl⟩
  | @finished entry entry' hfind hlive hfind' hterminal =>
    obtain ⟨spawned, progress, rfl, hspawned, hprogress⟩ := (hlife hfind).of_live hfind hlive
    refine .inr ⟨by rw [hfind']; rfl, spawned, progress,
      some (subagentFinished entry'.record), by simp, hspawned, hprogress, ?_⟩
    rintro event hevent
    obtain rfl := Option.some.inj hevent
    exact ⟨entry', hfind', hterminal, rfl⟩

/-! ### What is sent, and in which order -/

theorem HarnessEvent.isSpawned_eq_false (h : event.isProgress = true) :
    event.isSpawned = false := by
  cases event <;> first | rfl | cases h

theorem HarnessEvent.isFinished_eq_false (h : event.isProgress = true) :
    event.isFinished = false := by
  cases event <;> first | rfl | cases h

namespace Lifecycle

variable {registry : Registry} {c : String} {events : List HarnessEvent}

/-- A child is announced once. -/
theorem countP_isSpawned (h : Lifecycle registry c events) :
    events.countP HarnessEvent.isSpawned = 1 := by
  obtain ⟨spawned, progress, finished, rfl, hspawned, hprogress, hfinished⟩ := h
  have hzero : (progress ++ finished.toList).countP HarnessEvent.isSpawned = 0 := by
    refine List.countP_eq_zero.mpr (List.forall_mem_append.mpr ⟨fun event hevent => ?_,
      fun event hevent => ?_⟩)
    · rw [HarnessEvent.isSpawned_eq_false (hprogress event hevent)]
      simp
    · obtain ⟨entry, -, -, rfl⟩ := hfinished event (Option.mem_toList.mp hevent)
      simp [subagentFinished, HarnessEvent.isSpawned]
  rw [List.countP_cons_of_pos hspawned, hzero]

/-- It ends at most once. -/
theorem countP_isFinished (h : Lifecycle registry c events) :
    events.countP HarnessEvent.isFinished ≤ 1 := by
  obtain ⟨spawned, progress, finished, rfl, hspawned, hprogress, -⟩ := h
  have hfirst : ¬ spawned.isFinished = true := by
    cases spawned <;> first | exact Bool.false_ne_true | cases hspawned
  have hzero : progress.countP HarnessEvent.isFinished = 0 := by
    refine List.countP_eq_zero.mpr fun event hevent => ?_
    rw [HarnessEvent.isFinished_eq_false (hprogress event hevent)]
    exact Bool.false_ne_true
  rw [List.countP_cons_of_neg hfirst, List.countP_append, hzero, Nat.zero_add]
  exact Nat.le_trans List.countP_le_length (by cases finished <;> simp)

theorem mem_cases (h : Lifecycle registry c events) (hevent : event ∈ events) :
    event.isSpawned = true ∨ event.isProgress = true ∨ Ended registry c event := by
  obtain ⟨spawned, progress, finished, rfl, hspawned, hprogress, hfinished⟩ := h
  obtain rfl | hevent := List.mem_cons.mp hevent
  · exact .inl hspawned
  · obtain hevent | hevent := List.mem_append.mp hevent
    · exact .inr (.inl (hprogress event hevent))
    · exact .inr (.inr (hfinished event (Option.mem_toList.mp hevent)))

end Lifecycle

theorem Ended.isFinished {registry : Registry} {c : String} (h : Ended registry c event) :
    event.isFinished = true := by
  obtain ⟨entry, -, -, rfl⟩ := h
  rfl

/-- An event may be sent: the child has been announced, unless this is the announcement, and
progress comes while the child lives or its end has still to be sent. -/
def Due (registry : Registry) (waiting : List HarnessEvent) (event : HarnessEvent) : Prop :=
  event.isSpawned = true ∨
    (∀ other ∈ eventsOf event.child waiting, other.isSpawned = false) ∧
      (event.isProgress = true →
        ((registry.find event.child).any fun entry => !entry.isTerminal) = true ∨
          ∃ other ∈ eventsOf event.child waiting, other.isFinished = true)

instance (registry : Registry) (waiting : List HarnessEvent) (event : HarnessEvent) :
    Decidable (Due registry waiting event) :=
  inferInstanceAs (Decidable (_ ∨ _ ∧ _))

theorem Ordered.send {registry : Registry} {c : String}
    {received waiting events : List HarnessEvent} (h : Ordered registry c received)
    (hlife : Lifecycle registry c events) (hperm : (received ++ event :: waiting).Perm events)
    (hdue : event.isSpawned = true ∨
      (∀ other ∈ event :: waiting, other.isSpawned = false) ∧
        (event.isProgress = true →
          ((registry.find c).any fun entry => !entry.isTerminal) = true ∨
            ∃ other ∈ event :: waiting, other.isFinished = true)) :
    Ordered registry c (received ++ [event]) := by
  have hspawned := (hperm.countP_eq HarnessEvent.isSpawned).trans hlife.countP_isSpawned
  have hfinished : (received ++ event :: waiting).countP HarnessEvent.isFinished ≤ 1 :=
    (hperm.countP_eq HarnessEvent.isFinished).symm ▸ hlife.countP_isFinished
  rw [List.countP_append] at hspawned hfinished
  have hkind := hlife.mem_cases (hperm.subset (List.mem_append_right _ List.mem_cons_self))
  obtain rfl | hreceived := h
  · -- the first event is the announcement
    refine .inr ⟨event, [], none, rfl, ?_, fun _ he => absurd he List.not_mem_nil,
      fun _ he => by cases he⟩
    obtain hfirst | ⟨hnone, -⟩ := hdue
    · exact hfirst
    · have hzero : (event :: waiting).countP HarnessEvent.isSpawned = 0 :=
        List.countP_eq_zero.mpr fun other hother => by simp [hnone other hother]
      rw [hzero] at hspawned
      cases hspawned
  · have hone := hreceived.countP_isSpawned
    obtain ⟨spawned, progress, finished, rfl, hfirst, hprogress, hend⟩ := hreceived
    have hagain : ¬ event.isSpawned = true := by
      intro hevent
      rw [hone, List.countP_cons_of_pos hevent] at hspawned
      omega
    -- whatever comes next, the end has not been sent
    have hopen : finished = none := by
      by_contra hne
      obtain ⟨last, rfl⟩ := Option.ne_none_iff_exists'.mp hne
      have hlast := hend last rfl
      have hsent : 1 ≤ (spawned :: (progress ++ [last])).countP HarnessEvent.isFinished :=
        List.countP_pos_iff.mpr ⟨last, by simp, hlast.isFinished⟩
      have hwaiting : (event :: waiting).countP HarnessEvent.isFinished = 0 := by
        have htoList : (some last).toList = [last] := rfl
        rw [htoList] at hfinished
        omega
      have hnone := List.countP_eq_zero.mp hwaiting
      obtain hevent | hevent | hevent := hkind
      · exact hagain hevent
      · obtain hevent' | ⟨-, hlive⟩ := hdue
        · exact hagain hevent'
        · obtain hlive | ⟨other, hother, hfin⟩ := hlive hevent
          · obtain ⟨entry, hfind, hterminal, -⟩ := hlast
            rw [hfind, Option.any_some, hterminal] at hlive
            cases hlive
          · exact hnone other hother hfin
      · exact hnone event List.mem_cons_self hevent.isFinished
    subst hopen
    obtain hevent | hevent | hevent := hkind
    · exact absurd hevent hagain
    · refine .inr ⟨spawned, progress ++ [event], none, by simp, hfirst, ?_,
        fun _ he => by cases he⟩
      exact List.forall_mem_append.mpr ⟨hprogress, List.forall_mem_singleton.mpr hevent⟩
    · refine .inr ⟨spawned, progress, some event, by simp, hfirst, hprogress, ?_⟩
      rintro other hother
      obtain rfl := Option.some.inj hother
      exact hevent

abbrev LifecycleState := Threads.State Lifecycles RegistryThread

def waiting (s : LifecycleState) : List HarnessEvent :=
  s.threads.flatMap RegistryThread.pending

/-- The condition on a step: what it sends is due. -/
def inOrder (s : LifecycleState) : Threads.Label RegistryCall Unit → Bool
  | .call _ => true
  | .run index _ =>
    match s.threads[index]? with
    | some (.emitting (event :: _)) => decide (Due s.shared.registry (waiting s) event)
    | _ => true

/-- What the sink has of a child is in order, and with what is waiting it is all there is. -/
def Told (c : String) (s : LifecycleState) : Prop :=
  Ordered s.shared.registry c (eventsOf c s.shared.received) ∧
    ∃ events, Trace s.shared.registry c events ∧
      (eventsOf c s.shared.received ++ eventsOf c (waiting s)).Perm events

theorem Told.step {c : String} {s s' : LifecycleState} {l : Threads.Label RegistryCall Unit}
    (h : Told c s) (hdue : inOrder s l = true)
    (hstep : registryThreads.machine.step s l = some s') : Told c s' := by
  obtain ⟨call, rfl, rfl⟩ |
    ⟨index, answer, thread, before, after, goesOn, rfl, hthread, hsplit, hnext, hthreads⟩ :=
    Threads.step_cases hstep
  · have hsame : waiting ⟨s.shared, s.threads ++ (registryThreads.enter s.shared call).toList⟩ =
        waiting s := by
      simp [waiting, registryThreads, RegistryThread.pending]
    rw [Told, hsame]
    exact h
  · obtain ⟨hordered, events, htrace, hperm⟩ := h
    have hwaiting : waiting s = before.flatMap RegistryThread.pending ++ thread.pending ++
        after.flatMap RegistryThread.pending := by
      rw [waiting, hsplit]
      simp
    have hwaiting' : waiting s' = before.flatMap RegistryThread.pending ++
        goesOn.toList.flatMap RegistryThread.pending ++
          after.flatMap RegistryThread.pending := by
      rw [waiting, hthreads]
      simp
    cases thread with
    | begin call =>
      obtain ⟨hshared, rfl⟩ := Prod.mk.inj (Option.some.inj hnext)
      have hadvances := call.advances s.shared.registry c
      rw [RegistryThread.pending_emits] at hwaiting'
      rw [Told, ← hshared]
      refine ⟨hordered.advances hadvances, _, htrace.advances hadvances, ?_⟩
      rw [hwaiting', eventsOf_append, eventsOf_append]
      rw [hwaiting, eventsOf_append, eventsOf_append] at hperm
      refine List.Perm.trans ?_ (hperm.append_right _)
      simp only [RegistryThread.pending, eventsOf, List.filter_nil, List.append_nil,
        List.append_assoc]
      exact (List.perm_append_comm.append_left _).append_left _
    | emitting pending =>
      cases pending with
      | nil => cases hnext
      | cons event more =>
        obtain ⟨hshared, rfl⟩ := Prod.mk.inj (Option.some.inj hnext)
        rw [RegistryThread.pending_emits] at hwaiting'
        have hevent : Due s.shared.registry (waiting s) event := by
          have hdue' := hdue
          rw [inOrder, hthread] at hdue'
          exact of_decide_eq_true hdue'
        have hmoved : (waiting s).Perm (event :: waiting s') := by
          rw [hwaiting, hwaiting']
          simp only [RegistryThread.pending, List.append_assoc, List.cons_append]
          exact List.perm_middle
        have hof : (eventsOf c (waiting s)).Perm
            (eventsOf c [event] ++ eventsOf c (waiting s')) := by
          rw [← eventsOf_append]
          exact hmoved.filter _
        rw [Told, ← hshared]
        refine ⟨?_, events, htrace, ?_⟩
        · rw [eventsOf_append, eventsOf_singleton]
          by_cases hc : event.child = c
          · subst hc
            rw [eventsOf_singleton, if_pos rfl] at hof
            have hall := (hof.append_left _).symm.trans hperm
            obtain ⟨-, rfl⟩ | ⟨-, hlifecycle⟩ := htrace
            · exact absurd hall.length_eq (by simp)
            · rw [if_pos rfl]
              refine hordered.send hlifecycle hall (hevent.imp_right fun ⟨hnone, hlive⟩ => ?_)
              refine ⟨fun other hother => hnone other (hof.mem_iff.mpr hother), fun hprogress => ?_⟩
              refine (hlive hprogress).imp_right fun ⟨other, hother, hfin⟩ => ?_
              exact ⟨other, hof.mem_iff.mp hother, hfin⟩
          · rw [if_neg hc, List.append_nil]
            exact hordered
        · rw [eventsOf_append, List.append_assoc]
          exact (hof.append_left _).symm.trans hperm

theorem record_of_terminal {s s' : LifecycleState} {run : List (Threads.Label RegistryCall Unit)}
    {c : String} {entry : ChildEntry} (hfind : s.shared.registry.find c = some entry)
    (hterminal : entry.isTerminal = true) (hrun : registryThreads.machine.exec s run = some s') :
    ∃ entry', s'.shared.registry.find c = some entry' ∧ entry'.record = entry.record := by
  refine Machine.exec_invariant (C := fun _ _ => True)
    (I := fun s => ∃ entry', s.shared.registry.find c = some entry' ∧
      entry'.record = entry.record) ?_ ⟨entry, hfind, rfl⟩ (Machine.along_true s run) hrun
  rintro s l s' ⟨entry', hfind', hrecord⟩ - hstep
  obtain ⟨call, rfl, rfl⟩ |
    ⟨index, answer, thread, before, after, goesOn, rfl, hthread, hsplit, hnext, hthreads⟩ :=
    Threads.step_cases hstep
  · exact ⟨entry', hfind', hrecord⟩
  · have hterminal' : entry'.isTerminal = true := by
      rw [ChildEntry.isTerminal, hrecord]
      exact hterminal
    cases thread with
    | begin call =>
      obtain ⟨hshared, -⟩ := Prod.mk.inj (Option.some.inj hnext)
      rw [← hshared]
      obtain ⟨entry'', hfind'', hrecord'⟩ :=
        (call.advances s.shared.registry c).find_of_terminal hfind' hterminal'
      exact ⟨entry'', hfind'', hrecord'.trans hrecord⟩
    | emitting pending =>
      cases pending with
      | nil => cases hnext
      | cons event more =>
        obtain ⟨hshared, -⟩ := Prod.mk.inj (Option.some.inj hnext)
        rw [← hshared]
        exact ⟨entry', hfind', hrecord⟩

/-- **The events of a child arrive in order.** In every run in which no event is sent before it is
due, what the sink has of a child is one spawn, then progress, then at most one end, which is that
of the child's record; and in any run at all a record that has ended stays as it is. -/
theorem lifecycle_of_run {run : List (Threads.Label RegistryCall Unit)} {s : LifecycleState}
    (hdue : registryThreads.machine.Along (fun s l => inOrder s l = true)
      registryThreads.machine.init run)
    (hrun : registryThreads.machine.exec registryThreads.machine.init run = some s) :
    (∀ c, Ordered s.shared.registry c (eventsOf c s.shared.received)) ∧
      ∀ c entry more s', s.shared.registry.find c = some entry → entry.isTerminal = true →
        registryThreads.machine.exec s more = some s' →
          ∃ entry', s'.shared.registry.find c = some entry' ∧ entry'.record = entry.record := by
  refine ⟨fun c => ?_, fun c entry more s' hfind hterminal hmore => ?_⟩
  · have hinit : Told c registryThreads.machine.init :=
      ⟨.inl rfl, [], .inl ⟨rfl, rfl⟩, List.Perm.refl _⟩
    have htold : Told c s :=
      Machine.exec_invariant (fun _ _ _ htold hl hstep => htold.step hl hstep) hinit hdue hrun
    exact htold.1
  · exact record_of_terminal hfind hterminal hmore

def reviewer : SubAgentRecord :=
  ⟨⟨"agent-1", "chat", "call", "review it", "general", true⟩, .running 0 0 0 "", 0, none⟩

/-- The child is spawned and announced. -/
def spawnRun : List (Threads.Label RegistryCall Unit) :=
  [.call (.register reviewer .new), .run 0 (), .run 0 ()]

/-- Its loop makes progress and tells it, then the user stops it. -/
def orderlyRun : List (Threads.Label RegistryCall Unit) :=
  spawnRun ++ [.call (.publish reviewer 1), .run 0 (), .run 0 (),
    .call (.cancel "agent-1" "stopped" 2), .run 0 (), .run 0 ()]

/-- A child that is stopped between two steps of its loop. -/
theorem lifecycle_of_run_reviewer :
    ∃ s, registryThreads.machine.exec registryThreads.machine.init orderlyRun = some s ∧
      s.shared.received.map HarnessEvent.isFinished = [false, false, true] ∧
      Ordered s.shared.registry "agent-1" (eventsOf "agent-1" s.shared.received) := by
  obtain ⟨s, hrun, hreceived⟩ := Option.map_eq_some_iff.mp (show
    (registryThreads.machine.exec registryThreads.machine.init orderlyRun).map
      (fun s => s.shared.received.map HarnessEvent.isFinished) = some [false, false, true] by
        decide +kernel)
  exact ⟨s, hrun, hreceived, (lifecycle_of_run (by decide +kernel) hrun).1 "agent-1"⟩

/-- The same, but the user stops the child after its loop has written its progress and before it
has told it. -/
def overtakingRun : List (Threads.Label RegistryCall Unit) :=
  spawnRun ++ [.call (.publish reviewer 1), .run 0 (), .call (.cancel "agent-1" "stopped" 2),
    .run 1 (), .run 1 (), .run 0 ()]

/-- Progress arrives after the end. -/
theorem not_ordered_overtaking :
    ∃ s, registryThreads.machine.exec registryThreads.machine.init overtakingRun = some s ∧
      ¬ Ordered s.shared.registry "agent-1" (eventsOf "agent-1" s.shared.received) := by
  obtain ⟨s, hrun, hreceived⟩ := Option.map_eq_some_iff.mp (show
    (registryThreads.machine.exec registryThreads.machine.init overtakingRun).map
      (fun s => (eventsOf "agent-1" s.shared.received).map fun event =>
        (event.isFinished, event.isProgress)) =
      some [(false, false), (true, false), (false, true)] by decide +kernel)
  refine ⟨s, hrun, fun hordered => ?_⟩
  obtain hnil | ⟨spawned, progress, finished, heq, -, hprogress, -⟩ := hordered
  · rw [hnil] at hreceived
    cases hreceived
  · rw [heq, List.map_cons, List.cons.injEq, List.map_append] at hreceived
    obtain ⟨-, hrest⟩ := hreceived
    cases progress with
    | nil =>
      -- the end would be two events
      have hlength := congrArg List.length hrest
      cases finished <;> simp at hlength
    | cons event progress =>
      -- the end would be progress
      rw [List.map_cons, List.cons_append, List.cons.injEq] at hrest
      have hnot := (Prod.mk.inj hrest.1).2
      rw [hprogress event List.mem_cons_self] at hnot
      cases hnot

end Goble.Subagents
