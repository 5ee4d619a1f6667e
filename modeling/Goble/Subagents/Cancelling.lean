import Goble.Subagents.Lifecycle

/-!
# Which children a kill reaches

A kill ends the records it finds below the child it is asked for, and walks on from those only.
Children that are spawned later have a stop bit of their own; the one bit they share is the
turn's.

* `Reaching` — nothing live is below a record that has ended, when a child is killed; and nothing
  is spawned below a child that has been killed, unless the turn has been stopped and the kill
  has returned;
* `stops_of_run` — along every run of such steps, from any registry, a kill stops all that its
  children spawn. Whatever the registry, it leaves all others as they are.
-/

namespace Goble.Subagents

/-- Why a child stops when its turn does. -/
def parentCancelReason : String := "cancelled by the parent agent"

/-- The reason to stop, while the child must not spend another action. -/
def ChildCancel.signal (cancel : ChildCancel) (parent : Bool) : Option String :=
  if cancel.own then some (cancel.reason.getD parentCancelReason)
  else if parent then some parentCancelReason
  else none

theorem ChildCancel.signal_of_parent (cancel : ChildCancel) :
    (cancel.signal true).isSome = true := by
  unfold signal
  split <;> rfl

/-- The child itself, and what it and those below it have spawned. -/
inductive Below (registry : Registry) (k : String) : String → Prop
  | self {entry : ChildEntry} (hfind : registry.find k = some entry) : Below registry k k
  | child {p c : String} {entry : ChildEntry} (hp : Below registry k p)
    (hfind : registry.find c = some entry) (hparent : entry.parent = p) : Below registry k c

/-- The child's record has ended. -/
def Done (registry : Registry) (c : String) : Prop :=
  ∃ entry, registry.find c = some entry ∧ entry.isTerminal = true

/-- The children of a turn, its stop bit, and the kills there have been. -/
structure KillState where
  registry : Registry
  parentCancel : Bool
  /-- The children ended by each call that has yet to return. -/
  killing : List (List String)
  /-- The children ended by calls that have returned, with how many there were by then. -/
  killed : List (String × Nat)

inductive KillStep where
  | register (record : SubAgentRecord)
  | publish (record : SubAgentRecord) (now : Int)
  | cancel (id reason : String) (now : Int)
  | stop
  | cancelAll (reason : String) (now : Int)
  | returns (index : Nat)
deriving DecidableEq, Repr

/-- A step. Ids are drawn at random, so a new child is nobody's spawner yet; a child writes its
own record, whose spec is the one it was registered with; and every child is killed only when the
turn's bit has been set. -/
def KillStep.apply (s : KillState) : KillStep → Option KillState
  | .register record =>
    if (s.registry.children.all fun entry => entry.parent != record.spec.id) = true then
      some { s with registry := (s.registry.register record .new).1 }
    else none
  | .publish record now =>
    if ((s.registry.find record.spec.id).all fun entry => entry.record.spec == record.spec) = true
    then some { s with registry := (s.registry.publish record now).1 }
    else none
  | .cancel id reason now =>
    some { s with
      registry := (s.registry.cancel id reason now).1
      killing := s.killing ++ [(s.registry.cancel id reason now).2.map (·.spec.id)] }
  | .stop => some { s with parentCancel := true }
  | .cancelAll reason now =>
    if s.parentCancel = true then
      some { s with
        registry := (s.registry.cancelAll reason now).1
        killing := s.killing ++ [(s.registry.cancelAll reason now).2.map (·.spec.id)] }
    else none
  | .returns index =>
    (s.killing[index]?).map fun ids =>
      { s with
        killing := s.killing.eraseIdx index
        killed := s.killed ++ ids.map fun id => (id, s.registry.children.length) }

def KillState.start (registry : Registry) : KillState := ⟨registry, false, [], []⟩

def killMachine : Machine KillState KillStep := ⟨.start .empty, KillStep.apply⟩

/-- What a kill owes a child below one that it ended, when it has returned with so many children
registered: the child's record has ended, or the child came later and is told to stop. -/
def Stops (s : KillState) (n : Nat) (d : String) : Prop :=
  ∃ entry, s.registry.find d = some entry ∧
    (entry.isTerminal = true ∨ d ∉ (s.registry.children.take n).map ChildEntry.id ∧
      (entry.cancel.signal s.parentCancel).isSome = true)

def Reaching (s : KillState) : KillStep → Prop
  | .cancel id _ _ =>
    ∀ entry, s.registry.find id = some entry → entry.isTerminal = false →
      ∀ d entry', Below s.registry id d → s.registry.find d = some entry' →
        entry'.isTerminal = false → Registry.Reached s.registry id d
  | .register record =>
    (∀ ids ∈ s.killing, ∀ k ∈ ids, ¬ Below s.registry k record.spec.parentChatId) ∧
      (s.parentCancel = true ∨
        ∀ kill ∈ s.killed, ¬ Below s.registry kill.1 record.spec.parentChatId)
  | _ => True

/-! ### What the steps keep -/

structure Keeps (registry registry' : Registry) : Prop where
  ids : registry'.children.map ChildEntry.id = registry.children.map ChildEntry.id
  parents : ∀ c, (registry'.find c).map ChildEntry.parent =
    (registry.find c).map ChildEntry.parent
  done : ∀ c, Done registry c → Done registry' c

theorem Keeps.refl (registry : Registry) : Keeps registry registry :=
  ⟨rfl, fun _ => rfl, fun _ => id⟩

variable {registry : Registry} {d : String}

theorem Keeps.below {registry' : Registry} (h : Keeps registry registry') {k : String}
    (hbelow : Below registry' k d) : Below registry k d := by
  have hback : ∀ {c : String} {entry' : ChildEntry}, registry'.find c = some entry' →
      ∃ entry, registry.find c = some entry ∧ entry.parent = entry'.parent := by
    intro c entry' hfind'
    have hparents := h.parents c
    rw [hfind', Option.map_some] at hparents
    exact Option.map_eq_some_iff.mp hparents.symm
  induction hbelow with
  | self hfind' =>
    obtain ⟨entry, hfind, -⟩ := hback hfind'
    exact .self hfind
  | child _ hfind' hparent ih =>
    obtain ⟨entry, hfind, hsame⟩ := hback hfind'
    exact .child ih hfind (hsame.trans hparent)

theorem Registry.Kills.keeps {reason : String} {now : Int} {registry' : Registry}
    {ended : List SubAgentRecord} (h : Kills reason now registry registry' ended) :
    Keeps registry registry' := by
  refine ⟨h.ids, fun c => ?_, fun c ⟨entry, hfind, hterminal⟩ =>
    ⟨entry, h.find_of_terminal hfind hterminal, hterminal⟩⟩
  obtain ⟨hsame, -⟩ | ⟨entry, hfind, -, hkilled, -⟩ := h.find_cases c
  · rw [hsame]
  · rw [hkilled, hfind, Option.map_some, Option.map_some, entry.kill_parent]

theorem Registry.keeps_publish {record : SubAgentRecord}
    (hown : ((registry.find record.spec.id).all fun entry => entry.record.spec == record.spec) =
      true) (now : Int) : Keeps registry (registry.publish record now).1 := by
  unfold publish
  split
  · exact .refl registry
  · next entry hfind =>
    split
    · exact .refl registry
    · next hlive =>
      have hspec : entry.record.spec = record.spec := by
        rw [hfind, Option.all_some, beq_iff_eq] at hown
        exact hown
      have hwritten : entry.writeRecord record = { entry with record } :=
        if_pos (mem_of_find hfind).2
      have hfind' : ∀ c, (registry.update record.spec.id (fun e => e.writeRecord record)
          fun e => e.writeRecord_id record).find c =
            if c = record.spec.id then some { entry with record } else registry.find c := by
        intro c
        rw [find_update]
        by_cases hc : c = record.spec.id
        · rw [if_pos hc, if_pos hc, hc, hfind, Option.map_some, hwritten]
        · rw [if_neg hc, if_neg hc]
      refine ⟨?_, fun c => ?_, ?_⟩
      · rw [update, List.map_map]
        refine List.map_congr_left fun e _ => ?_
        rw [Function.comp_apply]
        split
        · exact e.writeRecord_id record
        · rfl
      · rw [hfind']
        by_cases hc : c = record.spec.id
        · rw [if_pos hc, hc, hfind, Option.map_some, Option.map_some, ChildEntry.parent,
            ChildEntry.parent, hspec]
        · rw [if_neg hc]
      · rintro c ⟨entry', hfindc, hterminal⟩
        refine ⟨entry', ?_, hterminal⟩
        have hc : c ≠ record.spec.id := by
          rintro rfl
          obtain rfl := Option.some.inj (hfind.symm.trans hfindc)
          exact hlive hterminal
        rw [hfind', if_neg hc, hfindc]

theorem below_push {entry : ChildEntry} (h : registry.find entry.id = none) {k : String}
    (hfresh : ∀ other ∈ registry.children, other.parent ≠ entry.id)
    (hk : (registry.find k).isSome = true) (hbelow : Below (registry.push entry h) k d) :
    Below registry k d ∨ d = entry.id ∧ Below registry k entry.parent := by
  induction hbelow with
  | self =>
    obtain ⟨entry', hfind⟩ := Option.isSome_iff_exists.mp hk
    exact .inl (.self hfind)
  | @child p c other hp hfind hparent ih =>
    rw [Registry.find_push] at hfind
    by_cases hc : c = entry.id
    · rw [if_pos hc] at hfind
      obtain rfl := Option.some.inj hfind
      refine .inr ⟨hc, ?_⟩
      obtain hbelow | ⟨-, hbelow⟩ := ih
      · exact hparent ▸ hbelow
      · exact hbelow
    · rw [if_neg hc] at hfind
      obtain hbelow | ⟨hp', -⟩ := ih
      · exact .inl (.child hbelow hfind hparent)
      · exact absurd (hparent.trans hp') (hfresh other (Registry.mem_of_find hfind).1)

theorem Keeps.isSome {registry' : Registry} (h : Keeps registry registry') {c : String}
    (hc : (registry.find c).isSome = true) : (registry'.find c).isSome = true := by
  rw [← Option.isSome_map (f := ChildEntry.parent), h.parents c, Option.isSome_map]
  exact hc

/-! ### What a kill has done so far -/

/-- Below what a call has ended, all has ended until it returns; and then what came later is told
to stop by the turn's bit. -/
structure Stopping (s : KillState) : Prop where
  killing : ∀ ids ∈ s.killing, ∀ k ∈ ids,
    (s.registry.find k).isSome = true ∧ ∀ d, Below s.registry k d → Done s.registry d
  killed : ∀ kill ∈ s.killed, (s.registry.find kill.1).isSome = true ∧
    kill.2 ≤ s.registry.children.length ∧ ∀ d, Below s.registry kill.1 d → Done s.registry d ∨
      d ∉ (s.registry.children.take kill.2).map ChildEntry.id ∧ s.parentCancel = true

namespace Stopping

variable {s : KillState} {registry' : Registry}

theorem start (registry : Registry) : Stopping (.start registry) :=
  ⟨fun _ h => absurd h List.not_mem_nil, fun _ h => absurd h List.not_mem_nil⟩

theorem keeps (h : Stopping s) (hkeeps : Keeps s.registry registry') :
    Stopping { s with registry := registry' } where
  killing ids hids k hk := by
    obtain ⟨hsome, hdone⟩ := h.killing ids hids k hk
    exact ⟨hkeeps.isSome hsome, fun d hd => hkeeps.done d (hdone d (hkeeps.below hd))⟩
  killed kill hkill := by
    obtain ⟨hsome, hle, hdone⟩ := h.killed kill hkill
    have hlength := congrArg List.length hkeeps.ids
    rw [List.length_map, List.length_map] at hlength
    refine ⟨hkeeps.isSome hsome, hlength ▸ hle, fun d hd => ?_⟩
    refine (hdone d (hkeeps.below hd)).imp (hkeeps.done d) fun ⟨hlate, hbit⟩ => ⟨?_, hbit⟩
    rw [List.map_take, hkeeps.ids, ← List.map_take]
    exact hlate

/-- The children a call has ended join, when all below them has ended. -/
theorem kill (h : Stopping s) {ids : List String}
    (hids : ∀ k ∈ ids, (s.registry.find k).isSome = true ∧
      ∀ d, Below s.registry k d → Done s.registry d) :
    Stopping { s with killing := s.killing ++ [ids] } where
  killing := List.forall_mem_append.mpr ⟨h.killing, List.forall_mem_singleton.mpr hids⟩
  killed := h.killed

/-- A new child: nothing that is being killed is above it, and what has been killed is above it
only when the turn has been stopped. -/
theorem push (h : Stopping s) {entry : ChildEntry} (hnone : s.registry.find entry.id = none)
    (hfresh : ∀ other ∈ s.registry.children, other.parent ≠ entry.id)
    (hkilling : ∀ ids ∈ s.killing, ∀ k ∈ ids, ¬ Below s.registry k entry.parent)
    (hkilled : s.parentCancel = true ∨ ∀ kill ∈ s.killed, ¬ Below s.registry kill.1 entry.parent) :
    Stopping { s with registry := s.registry.push entry hnone } := by
  have hfind : ∀ {c : String} {other : ChildEntry}, s.registry.find c = some other →
      (s.registry.push entry hnone).find c = some other := by
    intro c other hc
    have hne : c ≠ entry.id := by
      rintro rfl
      exact absurd (hnone.symm.trans hc) (by simp)
    rw [Registry.find_push, if_neg hne, hc]
  have hsome : ∀ {c : String}, (s.registry.find c).isSome = true →
      ((s.registry.push entry hnone).find c).isSome = true := by
    intro c hc
    obtain ⟨other, hother⟩ := Option.isSome_iff_exists.mp hc
    rw [hfind hother]
    rfl
  have hdone : ∀ {d : String}, Done s.registry d → Done (s.registry.push entry hnone) d :=
    fun ⟨other, hother, hterminal⟩ => ⟨other, hfind hother, hterminal⟩
  refine ⟨fun ids hids k hk => ?_, fun kill hkill => ?_⟩
  · obtain ⟨hk', hbelow⟩ := h.killing ids hids k hk
    refine ⟨hsome hk', fun d hd => ?_⟩
    obtain hd | ⟨-, hparent⟩ := below_push hnone hfresh hk' hd
    · exact hdone (hbelow d hd)
    · exact absurd hparent (hkilling ids hids k hk)
  · obtain ⟨hk', hle, hbelow⟩ := h.killed kill hkill
    have htake : (s.registry.push entry hnone).children.take kill.2 =
        s.registry.children.take kill.2 := List.take_append_of_le_length hle
    refine ⟨hsome hk', ?_, fun d hd => ?_⟩
    · exact Nat.le_trans hle (by simp [Registry.push])
    · rw [htake]
      obtain hd | ⟨rfl, hparent⟩ := below_push hnone hfresh hk' hd
      · exact (hbelow d hd).imp_left hdone
      · refine .inr ⟨fun hmem => ?_, hkilled.resolve_right fun hno => hno kill hkill hparent⟩
        -- the new child was not among the first
        obtain ⟨other, hother, hid⟩ := List.mem_map.mp hmem
        have hfound := Registry.find_eq_some.mpr ⟨List.mem_of_mem_take hother, hid⟩
        exact absurd (hnone.symm.trans hfound) (by simp)

end Stopping

variable {id : String}

/-- A chain of live records is a chain. -/
theorem Registry.Reached.toBelow (h : Reached registry id d) : Below registry id d := by
  induction h with
  | self hfind _ => exact .self hfind
  | child _ hfind hparent _ ih => exact .child ih hfind hparent

/-- The chain begins at a live child. -/
theorem Registry.Reached.root (h : Reached registry id d) :
    ∃ entry, registry.find id = some entry ∧ entry.isTerminal = false := by
  induction h with
  | self hfind hlive => exact ⟨_, hfind, hlive⟩
  | child _ _ _ _ ih => exact ih

theorem Below.trans {k c : String} (h : Below registry k c) (h' : Below registry c d) :
    Below registry k d := by
  induction h' with
  | self _ => exact h
  | child _ hfind hparent ih => exact .child ih hfind hparent

theorem Registry.Walk.done_of_reached {reason : String} {now : Int}
    {walked : Registry × List SubAgentRecord} (h : Walk reason now registry id walked)
    (hd : Reached registry id d) : Done walked.1 d := by
  have hended : ∀ {c : String} {entry : ChildEntry}, registry.find c = some entry →
      entry.isTerminal = false → (∀ entry', walked.1.find c = some entry' →
        entry'.isTerminal = true) → c ∈ walked.2.map (·.spec.id) := by
    intro c entry hfind hlive hterminal
    obtain ⟨hsame, -⟩ | ⟨-, -, -, -, hc⟩ := h.kills.find_cases c
    · exact absurd (hlive.symm.trans (hterminal entry (hsame.trans hfind))) (by simp)
    · exact hc
  have hmem : d ∈ walked.2.map (·.spec.id) := by
    induction hd with
    | self hfind hlive => exact hended hfind hlive h.done
    | child _ hfind hparent hlive ih =>
      obtain ⟨record, hrecord, hid⟩ := List.mem_map.mp ih
      refine hended hfind hlive fun entry' hfind' => ?_
      obtain ⟨entry, hfind'', hsame, -⟩ := h.kills.find_some hfind'
      obtain rfl := Option.some.inj (hfind''.symm.trans hfind)
      exact h.closed record hrecord _ entry' hfind' (hsame.symm.trans (hparent.trans hid.symm))
  obtain ⟨record, hrecord, rfl⟩ := List.mem_map.mp hmem
  obtain ⟨entry, -, -, -, hfind⟩ := h.kills.killed record hrecord
  exact ⟨_, hfind, entry.kill_isTerminal reason now⟩

/-- **A kill leaves what is not below it alone.** -/
theorem Registry.find_cancel_of_not_below {c : String} (reason : String) (now : Int)
    (h : ¬ Below registry id c) :
    (registry.cancel id reason now).1.find c = registry.find c := by
  have hwalk := registry.walk_cancel id reason now
  refine hwalk.kills.same c fun hmem => h ?_
  obtain ⟨record, hrecord, rfl⟩ := List.mem_map.mp hmem
  exact (hwalk.reached record hrecord).toBelow

theorem Stopping.step {s s' : KillState} {l : KillStep} (h : Stopping s) (hreach : Reaching s l)
    (hstep : killMachine.step s l = some s') : Stopping s' := by
  change l.apply s = some s' at hstep
  cases l with
  | register record =>
    obtain ⟨hfresh, hsome⟩ := Option.ite_none_right_eq_some.mp hstep
    obtain rfl := Option.some.inj hsome
    rw [List.all_eq_true] at hfresh
    unfold Registry.register
    split
    · next hnone =>
      have hnone' : s.registry.find (ChildEntry.id ⟨record, .new, .new⟩) = none := hnone
      exact h.push hnone' (fun other hother => by simpa [ChildEntry.id] using hfresh other hother)
        hreach.1 hreach.2
    · exact h
  | publish record now =>
    obtain ⟨hown, hsome⟩ := Option.ite_none_right_eq_some.mp hstep
    obtain rfl := Option.some.inj hsome
    exact h.keeps (Registry.keeps_publish hown now)
  | cancel id reason now =>
    obtain rfl := Option.some.inj hstep
    have hwalk := s.registry.walk_cancel id reason now
    refine (h.keeps hwalk.kills.keeps).kill fun k hk => ?_
    obtain ⟨record, hrecord, rfl⟩ := List.mem_map.mp hk
    have hreached := hwalk.reached record hrecord
    obtain ⟨entry, -, -, -, hfind⟩ := hwalk.kills.killed record hrecord
    refine ⟨by rw [hfind]; rfl, fun d hd => ?_⟩
    have hd' := hreached.toBelow.trans (hwalk.kills.keeps.below hd)
    obtain ⟨entryd, hfindd⟩ : ∃ entryd, s.registry.find d = some entryd := by
      cases hd' with
      | self hfind => exact ⟨_, hfind⟩
      | child _ hfind _ => exact ⟨_, hfind⟩
    by_cases hterminal : entryd.isTerminal = true
    · exact hwalk.kills.keeps.done d ⟨entryd, hfindd, hterminal⟩
    · -- a live one is reached
      obtain ⟨entry', hfind', hlive'⟩ := hreached.root
      exact hwalk.done_of_reached (hreach entry' hfind' hlive' d entryd hd' hfindd
        (Bool.eq_false_iff.mpr hterminal))
  | stop =>
    obtain rfl := Option.some.inj hstep
    refine ⟨h.killing, fun kill hkill => ?_⟩
    obtain ⟨hsome, hle, hdone⟩ := h.killed kill hkill
    exact ⟨hsome, hle, fun d hd => (hdone d hd).imp_right fun hlate => ⟨hlate.1, rfl⟩⟩
  | cancelAll reason now =>
    obtain ⟨-, hsome⟩ := Option.ite_none_right_eq_some.mp hstep
    obtain rfl := Option.some.inj hsome
    obtain ⟨hkills, hdone⟩ := s.registry.kills_cancelAll reason now
    refine (h.keeps hkills.keeps).kill fun k hk => ?_
    obtain ⟨record, hrecord, rfl⟩ := List.mem_map.mp hk
    obtain ⟨entry, -, -, -, hfind⟩ := hkills.killed record hrecord
    refine ⟨by rw [hfind]; rfl, fun d hd => ?_⟩
    cases hd with
    | self hfind => exact ⟨_, hfind, hdone _ _ hfind⟩
    | child _ hfind _ => exact ⟨_, hfind, hdone _ _ hfind⟩
  | returns index =>
    obtain ⟨ids, hids, rfl⟩ := Option.map_eq_some_iff.mp hstep
    refine ⟨fun other hother => h.killing other (List.mem_of_mem_eraseIdx hother),
      List.forall_mem_append.mpr ⟨h.killed, fun kill hkill => ?_⟩⟩
    obtain ⟨k, hk, rfl⟩ := List.mem_map.mp hkill
    obtain ⟨hsome, hdone⟩ := h.killing ids (List.mem_of_getElem? hids) k hk
    exact ⟨hsome, Nat.le_refl _, fun d hd => .inl (hdone d hd)⟩

/-- **What a kill reaches.** Along every run, from any registry, in which no child is killed that
has a live one below an ended one, and none is spawned below one that has been killed, or after
the turn has been stopped below one whose kill has not returned: when a kill has returned, all that
its children have spawned has ended, and what they spawn later is told to stop. Whatever the
registry, a kill leaves the children alone that are not below the one it is asked for. -/
theorem stops_of_run {registry : Registry} {run : List KillStep} {s : KillState}
    (hreach : killMachine.Along Reaching (.start registry) run)
    (hrun : killMachine.exec (.start registry) run = some s) :
    (∀ kill ∈ s.killed, ∀ d, Below s.registry kill.1 d → Stops s kill.2 d) ∧
      ∀ id reason now c, ¬ Below s.registry id c →
        (s.registry.cancel id reason now).1.find c = s.registry.find c := by
  have hstopping : Stopping s :=
    Machine.exec_invariant (fun _ _ _ h hl hstep => h.step hl hstep) (Stopping.start registry)
      hreach hrun
  refine ⟨fun kill hkill d hd => ?_, fun id reason now c hc =>
    Registry.find_cancel_of_not_below reason now hc⟩
  obtain ⟨-, -, hdone⟩ := hstopping.killed kill hkill
  obtain ⟨entry, hfind, hterminal⟩ | ⟨hlate, hbit⟩ := hdone d hd
  · exact ⟨entry, hfind, .inl hterminal⟩
  · obtain ⟨entry, hfind⟩ : ∃ entry, s.registry.find d = some entry := by
      cases hd with
      | self hfind => exact ⟨_, hfind⟩
      | child _ hfind _ => exact ⟨_, hfind⟩
    exact ⟨entry, hfind, .inr ⟨hlate, hbit ▸ entry.cancel.signal_of_parent⟩⟩

/-- While every child is live and none has been killed, every step meets the condition. -/
theorem reaching_of_live {s : KillState} {l : KillStep}
    (hlive : (s.registry.children.all fun entry => !entry.isTerminal) = true)
    (hkilling : s.killing = []) (hkilled : s.killed = []) : Reaching s l := by
  rw [List.all_eq_true] at hlive
  have hall : ∀ {c : String} {entry : ChildEntry}, s.registry.find c = some entry →
      entry.isTerminal = false := by
    intro c entry hfind
    simpa using hlive entry (Registry.mem_of_find hfind).1
  cases l with
  | register record =>
    refine ⟨?_, .inr ?_⟩
    · rw [hkilling]
      exact fun _ h => absurd h List.not_mem_nil
    · rw [hkilled]
      exact fun _ h => absurd h List.not_mem_nil
  | cancel id reason now =>
    intro entry hfind hentry d entry' hd hfind' hlive'
    clear hfind' hlive'
    induction hd with
    | self hfind => exact .self hfind (hall hfind)
    | child _ hfindc hparent ih => exact .child ih hfindc hparent (hall hfindc)
  | publish | stop | cancelAll | returns => trivial

/-- A child of another, running. -/
def spawnedBy (id parent : String) : SubAgentRecord :=
  ⟨⟨id, parent, "call", "review it", "general", true⟩, .running 0 0 0 "", 0, none⟩

def killRun : List KillStep :=
  [.register (spawnedBy "a" "chat"), .register (spawnedBy "b" "a"), .cancel "a" "stopped" 1,
    .returns 0]

/-- Both have ended. -/
theorem stops_of_run_two :
    ∃ s, killMachine.exec (.start .empty) killRun = some s ∧ ("a", 2) ∈ s.killed ∧
      Below s.registry "a" "b" ∧ Stops s 2 "b" := by
  obtain ⟨s, hrun, hs⟩ := Option.map_eq_some_iff.mp (show
    (killMachine.exec (.start .empty) killRun).map (fun s =>
      (s.killed, (s.registry.find "a").isSome, (s.registry.find "b").map ChildEntry.parent)) =
        some ([("a", 2), ("b", 2)], true, some "a") by decide +kernel)
  obtain ⟨hkilled, hrest⟩ := Prod.mk.inj hs
  obtain ⟨ha, hb⟩ := Prod.mk.inj hrest
  obtain ⟨entry, hfind⟩ := Option.isSome_iff_exists.mp ha
  obtain ⟨entry', hfind', hparent⟩ := Option.map_eq_some_iff.mp hb
  have hbelow : Below s.registry "a" "b" := .child (.self hfind) hfind' hparent
  have hmem : ("a", 2) ∈ s.killed := hkilled ▸ List.mem_cons_self
  refine ⟨s, hrun, hmem, hbelow, (@stops_of_run .empty killRun s ?_ hrun).1 _ hmem "b" hbelow⟩
  have hquiet : killMachine.Along (fun s l => (l = .returns 0) ∨
      (s.registry.children.all fun entry => !entry.isTerminal) = true ∧ s.killing = [] ∧
        s.killed = []) (.start .empty) killRun := by decide +kernel
  refine hquiet.mono fun s l h => ?_
  obtain rfl | ⟨hlive, hkilling, hkilled⟩ := h
  · trivial
  · exact reaching_of_live hlive hkilling hkilled

/-- A child has spawned another in the background and completed. Then its own spawner is killed. -/
def orphanRun : List KillStep :=
  [.register (spawnedBy "a" "chat"), .register (spawnedBy "b" "a"),
    .register (spawnedBy "c" "b"),
    .publish { spawnedBy "b" "a" with status := .completed "done" 1 1 0 0, finishedAt := some 1 } 1,
    .cancel "a" "stopped" 2, .returns 0]

/-- The kill does not get to the third child: it stays live, and nothing tells it to stop. -/
theorem not_stops_orphan :
    ∃ s, killMachine.exec (.start .empty) orphanRun = some s ∧ ("a", 3) ∈ s.killed ∧
      Below s.registry "a" "c" ∧ ¬ Stops s 3 "c" := by
  obtain ⟨s, hrun, hs⟩ := Option.map_eq_some_iff.mp (show
    (killMachine.exec (.start .empty) orphanRun).map (fun s =>
      (s.killed, (s.registry.find "a").isSome, (s.registry.find "b").map ChildEntry.parent,
        (s.registry.find "c").map fun entry =>
          (entry.parent, entry.isTerminal || (entry.cancel.signal s.parentCancel).isSome))) =
        some ([("a", 3)], true, some "a", some ("b", false)) by decide +kernel)
  obtain ⟨hkilled, hrest⟩ := Prod.mk.inj hs
  obtain ⟨ha, hrest⟩ := Prod.mk.inj hrest
  obtain ⟨hb, hc⟩ := Prod.mk.inj hrest
  obtain ⟨entrya, hfinda⟩ := Option.isSome_iff_exists.mp ha
  obtain ⟨entryb, hfindb, hparentb⟩ := Option.map_eq_some_iff.mp hb
  obtain ⟨entryc, hfindc, hentry⟩ := Option.map_eq_some_iff.mp hc
  obtain ⟨hparentc, hentry⟩ := Prod.mk.inj hentry
  obtain ⟨hlive, hsignal⟩ := Bool.or_eq_false_iff.mp hentry
  refine ⟨s, hrun, hkilled ▸ List.mem_cons_self,
    .child (.child (.self hfinda) hfindb hparentb) hfindc hparentc, ?_⟩
  rintro ⟨entry, hfind, hstops⟩
  obtain rfl := Option.some.inj (hfindc.symm.trans hfind)
  rw [hlive, hsignal] at hstops
  simp at hstops

end Goble.Subagents
