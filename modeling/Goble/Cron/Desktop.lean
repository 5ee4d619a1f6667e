import Goble.Cron.Expression
import Goble.Lib.Machine
import Mathlib.Data.List.Nodup

/-!
# The desktop's cron loop

`tickOnce` is one pass of the loop over the stored workflows. It keeps one time for each workflow,
the next occurrence it waits for, and decides with `plan` what to do about each.

What the loop is for is stated over the history of its ticks (`OncePerOccurrence`): a workflow
runs exactly if something has occurred since it last ran, was first seen, or was first seen with
its expression. The time kept does not say which expression it was computed from, and a workflow
that is due runs only if there is another occurrence to move to. So the loop does this along the
runs in which the time kept for an edited workflow is the next one of the new expression, and in
which no schedule ends (`Orderly`). There the time kept is the next occurrence after `since`
(`Agrees`), and what is due can be read off it.
-/

namespace Goble.Cron

structure WorkflowInfo where
  id : List Char
  trigger : Trigger
  enabled : Bool
deriving DecidableEq, Repr

/-- What `list_workflows` returns. The rows go through a map, so no id is listed twice. -/
structure Workflows where
  infos : List WorkflowInfo
  distinct : (infos.map WorkflowInfo.id).Nodup

structure Tick where
  now : DateTime
  workflows : Workflows

inductive Plan where
  | wait
  /-- First sight: adopt the next occurrence without firing. -/
  | seed (at' : DateTime)
  /-- Due now: fire, and move to the occurrence after `now`. -/
  | fire (at' : DateTime)
  | invalid (message : List Char)
deriving DecidableEq, Repr

variable (crate : CronCrate)

/-- The occurrence after `now`. The empty message says that there is none. -/
def advance (expression : List Char) (now : DateTime) : Except (List Char) DateTime :=
  match crate.nextAfter expression now with
  | .ok (some at') => .ok at'
  | .ok none => .error []
  | .error error => .error error.toString

/-- The decision for a schedule kept at `cached`. -/
def plan (expression : List Char) (now : DateTime) (cached : Option DateTime) : Plan :=
  match cached with
  | some at' =>
    if at' ≤ now then
      match advance crate expression now with
      | .ok next => .fire next
      | .error message => if message.isEmpty then .wait else .invalid message
    else .wait
  | none =>
    match advance crate expression now with
    | .ok next => .seed next
    | .error message => if message.isEmpty then .wait else .invalid message

structure Scheduler where
  next : List Char → Option DateTime
  warned : List Char → Bool

/-- A pass under way: the ids of the cron workflows so far, those it has run, and its warnings. -/
structure Pass extends Scheduler where
  live : List (List Char)
  ran : List (List Char)
  warnings : List (List Char × List Char)

namespace Pass

/-- What is done about an enabled cron workflow. -/
def carryOut (pass : Pass) (id : List Char) : Plan → Pass
  | .wait => pass
  | .seed at' => { pass with next := Function.update pass.next id (some at') }
  | .fire at' =>
    { pass with
      next := Function.update pass.next id (some at')
      warned := Function.update pass.warned id false
      ran := pass.ran ++ [id] }
  | .invalid message =>
    { pass with
      next := Function.update pass.next id none
      warned := Function.update pass.warned id true
      warnings := if pass.warned id then pass.warnings else pass.warnings ++ [(id, message)] }

def visit (now : DateTime) (pass : Pass) (info : WorkflowInfo) : Pass :=
  match info.trigger with
  | .cron expression =>
    let pass := { pass with live := pass.live ++ [info.id] }
    if info.enabled then
      pass.carryOut info.id (plan crate expression now (pass.next info.id))
    else { pass with next := Function.update pass.next info.id none }
  | _ => pass

end Pass

namespace Scheduler

def empty : Scheduler := ⟨fun _ => none, fun _ => false⟩

def tickOnce (s : Scheduler) (tick : Tick) : Pass :=
  let pass := tick.workflows.infos.foldl (Pass.visit crate tick.now) ⟨s, [], [], []⟩
  { pass with
    next := fun id => if id ∈ pass.live then pass.next id else none
    warned := fun id => pass.warned id && id ∈ pass.live }

end Scheduler

/-! ### What has to happen -/

def WorkflowInfo.scheduled (info : WorkflowInfo) : Option (List Char) :=
  match info.trigger with
  | .cron expression => if info.enabled then some expression else none
  | _ => none

def Workflows.seen (workflows : Workflows) (id : List Char) : Option (List Char) :=
  (workflows.infos.find? (·.id = id)).bind WorkflowInfo.scheduled

/-- A tick that has been, and what it has run. -/
structure Observation where
  tick : Tick
  ran : List (List Char)

namespace Observation

def now (o : Observation) : DateTime := o.tick.now

def seen (o : Observation) (id : List Char) : Option (List Char) := o.tick.workflows.seen id

end Observation

/-- The first of the ticks, from `now` back, that all were as `p` says. The newest is in front. -/
def streak (p : Observation → Bool) : List Observation → DateTime → DateTime
  | [], now => now
  | o :: past, now => if p o then streak p past o.now else now

def lastFiring (past : List Observation) (id : List Char) : Option DateTime :=
  (past.find? fun o => id ∈ o.ran).map Observation.now

/-- The tick that saw the workflow first, after it was last absent or disabled. -/
def firstSight (past : List Observation) (id : List Char) (now : DateTime) : DateTime :=
  streak (fun o => (o.seen id).isSome) past now

def firstSaw (past : List Observation) (id expression : List Char) (now : DateTime) : DateTime :=
  streak (fun o => o.seen id = some expression) past now

/-- From when on the occurrences of the expression count, at a tick at `now` that sees it. -/
def since (past : List Observation) (id expression : List Char) (now : DateTime) : DateTime :=
  let first := max (firstSight past id now) (firstSaw past id expression now)
  match lastFiring past id with
  | some fired => max fired first
  | none => first

/-- The tick has run, once, exactly the workflows for which something was due. -/
def Observation.OncePerOccurrence (o : Observation) (past : List Observation) : Prop :=
  ∀ id expression schedule, o.seen id = some expression →
    crate.parseCron expression = .ok schedule →
      let due := Due (CronCrate.Occurs schedule) (since past id expression o.now) o.now
      (due → o.ran.count id = 1) ∧ (¬ due → id ∉ o.ran)

/-- So did every tick of the history. -/
def OncePerOccurrence : List Observation → Prop
  | [] => True
  | o :: past => o.OncePerOccurrence crate past ∧ OncePerOccurrence past

/-! ### The machine of the ticks -/

/-- The scheduler, and the ticks that have been, the newest in front. -/
structure Loop where
  scheduler : Scheduler
  past : List Observation

namespace Loop

def init : Loop := ⟨.empty, []⟩

def lastSeen (s : Loop) (id : List Char) : Option (List Char) := s.past.head?.bind (·.seen id)

/-- A tick, at a time that is not before the last one. -/
def step (s : Loop) (tick : Tick) : Option Loop :=
  if ∀ o ∈ s.past.head?, o.now ≤ tick.now then
    let pass := s.scheduler.tickOnce crate tick
    some ⟨pass.toScheduler, ⟨tick, pass.ran⟩ :: s.past⟩
  else none

def Orderly (s : Loop) (tick : Tick) : Prop :=
  ∀ id expression schedule at', tick.workflows.seen id = some expression →
    crate.parseCron expression = .ok schedule → s.scheduler.next id = some at' →
      (s.lastSeen id ≠ some expression → crate.after schedule tick.now = some at') ∧
        (at' ≤ tick.now → (crate.after schedule tick.now).isSome)

end Loop

/-- The loop over every sequence of ticks and of lists that the ticks may find. -/
def desktop : Machine Loop Tick := ⟨.init, Loop.step crate⟩


/-! ### One pass, workflow by workflow -/

variable {crate}

namespace Plan

def kept (cached : Option DateTime) : Plan → Option DateTime
  | .wait => cached
  | .seed at' | .fire at' => some at'
  | .invalid _ => none

def fires : Plan → Bool
  | .fire _ => true
  | _ => false

end Plan

section Plan

variable {expression : List Char} {schedule : crate.Schedule} {now at' : DateTime}
  (h : crate.parseCron expression = .ok schedule)

include h

theorem advance_of_some (hafter : crate.after schedule now = some at') :
    advance crate expression now = .ok at' := by
  rw [advance, CronCrate.nextAfter_of_parse h, hafter]

theorem advance_of_none (hafter : crate.after schedule now = none) :
    advance crate expression now = .error [] := by
  rw [advance, CronCrate.nextAfter_of_parse h, hafter]

/-- Nothing is run at first sight, and the next occurrence is kept. -/
theorem plan_fresh : (plan crate expression now none).kept none = crate.after schedule now ∧
    (plan crate expression now none).fires = false := by
  rw [plan]
  cases hafter : crate.after schedule now with
  | none =>
    rw [advance_of_none h hafter]
    exact ⟨rfl, rfl⟩
  | some at' =>
    rw [advance_of_some h hafter]
    exact ⟨rfl, rfl⟩

theorem plan_due {next : DateTime} (hdue : at' ≤ now)
    (hafter : crate.after schedule now = some next) :
    plan crate expression now (some at') = .fire next := by
  rw [plan, if_pos hdue, advance_of_some h hafter]

omit h in
theorem plan_early (hearly : now < at') : plan crate expression now (some at') = .wait := by
  rw [plan, if_neg (not_le_of_gt hearly)]

end Plan

variable {info : WorkflowInfo}

namespace Pass

variable {id : List Char} {now : DateTime} {pass : Pass}

/-- A pass agrees with another on everything about one workflow. -/
structure SameFor (id : List Char) (p q : Pass) : Prop where
  next : p.next id = q.next id
  live : id ∈ p.live ↔ id ∈ q.live
  ran : p.ran.count id = q.ran.count id

theorem carryOut_of_ne {id' : List Char} (hne : id ≠ id') (decision : Plan) :
    SameFor id (pass.carryOut id' decision) pass := by
  cases decision with
  | wait => exact ⟨rfl, Iff.rfl, rfl⟩
  | seed at' => exact ⟨Function.update_of_ne hne _ _, Iff.rfl, rfl⟩
  | fire at' =>
    refine ⟨Function.update_of_ne hne _ _, Iff.rfl, ?_⟩
    show (pass.ran ++ [id']).count id = _
    rw [List.count_append, List.count_singleton, if_neg (by simpa using hne.symm), add_zero]
  | invalid message => exact ⟨Function.update_of_ne hne _ _, Iff.rfl, rfl⟩

theorem carryOut_self (decision : Plan) :
    (pass.carryOut id decision).next id = decision.kept (pass.next id) ∧
      (pass.carryOut id decision).ran.count id =
        pass.ran.count id + if decision.fires then 1 else 0 := by
  cases decision with
  | wait => exact ⟨rfl, rfl⟩
  | seed at' => exact ⟨Function.update_self _ _ _, rfl⟩
  | fire at' =>
    refine ⟨Function.update_self _ _ _, ?_⟩
    show (pass.ran ++ [id]).count id = _
    rw [List.count_append, List.count_singleton_self]
    rfl
  | invalid message => exact ⟨Function.update_self _ _ _, rfl⟩

theorem carryOut_live (id' : List Char) (decision : Plan) :
    (pass.carryOut id' decision).live = pass.live := by
  cases decision <;> rfl

/-- A workflow is left alone by what is done about the others. -/
theorem visit_of_ne (hne : id ≠ info.id) :
    SameFor id (pass.visit crate now info) pass := by
  have hlive : id ∈ pass.live ++ [info.id] ↔ id ∈ pass.live := by
    rw [List.mem_append, List.mem_singleton, or_iff_left hne]
  rw [visit]
  split
  · dsimp only
    split
    · obtain ⟨hnext, hlive', hran⟩ := carryOut_of_ne hne
        (plan crate _ now (pass.next info.id))
      exact ⟨hnext, hlive'.trans hlive, hran⟩
    · exact ⟨Function.update_of_ne hne _ _, hlive, rfl⟩
  · exact ⟨rfl, Iff.rfl, rfl⟩

theorem foldl_visit_of_ne {infos : List WorkflowInfo} (hne : id ∉ infos.map WorkflowInfo.id) :
    SameFor id (infos.foldl (Pass.visit crate now) pass) pass := by
  induction infos generalizing pass with
  | nil => exact ⟨rfl, Iff.rfl, rfl⟩
  | cons info infos ih =>
    rw [List.map_cons, List.mem_cons, not_or] at hne
    have hfirst : SameFor id (pass.visit crate now info) pass := visit_of_ne hne.1
    have hrest : SameFor id (infos.foldl (Pass.visit crate now) (pass.visit crate now info))
        (pass.visit crate now info) := ih hne.2
    exact ⟨hrest.next.trans hfirst.next, hrest.live.trans hfirst.live, hrest.ran.trans hfirst.ran⟩

/-- What is done about an enabled workflow with a cron trigger. -/
theorem visit_scheduled (crate : CronCrate) (now : DateTime) (pass : Pass) {expression : List Char}
    (h : info.scheduled = some expression) :
    let pass' := pass.visit crate now info
    let decision := plan crate expression now (pass.next info.id)
    pass'.next info.id = decision.kept (pass.next info.id) ∧ info.id ∈ pass'.live ∧
      pass'.ran.count info.id = pass.ran.count info.id + if decision.fires then 1 else 0 := by
  rw [WorkflowInfo.scheduled] at h
  dsimp only
  rw [visit]
  split at h
  · next expression' _ =>
    obtain ⟨henabled, rfl⟩ : info.enabled = true ∧ expression' = expression := by simpa using h
    dsimp only
    rw [if_pos henabled]
    obtain ⟨hnext, hran⟩ := carryOut_self
     
      (plan crate expression' now (pass.next info.id))
    refine ⟨hnext, ?_, hran⟩
    rw [carryOut_live]
    exact List.mem_append_right _ List.mem_cons_self
  · exact absurd h (by simp)

theorem visit_unscheduled (crate : CronCrate) (now : DateTime) (pass : Pass)
    (h : info.scheduled = none) (hlive : info.id ∉ pass.live) :
    let pass' := pass.visit crate now info
    (info.id ∈ pass'.live → pass'.next info.id = none) ∧
      pass'.ran.count info.id = pass.ran.count info.id := by
  rw [WorkflowInfo.scheduled] at h
  dsimp only
  rw [visit]
  split at h
  · next expression _ =>
    have hdisabled : info.enabled = false := by simpa using h
    dsimp only
    rw [if_neg (by simp [hdisabled])]
    exact ⟨fun _ => Function.update_self _ _ _, rfl⟩
  · exact ⟨fun hmem => absurd hmem hlive, rfl⟩

end Pass

namespace Scheduler

variable {s : Scheduler} {tick : Tick} {id : List Char}

theorem exists_of_find? {infos : List WorkflowInfo} (h : infos.find? (·.id = id) = some info) :
    ∃ before after, infos = before ++ info :: after ∧ info.id = id := by
  obtain ⟨hid, before, after, rfl, -⟩ := List.find?_eq_some_iff_append.mp h
  exact ⟨before, after, rfl, by simpa using hid⟩

/-- What the pass does about one workflow is decided when its turn comes, and nothing before or
after concerns it. -/
theorem tickOnce_of_info (crate : CronCrate) (s : Scheduler)
    (h : tick.workflows.infos.find? (·.id = id) = some info) :
    ∃ pass : Pass, pass.next id = s.next id ∧ id ∉ pass.live ∧ pass.ran.count id = 0 ∧
      (s.tickOnce crate tick).next id =
        (if id ∈ (pass.visit crate tick.now info).live
          then (pass.visit crate tick.now info).next id else none) ∧
      (s.tickOnce crate tick).ran.count id = (pass.visit crate tick.now info).ran.count id := by
  obtain ⟨before, after, hinfos, rfl⟩ := exists_of_find? h
  have hdistinct := tick.workflows.distinct
  rw [hinfos, List.map_append, List.map_cons, List.nodup_append] at hdistinct
  obtain ⟨-, hafter, hapart⟩ := hdistinct
  have hbefore : info.id ∉ before.map WorkflowInfo.id := fun hmem =>
    hapart _ hmem _ List.mem_cons_self rfl
  have hafter : info.id ∉ after.map WorkflowInfo.id := (List.nodup_cons.mp hafter).1
  have hfirst : Pass.SameFor info.id (before.foldl (Pass.visit crate tick.now) ⟨s, [], [], []⟩)
      ⟨s, [], [], []⟩ := Pass.foldl_visit_of_ne hbefore
  refine ⟨before.foldl (Pass.visit crate tick.now) ⟨s, [], [], []⟩, hfirst.next, ?_, hfirst.ran, ?_⟩
  · rw [hfirst.live]
    exact List.not_mem_nil
  · have hrest (pass : Pass) : Pass.SameFor info.id
        (after.foldl (Pass.visit crate tick.now) pass) pass := Pass.foldl_visit_of_ne hafter
    rw [tickOnce, hinfos, List.foldl_append, List.foldl_cons]
    dsimp only
    rw [(hrest _).next]
    exact ⟨if_congr (hrest _).live rfl rfl, (hrest _).ran⟩

theorem tickOnce_of_seen (crate : CronCrate) (s : Scheduler) {expression : List Char}
    (h : tick.workflows.seen id = some expression) :
    let decision := plan crate expression tick.now (s.next id)
    (s.tickOnce crate tick).next id = decision.kept (s.next id) ∧
      (s.tickOnce crate tick).ran.count id = if decision.fires then 1 else 0 := by
  obtain ⟨info, hfind, hscheduled⟩ := Option.bind_eq_some_iff.mp h
  obtain ⟨pass, hnext, -, hran, hnext', hran'⟩ := tickOnce_of_info crate s hfind
  obtain ⟨-, -, -, rfl⟩ := exists_of_find? hfind
  obtain ⟨hkept, hlive, hcount⟩ := Pass.visit_scheduled crate tick.now pass hscheduled
  rw [hnext] at hkept hcount
  rw [hran, zero_add] at hcount
  rw [if_pos hlive] at hnext'
  exact ⟨hnext'.trans hkept, hran'.trans hcount⟩

/-- A workflow that a tick does not see is not run, and no time is kept for it. -/
theorem tickOnce_of_unseen (h : tick.workflows.seen id = none) :
    (s.tickOnce crate tick).next id = none ∧ (s.tickOnce crate tick).ran.count id = 0 := by
  cases hfind : tick.workflows.infos.find? (·.id = id) with
  | none =>
    have hnot : id ∉ tick.workflows.infos.map WorkflowInfo.id := by
      intro hmem
      obtain ⟨info, hinfo, hid⟩ := List.mem_map.mp hmem
      exact absurd hid (by simpa using List.find?_eq_none.mp hfind info hinfo)
    have hall : Pass.SameFor id
        (tick.workflows.infos.foldl (Pass.visit crate tick.now) ⟨s, [], [], []⟩) ⟨s, [], [], []⟩ :=
      Pass.foldl_visit_of_ne hnot
    refine ⟨if_neg ?_, hall.ran⟩
    rw [hall.live]
    exact List.not_mem_nil
  | some info =>
    have hscheduled : info.scheduled = none := by
      rw [Workflows.seen, hfind] at h
      exact h
    obtain ⟨pass, -, hlive, hran, hnext', hran'⟩ := tickOnce_of_info crate s hfind
    obtain ⟨-, -, -, rfl⟩ := exists_of_find? hfind
    obtain ⟨hlost, hcount⟩ := Pass.visit_unscheduled crate tick.now pass hscheduled hlive
    refine ⟨?_, hran'.trans (hcount.trans hran)⟩
    rw [hnext']
    split
    · next hmem => exact hlost hmem
    · rfl

end Scheduler

end Goble.Cron
