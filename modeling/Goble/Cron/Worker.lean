import Goble.Cron.Expression
import Goble.Lib.Machine
import Mathlib.Data.List.Nodup

/-!
# The worker's routines

A worker keeps its routines in a table and looks at all of them every few seconds. `startLoop` is
one pass of that loop. Routines come and go, and are paused, between the passes, and the agents
that a pass has started report back when they are done.

For a cron routine the pass asks the crate for the next occurrence, which is one after the present
time, and takes the routine to be due if that occurrence is before the time the pass has begun. The
present time is not before that. So no pass of any run starts a cron routine
(`not_mem_triggered_of_cron`), and a pass does what the schedules ask for exactly if nothing
is due (`triggers_iff_nothing_due`).
-/

namespace Goble.Cron

structure ScheduledTask where
  id : List Char
  agentId : List Char
  trigger : Trigger
  createdAt : DateTime
  enabled : Bool
  lastRunAt : Option DateTime
  lastStatus : Option (List Char)
deriving DecidableEq, Repr

/-- The table of the routines. The id is its primary key. -/
structure TaskStore where
  tasks : List ScheduledTask
  distinct : (tasks.map ScheduledTask.id).Nodup

namespace TaskStore

def empty : TaskStore := ⟨[], List.nodup_nil⟩

/-- What an update of some columns leaves of the rows. -/
def update (store : TaskStore) (id : List Char) (f : ScheduledTask → ScheduledTask)
    (hid : ∀ task, (f task).id = task.id) : TaskStore where
  tasks := store.tasks.map fun task => if task.id = id then f task else task
  distinct := by
    have hsame : (ScheduledTask.id ∘ fun task => if task.id = id then f task else task) =
        ScheduledTask.id := by
      funext task
      show (if task.id = id then f task else task).id = task.id
      split
      · exact hid task
      · rfl
    rw [List.map_map, hsame]
    exact store.distinct

/-- A row with the same id keeps its agent and the time it was created. -/
def insert (store : TaskStore) (task : ScheduledTask) : TaskStore :=
  if h : task.id ∈ store.tasks.map ScheduledTask.id then
    store.update task.id (fun row => { row with
      trigger := task.trigger
      enabled := task.enabled
      lastRunAt := task.lastRunAt
      lastStatus := task.lastStatus }) fun _ => rfl
  else
    { tasks := store.tasks ++ [task]
      distinct := by
        rw [List.map_append, List.map_singleton]
        exact List.Nodup.append store.distinct (List.nodup_singleton _)
          (List.disjoint_singleton.mpr h) }

/-- Records that a routine fired, or finished, with the given outcome. -/
def markRun (store : TaskStore) (id status : List Char) (at' : DateTime) : TaskStore :=
  store.update id (fun row => { row with lastRunAt := some at', lastStatus := some status })
    fun _ => rfl

def delete (store : TaskStore) (id : List Char) : TaskStore where
  tasks := store.tasks.filter (·.id ≠ id)
  distinct := store.distinct.sublist (List.filter_sublist.map _)

def enable (store : TaskStore) (id : List Char) (enabled : Bool) : TaskStore :=
  store.update id (fun row => { row with enabled }) fun _ => rfl

end TaskStore

inductive WorkerMessage where
  | agentLog (traceId stepId message : List Char)
  | routinesUpdated (routines : List ScheduledTask)
  | statusReport
deriving DecidableEq, Repr

/-- What a pass reads of the clocks for one routine, and whether the table takes its record. -/
structure Reading where
  /-- The present time, as `upcoming` reads it. -/
  present : DateTime
  /-- The instants, in nanoseconds: where a heartbeat is first met, asked about, and recorded. -/
  met : Nat
  asked : Nat
  beaten : Nat
  marked : Bool

structure RoutinePass where
  store : TaskStore
  lastHeartbeat : List Char → Option Nat
  /-- The routines whose agent was started, with the agent. -/
  triggered : List (List Char × List Char)
  emitted : List WorkerMessage

variable (crate : CronCrate)

namespace RoutinePass

def fire (pass : RoutinePass) (now : DateTime) (reading : Reading) (task : ScheduledTask) :
    RoutinePass :=
  { pass with
    store := if reading.marked then pass.store.markRun task.id "running".toList now else pass.store
    triggered := pass.triggered ++ [(task.id, task.agentId)] }

/-- The body of the loop over the routines, on a worker that is the leader. -/
def visit (now : DateTime) (clock : List Char → Reading) (pass : RoutinePass)
    (task : ScheduledTask) : RoutinePass :=
  let reading := clock task.id
  if !task.enabled then pass
  else match task.trigger with
    | .manual | .http _ => pass
    | .cron expression =>
      -- the expression as it is stored, with five fields if that is how it was written
      match crate.parse expression with
      | .error error =>
        { pass with emitted := pass.emitted ++ [.agentLog task.id "cron".toList
            ("invalid cron expression: ".toList ++ error)] }
      | .ok schedule =>
        match crate.after schedule reading.present with
        | some t => if t < now then pass.fire now reading task else pass
        | none => pass
    | .heartbeat intervalSeconds =>
      let last := (pass.lastHeartbeat task.id).getD reading.met
      let beats := fun instant => Function.update pass.lastHeartbeat task.id (some instant)
      if intervalSeconds * 1000000000 ≤ reading.asked - last then
        { pass with lastHeartbeat := beats reading.beaten }.fire now reading task
      else { pass with lastHeartbeat := beats last }

end RoutinePass

/-- One pass over the routines, on a worker that is the leader. -/
def startLoop (now : DateTime) (clock : List Char → Reading) (store : TaskStore)
    (lastHeartbeat : List Char → Option Nat) : RoutinePass :=
  let pass := store.tasks.foldl (RoutinePass.visit crate now clock) ⟨store, lastHeartbeat, [], []⟩
  { pass with emitted := pass.emitted ++ [.routinesUpdated pass.store.tasks, .statusReport] }

/-! ### The machine of the passes -/

/-- A pass that has been: from when to when, the routines it found, and what it has started. -/
structure Round where
  previous : DateTime
  now : DateTime
  tasks : List ScheduledTask
  triggered : List (List Char × List Char)

/-- The worker, with the time of the last pass and the passes that have been. -/
structure Routines where
  store : TaskStore
  lastHeartbeat : List Char → Option Nat
  last : DateTime
  rounds : List Round

inductive RoutineStep where
  | schedule (task : ScheduledTask)
  | cancelTask (id : List Char)
  | pauseTask (id : List Char) (enabled : Bool)
  | report (id status : List Char) (at' : DateTime)
  /-- The table cannot be read, and the pass is over. -/
  | unreadable (now : DateTime)
  | pass (now : DateTime) (clock : List Char → Reading)

namespace Routines

/-- A pass comes after the last one, and the clock goes forward during it. -/
def Forward (s : Routines) (now : DateTime) (clock : List Char → Reading) : Prop :=
  s.last < now ∧ ∀ task ∈ s.store.tasks, now ≤ (clock task.id).present

instance (s : Routines) (now : DateTime) (clock : List Char → Reading) :
    Decidable (s.Forward now clock) := inferInstanceAs (Decidable (_ ∧ _))

def step (s : Routines) : RoutineStep → Option Routines
  | .schedule task => some { s with store := s.store.insert task }
  | .cancelTask id => some { s with store := s.store.delete id }
  | .pauseTask id enabled => some { s with store := s.store.enable id enabled }
  | .report id status at' => some { s with store := s.store.markRun id status at' }
  | .unreadable now =>
    if s.last < now then
      some { s with last := now, rounds := ⟨s.last, now, s.store.tasks, []⟩ :: s.rounds }
    else none
  | .pass now clock =>
    if s.Forward now clock then
      let pass := startLoop crate now clock s.store s.lastHeartbeat
      some ⟨pass.store, pass.lastHeartbeat, now,
        ⟨s.last, now, s.store.tasks, pass.triggered⟩ :: s.rounds⟩
    else none

end Routines

def worker (start : DateTime) : Machine Routines RoutineStep where
  init := ⟨.empty, fun _ => none, start, []⟩
  step := Routines.step crate

variable {crate}

def ScheduledTask.Accepted (task : ScheduledTask) (schedule : crate.Schedule) : Prop :=
  task.enabled = true ∧
    ∃ expression, task.trigger = .cron expression ∧ crate.parseCron expression = .ok schedule

namespace Round

/-- Each of these is started once if it has occurred since the previous pass, and not otherwise. -/
def Triggers (crate : CronCrate) (round : Round) : Prop :=
  ∀ task ∈ round.tasks, ∀ schedule : crate.Schedule, task.Accepted schedule →
    let due := Due (CronCrate.Occurs schedule) round.previous round.now
    (due → round.triggered.count (task.id, task.agentId) = 1) ∧
      (¬ due → (task.id, task.agentId) ∉ round.triggered)

/-- None of these has occurred since the previous pass. -/
def NothingDue (crate : CronCrate) (round : Round) : Prop :=
  ∀ task ∈ round.tasks, ∀ schedule : crate.Schedule, task.Accepted schedule →
    ¬ Due (CronCrate.Occurs schedule) round.previous round.now

end Round

/-! ### No pass starts a cron routine -/

/-- No cron routine is among those that were started. -/
def Round.CronFree (round : Round) : Prop :=
  ∀ task ∈ round.tasks, ∀ expression, task.trigger = .cron expression →
    (task.id, task.agentId) ∉ round.triggered

theorem mem_triggered_visit (hcrate : crate.Lawful) {now : DateTime} {clock : List Char → Reading}
    {pass : RoutinePass} {task : ScheduledTask} (hclock : now ≤ (clock task.id).present)
    {key : List Char × List Char} (h : key ∈ (pass.visit crate now clock task).triggered) :
    key ∈ pass.triggered ∨
      key = (task.id, task.agentId) ∧ ∃ seconds, task.trigger = .heartbeat seconds := by
  rw [RoutinePass.visit] at h
  dsimp only at h
  split at h
  · exact .inl h
  split at h
  · exact .inl h
  · exact .inl h
  · split at h
    · exact .inl h
    · next schedule _ =>
      have hnext := hcrate schedule (clock task.id).present
      split at h
      · next t ht =>
        rw [ht] at hnext
        -- the next occurrence is after the present time, and that is not before `now`
        rw [if_neg (not_lt_of_ge (hclock.trans hnext.lt.le))] at h
        exact .inl h
      · exact .inl h
  · next seconds htrigger =>
    split at h
    · rcases List.mem_append.mp h with h | h
      · exact .inl h
      · exact .inr ⟨List.mem_singleton.mp h, seconds, htrigger⟩
    · exact .inl h

theorem mem_triggered_foldl (hcrate : crate.Lawful) {now : DateTime} {clock : List Char → Reading}
    {tasks : List ScheduledTask} (hclock : ∀ task ∈ tasks, now ≤ (clock task.id).present)
    {pass : RoutinePass} {key : List Char × List Char}
    (h : key ∈ (tasks.foldl (RoutinePass.visit crate now clock) pass).triggered) :
    key ∈ pass.triggered ∨ ∃ task ∈ tasks, key = (task.id, task.agentId) ∧
      ∃ seconds, task.trigger = .heartbeat seconds := by
  induction tasks generalizing pass with
  | nil => exact .inl h
  | cons task tasks ih =>
    rcases ih (fun task h => hclock task (List.mem_cons_of_mem _ h)) h with h | ⟨other, hother, h⟩
    · rcases mem_triggered_visit hcrate (hclock task List.mem_cons_self) h with h | h
      · exact .inl h
      · exact .inr ⟨task, List.mem_cons_self, h⟩
    · exact .inr ⟨other, List.mem_cons_of_mem _ hother, h⟩

theorem not_mem_triggered_of_cron (hcrate : crate.Lawful) {s : Routines} {now : DateTime}
    {clock : List Char → Reading} (h : s.Forward now clock) :
    Round.CronFree ⟨s.last, now, s.store.tasks,
      (startLoop crate now clock s.store s.lastHeartbeat).triggered⟩ := by
  intro task htask expression htrigger hmem
  rcases mem_triggered_foldl hcrate h.2 hmem with hnil | ⟨other, hother, hkey, seconds, hbeat⟩
  · exact absurd hnil List.not_mem_nil
  · -- the id is the key of the table, so the routine started is this one
    have hsame := List.inj_on_of_nodup_map s.store.distinct htask hother (congrArg Prod.fst hkey)
    rw [hsame, hbeat] at htrigger
    cases htrigger

/-- Where no cron routine is started, the pass is right exactly if none is due. -/
theorem Round.CronFree.triggers_iff {round : Round} (h : round.CronFree) :
    round.Triggers crate ↔ round.NothingDue crate := by
  constructor
  · intro htriggers task htask schedule haccepted hdue
    obtain ⟨-, expression, htrigger, -⟩ := id haccepted
    have hone := (htriggers task htask schedule haccepted).1 hdue
    exact h task htask expression htrigger (List.count_pos_iff.mp (hone ▸ Nat.one_pos))
  · intro hnothing task htask schedule haccepted
    obtain ⟨-, expression, htrigger, -⟩ := id haccepted
    exact ⟨fun hdue => absurd hdue (hnothing task htask schedule haccepted),
      fun _ => h task htask expression htrigger⟩

theorem rounds_step (hcrate : crate.Lawful) {s s' : Routines} {l : RoutineStep}
    (h : s.step crate l = some s') :
    s'.rounds = s.rounds ∨ ∃ round, s'.rounds = round :: s.rounds ∧ round.CronFree := by
  cases l with
  | schedule task => exact .inl (by obtain rfl := Option.some.inj h; rfl)
  | cancelTask id => exact .inl (by obtain rfl := Option.some.inj h; rfl)
  | pauseTask id enabled => exact .inl (by obtain rfl := Option.some.inj h; rfl)
  | report id status at' => exact .inl (by obtain rfl := Option.some.inj h; rfl)
  | unreadable now =>
    rw [Routines.step] at h
    split at h
    · obtain rfl := Option.some.inj h
      exact .inr ⟨_, rfl, fun _ _ _ _ => List.not_mem_nil⟩
    · exact absurd h (by simp)
  | pass now clock =>
    rw [Routines.step] at h
    split at h
    · next hforward =>
      obtain rfl := Option.some.inj h
      exact .inr ⟨_, rfl, not_mem_triggered_of_cron hcrate hforward⟩
    · exact absurd h (by simp)

/-- In every run, a pass starts what it has to exactly if nothing is due. -/
theorem triggers_iff_nothing_due (hcrate : crate.Lawful) {start : DateTime}
    {steps : List RoutineStep} {s : Routines}
    (hrun : (worker crate start).exec (worker crate start).init steps = some s) :
    ∀ round ∈ s.rounds, round.Triggers crate ↔ round.NothingDue crate := by
  suffices h : ∀ round ∈ s.rounds, round.CronFree from fun round hround =>
    (h round hround).triggers_iff
  refine Machine.invariant_of_step (M := worker crate start)
    (I := fun s => ∀ round ∈ s.rounds, round.CronFree) (fun _ h => absurd h List.not_mem_nil) ?_ hrun
  intro s l s' hs hstep
  rcases rounds_step hcrate hstep with hsame | ⟨round, hnew, hfree⟩
  · rw [hsame]
    exact hs
  · rw [hnew]
    exact List.forall_mem_cons.mpr ⟨hfree, hs⟩

/-! ### A routine for every five minutes -/

def still (now : DateTime) (_ : List Char) : Reading := ⟨now, 0, 0, 0, true⟩

/-- A routine with the seconds written out, and a pass before and after it is due. -/
def fiveMinutes : List RoutineStep :=
  [.schedule ⟨"r".toList, "a".toList, .cron "0 */5 * * * *".toList, 0, true, none, none⟩,
    .pass 299 (still 299), .pass 304 (still 304)]

/-- The first pass has nothing to do and does nothing, the second one misses an occurrence. -/
theorem triggers_five_minutes : ∃ s, (worker everyFew 0).exec (worker everyFew 0).init fiveMinutes =
    some s ∧ ∀ round ∈ s.rounds, round.Triggers everyFew ↔ round.NothingDue everyFew :=
  ⟨_, rfl, @triggers_iff_nothing_due _ everyFew_lawful 0 fiveMinutes _ rfl⟩

/-- The routine is due after five minutes, and is not started. -/
theorem not_triggers : ¬ ∀ (crate : CronCrate), crate.Lawful →
    ∀ (start : DateTime) (steps : List RoutineStep) (s : Routines),
      (worker crate start).exec (worker crate start).init steps = some s →
        ∀ round ∈ s.rounds, round.Triggers crate := by
  intro h
  have htriggers := h everyFew everyFew_lawful 0 fiveMinutes _ rfl _ List.mem_cons_self
    _ List.mem_cons_self ⟨300, by decide⟩ ⟨rfl, _, rfl, rfl⟩
  have hdue : Due (@CronCrate.Occurs everyFew ⟨300, by decide⟩) 299 304 :=
    ⟨300, ⟨0, rfl⟩, by decide, by decide⟩
  exact absurd (htriggers.1 hdue) (by decide)

end Goble.Cron
