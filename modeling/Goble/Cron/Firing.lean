import Goble.Cron.Desktop

/-!
# Desktop schedules fire once per occurrence

The invariant of the loop is `Agrees`: no time is kept for a workflow that the last tick has not
seen, and the one kept for a workflow that it has seen is the next occurrence, after `since`, of
the expression it was seen with. A tick that the condition admits reads off it what is due, and
`since` moves to the tick exactly if the workflow is run.
-/

namespace Goble.Cron

variable {crate : CronCrate}

/-! ### From when on occurrences count -/

section Since

variable {past : List Observation} {o : Observation} {id expression : List Char} {now : DateTime}

theorem streak_le {p : Observation → Bool} (h : ∀ o ∈ past, o.now ≤ now)
    (hpast : past.Pairwise fun o o' => o'.now ≤ o.now) : streak p past now ≤ now := by
  induction past generalizing now with
  | nil => exact le_rfl
  | cons o past ih =>
    rw [streak]
    split
    · obtain ⟨hold, hpast⟩ := List.pairwise_cons.mp hpast
      exact (ih hold hpast).trans (h o List.mem_cons_self)
    · exact le_rfl

theorem lastFiring_le (h : ∀ o ∈ past, o.now ≤ now) {fired : DateTime}
    (hfired : lastFiring past id = some fired) : fired ≤ now := by
  obtain ⟨o, ho, rfl⟩ := Option.map_eq_some_iff.mp hfired
  exact h o (List.mem_of_find?_eq_some ho)

theorem since_le (h : ∀ o ∈ past, o.now ≤ now)
    (hpast : past.Pairwise fun o o' => o'.now ≤ o.now) : since past id expression now ≤ now := by
  have hfirst : max (firstSight past id now) (firstSaw past id expression now) ≤ now :=
    max_le (streak_le h hpast) (streak_le h hpast)
  rw [since]
  split
  · next fired hfired => exact max_le (lastFiring_le h hfired) hfirst
  · exact hfirst

/-- A tick that sees a workflow or an expression for the first time counts from itself. -/
theorem since_of_new (h : ∀ o ∈ past, o.now ≤ now)
    (hpast : past.Pairwise fun o o' => o'.now ≤ o.now)
    (hnew : past.head?.bind (·.seen id) ≠ some expression) :
    since past id expression now = now := by
  have hsaw : firstSaw past id expression now = now := by
    rw [firstSaw]
    cases past with
    | nil => rfl
    | cons o past => exact if_neg (by simpa using hnew)
  have hmax : max (firstSight past id now) (firstSaw past id expression now) = now := by
    rw [hsaw]
    exact max_eq_right (streak_le h hpast)
  rw [since, hmax]
  split
  · next fired hfired => exact max_eq_right (lastFiring_le h hfired)
  · rfl

/-- A tick that sees the expression moves the start to itself if it runs the workflow, and leaves
it where it is if not. -/
theorem since_cons (hseen : o.seen id = some expression) (h : ∀ o' ∈ past, o'.now ≤ o.now)
    (hpast : past.Pairwise fun o o' => o'.now ≤ o.now) :
    since (o :: past) id expression now =
      if id ∈ o.ran then o.now else since past id expression o.now := by
  have hsight : firstSight (o :: past) id now = firstSight past id o.now := if_pos (by simp [hseen])
  have hsaw : firstSaw (o :: past) id expression now = firstSaw past id expression o.now :=
    if_pos (by simp [hseen])
  rw [since, hsight, hsaw]
  split_ifs with hran
  · have hfiring : lastFiring (o :: past) id = some o.now := by
      rw [lastFiring, List.find?_cons_of_pos (by simpa using hran)]
      rfl
    rw [hfiring]
    exact max_eq_left (max_le (streak_le h hpast) (streak_le h hpast))
  · have hfiring : lastFiring (o :: past) id = lastFiring past id := by
      rw [lastFiring, List.find?_cons_of_neg (by simpa using hran)]
      rfl
    rw [hfiring, since]

end Since

/-! ### The invariant -/

/-- The times kept belong to what the last tick has seen. -/
structure Agrees (crate : CronCrate) (s : Loop) : Prop where
  ordered : s.past.Pairwise fun o o' => o'.now ≤ o.now
  unseen : ∀ id, s.lastSeen id = none → s.scheduler.next id = none
  seen : ∀ id expression schedule now, s.lastSeen id = some expression →
    crate.parseCron expression = .ok schedule →
      IsNext (CronCrate.Occurs schedule) (since s.past id expression now) (s.scheduler.next id)

theorem agrees_init : Agrees crate .init where
  ordered := .nil
  unseen _ _ := rfl
  seen _ _ _ _ h _ := absurd h (by simp [Loop.lastSeen, Loop.init])

theorem step_cases {s s' : Loop} {tick : Tick} (h : s.step crate tick = some s') :
    (∀ o ∈ s.past.head?, o.now ≤ tick.now) ∧
      s' = ⟨(s.scheduler.tickOnce crate tick).toScheduler,
        ⟨tick, (s.scheduler.tickOnce crate tick).ran⟩ :: s.past⟩ := by
  rw [Loop.step] at h
  split at h
  · next hnow => exact ⟨hnow, (Option.some.inj h).symm⟩
  · exact absurd h (by simp)

theorem Agrees.le {s : Loop} (h : Agrees crate s) {now : DateTime}
    (hnow : ∀ o ∈ s.past.head?, o.now ≤ now) : ∀ o ∈ s.past, o.now ≤ now := by
  have hordered := h.ordered
  cases hpast : s.past with
  | nil => exact nofun
  | cons last past =>
    rw [hpast] at hnow hordered
    have hlast : last.now ≤ now := hnow last rfl
    intro o ho
    rcases List.mem_cons.mp ho with rfl | ho
    · exact hlast
    · exact ((List.pairwise_cons.mp hordered).1 o ho).trans hlast

/-- What a tick does about a workflow that it sees with a valid expression, and what the time it
keeps is then. -/
structure Served {crate : CronCrate} (schedule : crate.Schedule) (start now : DateTime)
    (count : Nat) (next : Option DateTime) : Prop where
  due : Due (CronCrate.Occurs schedule) start now → count = 1
  early : ¬ Due (CronCrate.Occurs schedule) start now → count = 0
  next : IsNext (CronCrate.Occurs schedule) (if 0 < count then now else start) next

section Serves

variable {expression : List Char} {schedule : crate.Schedule} {now start : DateTime}
  {cached : Option DateTime}

/-- A workflow for which no time is kept is not run. -/
theorem served_fresh (hcrate : crate.Lawful) (hparse : crate.parseCron expression = .ok schedule) :
    let decision := plan crate expression now none
    Served schedule now now (if decision.fires then 1 else 0) (decision.kept none) := by
  obtain ⟨hkept, hfires⟩ := plan_fresh hparse
  dsimp only
  rw [hfires, hkept]
  exact ⟨fun hdue => absurd hdue not_due_self, fun _ => rfl, hcrate schedule now⟩

/-- A workflow for which the next time of its expression is kept is run if that has come. -/
theorem served_cached (hcrate : crate.Lawful)
    (hparse : crate.parseCron expression = .ok schedule) (hle : start ≤ now)
    (hnext : IsNext (CronCrate.Occurs schedule) start cached)
    (hmore : ∀ at', cached = some at' → at' ≤ now → (crate.after schedule now).isSome) :
    let decision := plan crate expression now cached
    Served schedule start now (if decision.fires then 1 else 0) (decision.kept cached) := by
  cases cached with
  | none =>
    -- there is no occurrence any more, neither after `start` nor after `now`
    obtain ⟨hkept, hfires⟩ := plan_fresh hparse
    have hnone : crate.after schedule now = none :=
      (hcrate schedule now).unique (hnext.later hle hnext.not_due)
    dsimp only
    rw [hfires, hkept, hnone]
    exact ⟨fun hdue => absurd hdue hnext.not_due, fun _ => rfl, hnext⟩
  | some at' =>
    by_cases hdue : at' ≤ now
    · obtain ⟨next, hafter⟩ := Option.isSome_iff_exists.mp (hmore at' rfl hdue)
      dsimp only
      rw [plan_due hparse hdue hafter]
      refine ⟨fun _ => rfl, fun hnot => absurd (hnext.due_iff.mpr hdue) hnot, ?_⟩
      show IsNext _ now (some next)
      rw [← hafter]
      exact hcrate schedule now
    · have hearly : ¬ Due (CronCrate.Occurs schedule) start now := fun h => hdue (hnext.due_iff.mp h)
      dsimp only
      rw [plan_early (not_le.mp hdue)]
      exact ⟨fun h => absurd h hearly, fun _ => rfl, hnext⟩

end Serves

variable {s s' : Loop} {tick : Tick}

/-- One tick, one workflow: it is run if something is due, and the time kept is again the next. -/
theorem Agrees.served (hcrate : crate.Lawful) (h : Agrees crate s) (horderly : s.Orderly crate tick)
    (hnow : ∀ o ∈ s.past.head?, o.now ≤ tick.now) {id expression : List Char}
    {schedule : crate.Schedule} (hseen : tick.workflows.seen id = some expression)
    (hparse : crate.parseCron expression = .ok schedule) :
    Served schedule (since s.past id expression tick.now) tick.now
      ((s.scheduler.tickOnce crate tick).ran.count id) ((s.scheduler.tickOnce crate tick).next id) := by
  obtain ⟨hnext, hcount⟩ := Scheduler.tickOnce_of_seen crate s.scheduler hseen
  have hpast := h.le hnow
  rw [hnext, hcount]
  by_cases hlast : s.lastSeen id = some expression
  · exact served_cached hcrate hparse (since_le hpast h.ordered)
      (h.seen id expression schedule tick.now hlast hparse)
      fun at' hat => (horderly id expression schedule at' hseen hparse hat).2
  · -- first sight of the workflow or of the expression: occurrences count from this tick
    rw [since_of_new hpast h.ordered hlast]
    cases hcached : s.scheduler.next id with
    | none => exact served_fresh hcrate hparse
    | some at' =>
      obtain ⟨hedited, hmore⟩ := horderly id expression schedule at' hseen hparse hcached
      have hat : IsNext (CronCrate.Occurs schedule) tick.now (some at') :=
        hedited hlast ▸ hcrate schedule tick.now
      refine served_cached hcrate hparse le_rfl hat fun at'' hat'' => ?_
      obtain rfl := Option.some.inj hat''
      exact hmore

/-- **Step lemma.** A tick that the condition admits keeps the invariant, and runs what is due. -/
theorem Agrees.step (hcrate : crate.Lawful) (h : Agrees crate s) (horderly : s.Orderly crate tick)
    (hstep : s.step crate tick = some s') :
    Agrees crate s' ∧
      Observation.OncePerOccurrence crate ⟨tick, (s.scheduler.tickOnce crate tick).ran⟩ s.past := by
  obtain ⟨hnow, rfl⟩ := step_cases hstep
  have hpast := h.le hnow
  constructor
  · constructor
    case ordered => exact List.pairwise_cons.mpr ⟨hpast, h.ordered⟩
    case unseen =>
      intro id hunseen
      exact (Scheduler.tickOnce_of_unseen hunseen).1
    case seen =>
      intro id expression schedule now hseen hparse
      have hserved := (h.served hcrate horderly hnow hseen hparse).next
      rw [since_cons hseen hpast h.ordered]
      simp only [List.count_pos_iff] at hserved
      exact hserved
  · intro id expression schedule hseen hparse
    have hserved := h.served hcrate horderly hnow hseen hparse
    exact ⟨hserved.due, fun hnot => List.count_eq_zero.mp (hserved.early hnot)⟩

/-- Along the runs that are orderly, every tick has run exactly what was due. -/
theorem once_per_occurrence (hcrate : crate.Lawful) {ticks : List Tick}
    (horderly : (desktop crate).Along (Loop.Orderly crate) .init ticks)
    (hrun : (desktop crate).exec .init ticks = some s) : OncePerOccurrence crate s.past := by
  suffices h : Agrees crate s ∧ OncePerOccurrence crate s.past from h.2
  refine Machine.invariant (M := desktop crate)
    (I := fun s => Agrees crate s ∧ OncePerOccurrence crate s.past) ⟨agrees_init, trivial⟩ ?_
    horderly hrun
  rintro s tick s' ⟨hagrees, hpast⟩ horderly hstep
  obtain ⟨hagrees', honce⟩ := hagrees.step hcrate horderly hstep
  obtain ⟨-, rfl⟩ := step_cases hstep
  exact ⟨hagrees', honce, hpast⟩

/-! ### Two workflows -/

def oneWorkflow (expression : List Char) : Workflows where
  infos := [⟨"digest".toList, .cron expression, true⟩]
  distinct := List.nodup_singleton _

/-- Every five minutes: seen, due, and looked at again. -/
def everyFive : List Tick :=
  [0, 301, 330].map fun now => ⟨now, oneWorkflow "*/5 * * * *".toList⟩

theorem orderly_everyFew (h : ∀ id, s.scheduler.next id = none ∨
    s.lastSeen id = tick.workflows.seen id) : s.Orderly everyFew tick := by
  intro id expression schedule at' hseen _ hat
  refine ⟨fun hedited => ?_, fun _ => rfl⟩
  rcases h id with hnone | hsame
  · exact absurd (hnone.symm.trans hat) nofun
  · exact absurd (hsame.trans hseen) hedited

theorem once_per_occurrence_every_five : ∃ s, (desktop everyFew).exec .init everyFive = some s ∧
    s.past.map (fun o => o.ran) = [[], ["digest".toList], []] ∧ OncePerOccurrence everyFew s.past := by
  refine ⟨_, rfl, by decide, @once_per_occurrence everyFew _ everyFew_lawful everyFive ?_ rfl⟩
  refine ⟨orderly_everyFew fun id => .inl rfl, fun _ h₁ => ?_⟩
  obtain rfl := Option.some.inj h₁
  refine ⟨orderly_everyFew fun id => .inr rfl, fun _ h₂ => ?_⟩
  obtain rfl := Option.some.inj h₂
  exact ⟨orderly_everyFew fun id => .inr rfl, fun _ _ => trivial⟩

/-- Every five minutes, edited to every ten minutes as the five are over. -/
def edited : List Tick :=
  [⟨0, oneWorkflow "*/5 * * * *".toList⟩, ⟨300, oneWorkflow "*/10 * * * *".toList⟩]

/-- The edited workflow is run by the tick that sees its new expression first. -/
theorem not_once_per_occurrence : ¬ ∀ (crate : CronCrate), crate.Lawful →
    ∀ (ticks : List Tick) (s : Loop), (desktop crate).exec .init ticks = some s →
      OncePerOccurrence crate s.past := by
  intro h
  have honce := (h everyFew everyFew_lawful edited _ rfl).1
  have hseen := (honce "digest".toList "*/10 * * * *".toList ⟨600, by decide⟩ rfl rfl).2
  exact hseen not_due_self (by decide)

end Goble.Cron
