import Goble.Lib.Machine

/-!
# Threads that share a state

A program for threads over a shared state: what a call from outside starts, and what a thread at
one of its points does next. `Threads.machine` has every interleaving of them; `threads` is the
list of those that have not ended, in no particular order of their steps.

`Held` is how a flag of the shared state is accounted for: exactly one thread has the duty to
clear it while it is set, and none while it is not. A step keeps the account when it sets or clears
the flag as it takes the duty on or discharges it (`Moves`). Where a step may lose the duty without
clearing the flag, what remains is that at most one thread has it, and none while the flag is clear
(`AtMost`).
-/

namespace Goble

/-- A program that threads run. -/
structure Threads (Shared Thread Call Answer : Type) where
  init : Shared
  /-- Where the thread of a call begins, `none` when there is nothing to do. -/
  enter : Shared → Call → Option Thread
  /-- The next step of a thread, given what the environment answers to it: the shared state after
  it and where the thread goes on, if it does. -/
  next : Shared → Thread → Answer → Option (Shared × Option Thread)

namespace Threads

variable {Shared Thread Call Answer : Type}

structure State (Shared Thread : Type) where
  shared : Shared
  threads : List Thread

inductive Label (Call Answer : Type) where
  | call (call : Call)
  /-- The thread at this position takes a step. -/
  | run (index : Nat) (answer : Answer)

variable (P : Threads Shared Thread Call Answer)

def step (s : State Shared Thread) : Label Call Answer → Option (State Shared Thread)
  | .call call => some { s with threads := s.threads ++ (P.enter s.shared call).toList }
  | .run index answer =>
    match s.threads[index]? with
    | none => none
    | some thread =>
      (P.next s.shared thread answer).map fun (shared, goesOn) =>
        ⟨shared, s.threads.take index ++ goesOn.toList ++ s.threads.drop (index + 1)⟩

def machine : Machine (State Shared Thread) (Label Call Answer) where
  init := ⟨P.init, []⟩
  step := P.step

variable {P}

variable {s : State Shared Thread}

theorem step_cases {s' : State Shared Thread} {l : Label Call Answer}
    (h : P.machine.step s l = some s') :
    (∃ call, l = .call call ∧ s' = ⟨s.shared, s.threads ++ (P.enter s.shared call).toList⟩) ∨
    ∃ index answer thread before after goesOn, l = .run index answer ∧
      s.threads[index]? = some thread ∧ s.threads = before ++ thread :: after ∧
      P.next s.shared thread answer = some (s'.shared, goesOn) ∧
      s'.threads = before ++ goesOn.toList ++ after := by
  cases l with
  | call call => exact .inl ⟨call, rfl, (Option.some.inj h).symm⟩
  | run index answer =>
    change P.step s (.run index answer) = some s' at h
    rw [step] at h
    split at h
    · cases h
    · next thread hthread =>
      obtain ⟨⟨shared, goesOn⟩, hnext, rfl⟩ := Option.map_eq_some_iff.mp h
      obtain ⟨hindex, hget⟩ := List.getElem?_eq_some_iff.mp hthread
      have hsplit : s.threads = s.threads.take index ++ thread :: s.threads.drop (index + 1) := by
        rw [← hget, ← List.drop_eq_getElem_cons hindex, List.take_append_drop]
      exact .inr ⟨index, answer, thread, _, _, goesOn, rfl, hthread, hsplit, hnext, rfl⟩

def Guard (C : Shared → Thread → Answer → Prop) (s : State Shared Thread) :
    Label Call Answer → Prop
  | .call _ => True
  | .run index answer => ∀ thread, s.threads[index]? = some thread → C s.shared thread answer

instance decidableGuard (C : Shared → Thread → Answer → Prop)
    [∀ shared thread answer, Decidable (C shared thread answer)] (s : State Shared Thread) :
    ∀ l : Label Call Answer, Decidable (Guard C s l)
  | .call _ => isTrue trivial
  | .run index answer =>
    match h : s.threads[index]? with
    | none => isTrue fun _ he => absurd (h.symm.trans he) (by simp)
    | some thread =>
      decidable_of_iff (C s.shared thread answer)
        ⟨fun hC _ he => Option.some.inj (h.symm.trans he) ▸ hC, fun hC => hC thread h⟩

def Each (I : Shared → Prop) (J : Shared → Thread → Prop) (s : State Shared Thread) : Prop :=
  I s.shared ∧ ∀ thread ∈ s.threads, J s.shared thread

/-- A step of one thread keeps what holds of each, if it keeps it of the thread and spoils it for
none of the others. -/
theorem Each.run_of_mem {I : Shared → Prop} {J : Shared → Thread → Prop} {shared shared' : Shared}
    {before after : List Thread} {thread : Thread} {goesOn : Option Thread}
    (h : Each I J ⟨shared, before ++ thread :: after⟩) (hI : I shared')
    (hJ : ∀ u ∈ goesOn, J shared' u) (hothers : ∀ u ∈ before ++ after, J shared u → J shared' u) :
    Each I J ⟨shared', before ++ goesOn.toList ++ after⟩ := by
  refine ⟨hI, fun u hu => ?_⟩
  obtain (hu | hu) | hu := by simpa only [List.mem_append] using hu
  · exact hothers u (List.mem_append_left _ hu) (h.2 u (List.mem_append_left _ hu))
  · exact hJ u (Option.mem_toList.mp hu)
  · exact hothers u (List.mem_append_right _ hu)
      (h.2 u (List.mem_append_right _ (List.mem_cons_of_mem _ hu)))

/-- Where a step spoils it for no thread there could be. -/
theorem Each.run {I : Shared → Prop} {J : Shared → Thread → Prop} {shared shared' : Shared}
    {before after : List Thread} {thread : Thread} {goesOn : Option Thread}
    (h : Each I J ⟨shared, before ++ thread :: after⟩) (hI : I shared')
    (hJ : ∀ u ∈ goesOn, J shared' u) (hothers : ∀ u, J shared u → J shared' u) :
    Each I J ⟨shared', before ++ goesOn.toList ++ after⟩ :=
  h.run_of_mem hI hJ fun u _ => hothers u

theorem Each.call {I : Shared → Prop} {J : Shared → Thread → Prop} {shared : Shared}
    {threads : List Thread} {entered : Option Thread} (h : Each I J ⟨shared, threads⟩)
    (hJ : ∀ u ∈ entered, J shared u) : Each I J ⟨shared, threads ++ entered.toList⟩ := by
  refine ⟨h.1, fun u hu => ?_⟩
  obtain hu | hu := List.mem_append.mp hu
  · exact h.2 u hu
  · exact hJ u (Option.mem_toList.mp hu)

/-! ### Flags and duties -/

/-- The flag is set while exactly one thread has the duty to clear it. -/
def Held (flag : Shared → Bool) (duty : Thread → Bool) (s : State Shared Thread) : Prop :=
  s.threads.countP duty = (flag s.shared).toNat

def AtMost (flag : Shared → Bool) (duty : Thread → Bool) (s : State Shared Thread) : Prop :=
  s.threads.countP duty ≤ (flag s.shared).toNat

/-- A step of a thread that keeps the account. -/
def Moves (flag : Shared → Bool) (duty : Thread → Bool) (shared : Shared) (thread : Thread)
    (shared' : Shared) (goesOn : Option Thread) : Prop :=
  (flag shared').toNat + (duty thread).toNat = (flag shared).toNat + (goesOn.any duty).toNat

section Held

variable {flag : Shared → Bool} {duty : Thread → Bool} {shared shared' : Shared}
  {before after : List Thread} {thread : Thread} {goesOn : Option Thread}

theorem countP_toList (goesOn : Option Thread) :
    goesOn.toList.countP duty = (goesOn.any duty).toNat := by
  cases goesOn with
  | none => rfl
  | some thread => cases h : duty thread <;> simp [h]

theorem countP_append_toList (hentered : ∀ thread ∈ goesOn, duty thread = false) :
    (before ++ goesOn.toList).countP duty = before.countP duty := by
  have hnone : goesOn.any duty = false := by
    cases goesOn with
    | none => rfl
    | some thread => exact hentered thread rfl
  rw [List.countP_append, countP_toList, hnone]
  rfl

theorem countP_run : (before ++ goesOn.toList ++ after).countP duty + (duty thread).toNat =
    (before ++ thread :: after).countP duty + (goesOn.any duty).toNat := by
  have hcount : (if duty thread then 1 else 0) = (duty thread).toNat := by
    cases duty thread with
    | false => rfl
    | true => rfl
  rw [List.countP_append, List.countP_append, List.countP_append, List.countP_cons, countP_toList,
    hcount]
  omega

theorem Held.call (h : Held flag duty ⟨shared, before⟩)
    (hentered : ∀ thread ∈ goesOn, duty thread = false) :
    Held flag duty ⟨shared, before ++ goesOn.toList⟩ :=
  (countP_append_toList hentered).trans h

theorem Held.run (h : Held flag duty ⟨shared, before ++ thread :: after⟩)
    (hmoves : Moves flag duty shared thread shared' goesOn) :
    Held flag duty ⟨shared', before ++ goesOn.toList ++ after⟩ := by
  change (before ++ thread :: after).countP duty = (flag shared).toNat at h
  change (before ++ goesOn.toList ++ after).countP duty = (flag shared').toNat
  have hrun := @countP_run _ duty before after thread goesOn
  rw [Moves] at hmoves
  omega

theorem AtMost.call (h : AtMost flag duty ⟨shared, before⟩)
    (hentered : ∀ thread ∈ goesOn, duty thread = false) :
    AtMost flag duty ⟨shared, before ++ goesOn.toList⟩ :=
  Nat.le_trans (Nat.le_of_eq (countP_append_toList hentered)) h

theorem AtMost.run (h : AtMost flag duty ⟨shared, before ++ thread :: after⟩)
    (hmoves : (flag shared).toNat + (goesOn.any duty).toNat ≤
      (flag shared').toNat + (duty thread).toNat) :
    AtMost flag duty ⟨shared', before ++ goesOn.toList ++ after⟩ := by
  change (before ++ thread :: after).countP duty ≤ (flag shared).toNat at h
  change (before ++ goesOn.toList ++ after).countP duty ≤ (flag shared').toNat
  have hrun := @countP_run _ duty before after thread goesOn
  omega

theorem Held.atMost (h : Held flag duty s) : AtMost flag duty s :=
  Nat.le_of_eq h

theorem AtMost.flag_of_mem (h : AtMost flag duty s) (hmem : thread ∈ s.threads)
    (hduty : duty thread) : flag s.shared := by
  have hpos : 0 < s.threads.countP duty := List.countP_pos_iff.mpr ⟨thread, hmem, hduty⟩
  cases hflag : flag s.shared with
  | true => rfl
  | false =>
    rw [AtMost, hflag] at h
    exact absurd (Nat.lt_of_lt_of_le hpos h) (Nat.lt_irrefl 0)

theorem Held.flag_of_mem (h : Held flag duty s) (hmem : thread ∈ s.threads) (hduty : duty thread) :
    flag s.shared :=
  h.atMost.flag_of_mem hmem hduty

theorem Held.eq_false_of_flag (h : Held flag duty s) (hflag : flag s.shared = false) :
    ∀ thread ∈ s.threads, duty thread = false := by
  rw [Held, hflag, Bool.toNat_false, List.countP_eq_zero] at h
  exact fun thread hmem => Bool.not_eq_true _ ▸ h thread hmem

theorem AtMost.others (h : AtMost flag duty ⟨shared, before ++ thread :: after⟩)
    (hduty : duty thread) : ∀ u ∈ before ++ after, duty u = false := by
  have hcount : (before ++ thread :: after).countP duty ≤ 1 := Nat.le_trans h (Bool.toNat_le _)
  rw [List.countP_append, List.countP_cons, if_pos hduty, ← Nat.add_assoc,
    ← List.countP_append] at hcount
  have hzero : (before ++ after).countP duty = 0 := by omega
  exact fun u hu => Bool.not_eq_true _ ▸ List.countP_eq_zero.mp hzero u hu

theorem Held.others (h : Held flag duty ⟨shared, before ++ thread :: after⟩)
    (hduty : duty thread) : ∀ u ∈ before ++ after, duty u = false :=
  h.atMost.others hduty

theorem Held.eq_false (h : Held flag duty s) (hnil : s.threads = []) :
    flag s.shared = false := by
  rw [Held, hnil] at h
  cases hflag : flag s.shared with
  | false => rfl
  | true =>
    rw [hflag] at h
    cases h

end Held

end Threads

end Goble
