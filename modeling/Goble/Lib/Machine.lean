import Mathlib.Logic.Function.Basic

/-!
# Labelled machines and their runs

The transition-system library the concurrent developments stand on. A `Machine` has one
initial state and a *partial* step function: `step s l = none` says that the label `l` is
not enabled in `s`. Everything nondeterministic (what the environment answers, which task
moves next) is carried by the label, so a run is just a list of labels.

* `Machine.exec` — the state a run ends in, when every label of it was enabled;
* `Machine.Along` — a condition on `(state, label)` pairs met at every step of a run;
* `Machine.invariant` — the induction rule: what holds initially and is kept by every step
  that meets the condition holds wherever such a run ends. Since a prefix of a run is a run,
  the conclusion is about every state the run passes through;
* `Machine.withHistory` — a machine paired with a history variable, updated from the two
  states of each step and never read by it (`step_withHistory_eq_some`).
-/

namespace Goble

structure Machine (State : Type*) (Label : Type*) where
  /-- The unique initial state. -/
  init : State
  /-- `none` when the label is not enabled. -/
  step : State → Label → Option State

namespace Machine

variable {State Label History : Type*} (M : Machine State Label)

/-- The state a run from `s` ends in, `none` if one of its labels was not enabled. -/
def exec : State → List Label → Option State
  | s, [] => some s
  | s, l :: ls => (M.step s l).bind fun s' => exec s' ls

def Along (C : State → Label → Prop) : State → List Label → Prop
  | _, [] => True
  | s, l :: ls => C s l ∧ ∀ s', M.step s l = some s' → Along C s' ls

variable {M}

@[simp] theorem exec_nil (s : State) : M.exec s [] = some s := rfl

theorem exec_cons (s : State) (l : Label) (ls : List Label) :
    M.exec s (l :: ls) = (M.step s l).bind fun s' => M.exec s' ls := rfl

/-- A run is cut anywhere into two. -/
theorem exec_append (s : State) (ls ks : List Label) :
    M.exec s (ls ++ ks) = (M.exec s ls).bind fun s' => M.exec s' ks := by
  induction ls generalizing s with
  | nil => rfl
  | cons l ls ih =>
    rw [List.cons_append, exec_cons, exec_cons]
    cases M.step s l with
    | none => rfl
    | some s' => exact ih s'

variable {ls : List Label} {s s' : State} {l : Label}

theorem exec_cons_eq_some :
    M.exec s (l :: ls) = some s' ↔ ∃ t, M.step s l = some t ∧ M.exec t ls = some s' := by
  rw [exec_cons, Option.bind_eq_some_iff]

variable {C : State → Label → Prop}

theorem along_cons_of_step (h : M.step s l = some s') :
    M.Along C s (l :: ls) ↔ C s l ∧ M.Along C s' ls := by
  constructor
  · exact fun hC => ⟨hC.1, hC.2 s' h⟩
  · rintro ⟨hl, hls⟩
    refine ⟨hl, fun t ht => ?_⟩
    obtain rfl := Option.some.inj (h.symm.trans ht)
    exact hls

theorem along_cons_of_stuck (h : M.step s l = none) : M.Along C s (l :: ls) ↔ C s l :=
  ⟨fun hC => hC.1, fun hl => ⟨hl, fun t ht => absurd (h.symm.trans ht) (by simp)⟩⟩

/-- Whether a run meets a decidable condition can be evaluated. -/
instance decidableAlong (C : State → Label → Prop) [∀ s l, Decidable (C s l)] :
    ∀ (s : State) (ls : List Label), Decidable (M.Along C s ls)
  | _, [] => isTrue trivial
  | s, l :: ls =>
    match h : M.step s l with
    | none => decidable_of_iff _ (along_cons_of_stuck h).symm
    | some s' =>
      have := decidableAlong C s' ls
      decidable_of_iff _ (along_cons_of_step h).symm

/-- A weaker condition is met along every run that meets a stronger one. -/
theorem Along.mono {D : State → Label → Prop} (h : ∀ s l, C s l → D s l) (hC : M.Along C s ls) :
    M.Along D s ls := by
  induction ls generalizing s with
  | nil => trivial
  | cons l ls ih => exact ⟨h s l hC.1, fun s' hs' => ih (hC.2 s' hs')⟩

/-- A run that meets the condition, cut after some of its steps, still meets it. -/
theorem Along.of_append {ks : List Label} (hC : M.Along C s (ls ++ ks)) : M.Along C s ls := by
  induction ls generalizing s with
  | nil => trivial
  | cons l ls ih => exact ⟨hC.1, fun s' hs' => ih (hC.2 s' hs')⟩

theorem Along.last {t : State} (hC : M.Along C s (ls ++ [l])) (hrun : M.exec s ls = some t) :
    C t l := by
  induction ls generalizing s with
  | nil =>
    obtain rfl : s = t := Option.some.inj hrun
    exact hC.1
  | cons k ls ih =>
    obtain ⟨u, hk, hls⟩ := exec_cons_eq_some.mp hrun
    exact ih (hC.2 u hk) hls

/-- A condition on the labels alone is met along a run if every label meets it. -/
theorem Along.and_labels {P : Label → Prop} (hC : M.Along C s ls) (hP : ∀ l ∈ ls, P l) :
    M.Along (fun s l => C s l ∧ P l) s ls := by
  induction ls generalizing s with
  | nil => trivial
  | cons l ls ih =>
    refine ⟨⟨hC.1, hP l List.mem_cons_self⟩, fun s' hs' => ?_⟩
    exact ih (hC.2 s' hs') fun k hk => hP k (List.mem_cons_of_mem l hk)

/-- Two conditions met along a run are met together. -/
theorem Along.and {D : State → Label → Prop} (hC : M.Along C s ls) (hD : M.Along D s ls) :
    M.Along (fun s l => C s l ∧ D s l) s ls := by
  induction ls generalizing s with
  | nil => trivial
  | cons l ls ih => exact ⟨⟨hC.1, hD.1⟩, fun s' hs' => ih (hC.2 s' hs') (hD.2 s' hs')⟩

theorem along_true (s : State) (ls : List Label) : M.Along (fun _ _ => True) s ls := by
  induction ls generalizing s with
  | nil => trivial
  | cons l ls ih => exact ⟨trivial, fun s' _ => ih s'⟩

variable {I : State → Prop}

/-- **The guarded invariant rule**, from an arbitrary start. -/
theorem exec_invariant (hstep : ∀ s l s', I s → C s l → M.step s l = some s' → I s') (hI : I s)
    (hC : M.Along C s ls) (hrun : M.exec s ls = some s') : I s' := by
  induction ls generalizing s with
  | nil =>
    obtain rfl : s = s' := Option.some.inj hrun
    exact hI
  | cons l ls ih =>
    obtain ⟨t, hl, hls⟩ := exec_cons_eq_some.mp hrun
    exact ih (hstep s l t hI hC.1 hl) (hC.2 t hl) hls

/-- **The guarded invariant rule.** What holds initially and is preserved by every step that
meets `C` holds at the end of every run whose steps all meet `C`. -/
theorem invariant (hinit : I M.init) (hstep : ∀ s l s', I s → C s l → M.step s l = some s' → I s')
    (hC : M.Along C M.init ls) (hrun : M.exec M.init ls = some s) : I s :=
  exec_invariant hstep hinit hC hrun

/-- The unguarded rule: every run, no condition. -/
theorem invariant_of_step (hinit : I M.init) (hstep : ∀ s l s', I s → M.step s l = some s' → I s')
    (hrun : M.exec M.init ls = some s) : I s := by
  exact invariant hinit (fun s l s' hI _ hs => hstep s l s' hI hs) (along_true _ _) hrun

/-- The rule for runs that never get stuck: if every label is enabled where the invariant holds,
and keeps it, then every run ends, and where the invariant holds. -/
theorem exists_exec (hstep : ∀ s l, I s → ∃ s', M.step s l = some s' ∧ I s') (hI : I s)
    (ls : List Label) : ∃ s', M.exec s ls = some s' ∧ I s' := by
  induction ls generalizing s with
  | nil => exact ⟨s, rfl, hI⟩
  | cons l ls ih =>
    obtain ⟨t, ht, hIt⟩ := hstep s l hI
    obtain ⟨s', hrun, hI'⟩ := ih hIt
    exact ⟨s', exec_cons_eq_some.mpr ⟨t, ht, hrun⟩, hI'⟩

theorem along_iff_of_step {P : State → Prop} (hsafe : ∀ s, I s → P s)
    (hstep : ∀ s l, I s → C s l → ∃ s', M.step s l = some s' ∧ I s')
    (hbad : ∀ s l, I s → ¬ C s l → ∃ s', M.step s l = some s' ∧ ¬ P s') (hI : I s)
    (ls : List Label) :
    (∀ ks, ks <+: ls → ∃ s', M.exec s ks = some s' ∧ P s') ↔ M.Along C s ls := by
  induction ls generalizing s with
  | nil =>
    refine ⟨fun _ => trivial, fun _ ks hks => ?_⟩
    rw [List.prefix_nil.mp hks]
    exact ⟨s, rfl, hsafe s hI⟩
  | cons l ls ih =>
    constructor
    · intro hruns
      have hC : C s l := by
        by_contra hnot
        obtain ⟨t, ht, hbad⟩ := hbad s l hI hnot
        obtain ⟨s', hrun, hP⟩ := hruns [l] (List.prefix_append [l] ls)
        obtain ⟨t', ht', hnil⟩ := exec_cons_eq_some.mp hrun
        obtain rfl := Option.some.inj (ht.symm.trans ht')
        obtain rfl := Option.some.inj hnil
        exact hbad hP
      obtain ⟨t, ht, hIt⟩ := hstep s l hI hC
      refine (along_cons_of_step ht).mpr ⟨hC, (ih hIt).mp fun ks hks => ?_⟩
      obtain ⟨s', hrun, hP⟩ := hruns (l :: ks) ((List.prefix_cons_inj l).mpr hks)
      obtain ⟨t', ht', hrun'⟩ := exec_cons_eq_some.mp hrun
      obtain rfl := Option.some.inj (ht.symm.trans ht')
      exact ⟨s', hrun', hP⟩
    · intro halong ks hks
      obtain ⟨t, ht, hIt⟩ := hstep s l hI halong.1
      obtain rfl | ⟨ks', rfl, hks'⟩ := List.prefix_cons_iff.mp hks
      · exact ⟨s, rfl, hsafe s hI⟩
      · obtain ⟨s', hrun, hP⟩ := (ih hIt).mpr (halong.2 t ht) ks' hks'
        exact ⟨s', exec_cons_eq_some.mpr ⟨t, ht, hrun⟩, hP⟩

theorem exec_along_or_trap {T : State → Prop}
    (hstep : ∀ s l s', I s → C s l → M.step s l = some s' → I s')
    (htrap : ∀ s l s', I s → ¬ C s l → M.step s l = some s' → T s')
    (hstay : ∀ s l s', T s → M.step s l = some s' → T s') (hI : I s)
    (hrun : M.exec s ls = some s') :
    (M.Along C s ls ∧ I s') ∨ (¬ M.Along C s ls ∧ T s') := by
  induction ls generalizing s with
  | nil =>
    obtain rfl : s = s' := Option.some.inj hrun
    exact .inl ⟨trivial, hI⟩
  | cons l ls ih =>
    obtain ⟨t, hl, hls⟩ := exec_cons_eq_some.mp hrun
    rw [along_cons_of_step hl]
    by_cases hC : C s l
    · obtain ⟨halong, hI'⟩ | ⟨hnot, hT⟩ := ih (hstep s l t hI hC hl) hls
      · exact .inl ⟨⟨hC, halong⟩, hI'⟩
      · exact .inr ⟨fun h => hnot h.2, hT⟩
    · refine .inr ⟨fun h => hC h.1, ?_⟩
      have hT : T t := htrap s l t hI hC hl
      have halong : M.Along (fun _ _ => True) t ls := along_true t ls
      exact exec_invariant (fun s l s' hT _ => hstay s l s' hT) hT halong hls

/-! ### History variables -/

/-- `M` paired with a history variable: `upd` computes the next history from the two states
and the label of the step. The step itself never reads the history. -/
def withHistory (M : Machine State Label) (h₀ : History)
    (upd : State → Label → State → History → History) : Machine (State × History) Label where
  init := (M.init, h₀)
  step p l := (M.step p.1 l).map fun s' => (s', upd p.1 l s' p.2)

theorem step_withHistory_eq_some {h₀ : History} {upd : State → Label → State → History → History}
    {p q : State × History} :
    (M.withHistory h₀ upd).step p l = some q ↔
      M.step p.1 l = some q.1 ∧ q.2 = upd p.1 l q.1 p.2 := by
  obtain ⟨q₁, q₂⟩ := q
  simp only [withHistory, Option.map_eq_some_iff, Prod.mk.injEq]
  constructor
  · rintro ⟨t, ht, rfl, rfl⟩
    exact ⟨ht, rfl⟩
  · rintro ⟨ht, rfl⟩
    exact ⟨q₁, ht, rfl, rfl⟩

end Machine

end Goble
