import Mathlib.Data.List.Nodup

/-!
# Lists that change in one place, and lists with keys
-/

namespace Goble

variable {α β γ : Type*} {xs : List α} {i : Nat} {x y : α}

/-- A projection that does not show the new entry does not show the change. -/
theorem map_set_eq_map (φ : α → β) (h : xs[i]? = some x) (hφ : φ y = φ x) :
    (xs.set i y).map φ = xs.map φ := by
  obtain ⟨hi, rfl⟩ := List.getElem?_eq_some_iff.mp h
  have hmap : i < (xs.map φ).length := by rwa [List.length_map]
  have hget : (xs.map φ)[i] = φ xs[i] := List.getElem_map φ
  rw [List.map_set, hφ, ← hget, List.set_getElem_self]

/-- The same for an entry that is changed in place. -/
theorem map_modify_eq_map {f : α → α} (φ : α → β) (h : ∀ x, φ (f x) = φ x) :
    (xs.modify i f).map φ = xs.map φ := by
  ext1 j
  rw [List.getElem?_map, List.getElem?_modify, List.getElem?_map]
  cases xs[j]? with
  | none => rfl
  | some x =>
    by_cases hij : i = j
    · simp [hij, h]
    · simp [hij]

/-- The entries of a list with one entry changed in place. -/
theorem mem_modify {f : α → α} :
    y ∈ xs.modify i f ↔ (∃ j, j ≠ i ∧ xs[j]? = some y) ∨ ∃ x, xs[i]? = some x ∧ f x = y := by
  rw [List.mem_iff_getElem?]
  constructor
  · rintro ⟨j, hj⟩
    rw [List.getElem?_modify] at hj
    by_cases hij : i = j
    · subst hij
      exact .inr (by simpa using hj)
    · exact .inl ⟨j, Ne.symm hij, by simpa [hij] using hj⟩
  · rintro (⟨j, hij, hj⟩ | ⟨x, hx, rfl⟩)
    · exact ⟨j, by simp [Ne.symm hij, hj]⟩
    · exact ⟨i, by simp [hx]⟩

/-- What stands at a position of a list with one more entry. -/
theorem getElem?_concat_eq_some :
    (xs ++ [y])[i]? = some x ↔ xs[i]? = some x ∨ i = xs.length ∧ y = x := by
  obtain hlt | rfl | hgt := Nat.lt_trichotomy i xs.length
  · rw [List.getElem?_append_left hlt]
    simp [Nat.ne_of_lt hlt]
  · simp
  · rw [List.getElem?_eq_none (by simp; omega), List.getElem?_eq_none (Nat.le_of_lt hgt)]
    simp [Nat.ne_of_gt hgt]

/-- A projection that the renumbering of a list does not show. -/
theorem map_mapIdx_eq_map {g : Nat → α → γ} (φ : γ → β) {ψ : α → β}
    (h : ∀ i x, φ (g i x) = ψ x) : (xs.mapIdx g).map φ = xs.map ψ := by
  ext1 i
  rw [List.getElem?_map, List.getElem?_mapIdx, List.getElem?_map, Option.map_map]
  exact congrArg (xs[i]?.map ·) (funext (h i))

theorem map_mapIdx_eq_range {g : Nat → α → α} {φ : α → Nat} (h : ∀ i x, φ (g i x) = i) :
    (xs.mapIdx g).map φ = List.range xs.length := by
  ext1 i
  rw [List.getElem?_map, List.getElem?_mapIdx, Option.map_map]
  by_cases hi : i < xs.length
  · rw [List.getElem?_eq_getElem hi, List.getElem?_range hi]
    exact congrArg some (h i _)
  · rw [List.getElem?_eq_none (by omega), List.getElem?_eq_none (by simp; omega)]
    rfl

/-- A key that no two entries share finds the entry that has it. -/
theorem find?_key_eq_some [DecidableEq β] {key : α → β} {k : β} (h : (xs.map key).Nodup) :
    xs.find? (fun y => key y = k) = some x ↔ x ∈ xs ∧ key x = k := by
  constructor
  · intro hfind
    exact ⟨List.mem_of_find?_eq_some hfind, by simpa using List.find?_some hfind⟩
  · rintro ⟨hmem, rfl⟩
    have hsome : (xs.find? fun y => key y = key x).isSome :=
      List.find?_isSome.mpr ⟨x, hmem, decide_eq_true rfl⟩
    obtain ⟨y, hy⟩ := Option.isSome_iff_exists.mp hsome
    have hkey : key y = key x := by simpa using List.find?_some hy
    rw [hy, List.inj_on_of_nodup_map h (List.mem_of_find?_eq_some hy) hmem hkey]

/-- Rewriting the same position of two matching lists. -/
theorem forall₂_modify {R : α → β → Prop} {l₁ : List α} {l₂ : List β}
    (h : List.Forall₂ R l₁ l₂) {i : Nat} {f : α → α} {g : β → β}
    (hfg : ∀ a b, l₁[i]? = some a → l₂[i]? = some b → R a b → R (f a) (g b)) :
    List.Forall₂ R (l₁.modify i f) (l₂.modify i g) := by
  induction h generalizing i with
  | nil => simp
  | @cons a b l₁ l₂ hab hrest ih =>
    cases i with
    | zero => exact .cons (hfg a b rfl rfl hab) hrest
    | succ i => exact .cons hab (ih fun a b ha hb => hfg a b ha hb)

/-- Each entry of a list has a partner in a matching one. -/
theorem exists_mem_of_forall₂ {R : α → β → Prop} {l₁ : List α} {l₂ : List β}
    (h : List.Forall₂ R l₁ l₂) {a : α} (ha : a ∈ l₁) : ∃ b ∈ l₂, R a b := by
  induction h with
  | nil => cases ha
  | @cons x y l₁ l₂ hxy _ ih =>
    obtain rfl | hrest := List.mem_cons.mp ha
    · exact ⟨y, List.mem_cons_self .., hxy⟩
    · obtain ⟨b, hb, hab⟩ := ih hrest
      exact ⟨b, List.mem_cons_of_mem _ hb, hab⟩

/-- A list that matches two lists put together is two lists put together. -/
theorem exists_of_forall₂_append {R : α → β → Prop} {l₁ l₂ : List α} {l : List β}
    (h : List.Forall₂ R (l₁ ++ l₂) l) :
    ∃ m₁ m₂, l = m₁ ++ m₂ ∧ List.Forall₂ R l₁ m₁ ∧ List.Forall₂ R l₂ m₂ := by
  induction l₁ generalizing l with
  | nil => exact ⟨[], l, rfl, .nil, h⟩
  | cons a l₁ ih =>
    obtain ⟨b, m, hab, hrest, rfl⟩ := List.forall₂_cons_left_iff.mp h
    obtain ⟨m₁, m₂, rfl, h₁, h₂⟩ := ih hrest
    exact ⟨b :: m₁, m₂, rfl, .cons hab h₁, h₂⟩

/-- The last entry without a property, where all that follows has it. -/
theorem last_inj {P : α → Prop} {pre pre' post post' : List α}
    (h : pre ++ x :: post = pre' ++ y :: post') (hpost : ∀ z ∈ post, P z)
    (hpost' : ∀ z ∈ post', P z) (hx : ¬ P x) (hy : ¬ P y) :
    pre = pre' ∧ x = y ∧ post = post' := by
  obtain ⟨a, hpre, hrest⟩ | ⟨a, hpre, hrest⟩ := List.append_eq_append_iff.mp h
  · cases a with
    | nil =>
      obtain ⟨rfl, rfl⟩ := List.cons.inj hrest
      exact ⟨by rw [hpre, List.append_nil], rfl, rfl⟩
    | cons z a =>
      obtain ⟨-, rfl⟩ := List.cons.inj hrest
      exact absurd (hpost y (by simp)) hy
  · cases a with
    | nil =>
      obtain ⟨rfl, rfl⟩ := List.cons.inj hrest
      exact ⟨by rw [hpre, List.append_nil], rfl, rfl⟩
    | cons z a =>
      obtain ⟨-, rfl⟩ := List.cons.inj hrest
      exact absurd (hpost' x (by simp)) hx

/-- An entry of a list is replaced by itself and more. -/
theorem perm_of_middle {a b new extra : List α} (h : new.Perm (x :: extra)) :
    (a ++ (new ++ b)).Perm (extra ++ (a ++ x :: b)) := by
  have hnew : (a ++ (new ++ b)).Perm (a ++ (x :: extra ++ b)) := (h.append_right b).append_left a
  have hmiddle : (a ++ (x :: extra ++ b)).Perm (a ++ (extra ++ x :: b)) :=
    List.perm_middle.symm.append_left a
  refine hnew.trans (hmiddle.trans ?_)
  rw [← List.append_assoc, ← List.append_assoc]
  exact List.perm_append_comm.append_right _

/-! ### Lists that only grow -/

/-- Every entry of the first list stands in the second at its place, as `R` says. -/
def Grows (R : α → α → Prop) (l l' : List α) : Prop :=
  ∀ (i : Nat) x, l[i]? = some x → ∃ x', l'[i]? = some x' ∧ R x x'

namespace Grows

variable {R : α → α → Prop} {l l' l'' : List α}

theorem refl (hR : ∀ x, R x x) (l : List α) : Grows R l l := fun _ x hx => ⟨x, hx, hR x⟩

theorem trans (hR : ∀ {x y z}, R x y → R y z → R x z) (h : Grows R l l') (h' : Grows R l' l'') :
    Grows R l l'' := by
  intro i x hx
  obtain ⟨x', hx', hR₁⟩ := h i x hx
  obtain ⟨x'', hx'', hR₂⟩ := h' i x' hx'
  exact ⟨x'', hx'', hR hR₁ hR₂⟩

theorem append (hR : ∀ x, R x x) (l k : List α) : Grows R l (l ++ k) := by
  intro i x hx
  have hi : i < l.length := (List.getElem?_eq_some_iff.mp hx).1
  exact ⟨x, by rw [List.getElem?_append_left hi, hx], hR x⟩

theorem set (hR : ∀ x, R x x) (hx : l[i]? = some x) (hxy : R x y) : Grows R l (l.set i y) := by
  intro j z hz
  obtain ⟨hi, -⟩ := List.getElem?_eq_some_iff.mp hx
  by_cases hij : i = j
  · subst hij
    obtain rfl := Option.some.inj (hx.symm.trans hz)
    exact ⟨y, List.getElem?_set_self hi, hxy⟩
  · exact ⟨z, by rw [List.getElem?_set_ne hij, hz], hR z⟩

end Grows

/-- Of two tests of a list the stricter one, which misses an element the other has, counts fewer. -/
theorem countP_lt_countP {p q : α → Bool} (ha : x ∈ xs) (hmono : ∀ y, p y = true → q y = true)
    (hp : p x = false) (hq : q x = true) : xs.countP p < xs.countP q := by
  obtain ⟨before, after, rfl⟩ := List.append_of_mem ha
  rw [List.countP_append, List.countP_append, List.countP_cons_of_pos hq,
    List.countP_cons_of_neg (by simp [hp])]
  have hbefore : before.countP p ≤ before.countP q := List.countP_mono_left fun y _ => hmono y
  have hafter : after.countP p ≤ after.countP q := List.countP_mono_left fun y _ => hmono y
  omega

/-- As many entries each time. -/
theorem length_flatMap_const {f : α → List β} {n : Nat} (h : ∀ x ∈ xs, (f x).length = n) :
    (xs.flatMap f).length = xs.length * n := by
  induction xs with
  | nil => exact (Nat.zero_mul n).symm
  | cons x xs ih =>
    obtain ⟨hx, hxs⟩ := List.forall_mem_cons.mp h
    rw [List.flatMap_cons, List.length_append, hx, ih hxs, List.length_cons, Nat.succ_mul,
      Nat.add_comm]

/-! ### A list cut at an index -/

theorem exists_append_cons (h : xs[i]? = some x) :
    ∃ before after, xs = before ++ x :: after ∧ before.length = i := by
  obtain ⟨hi, rfl⟩ := List.getElem?_eq_some_iff.mp h
  refine ⟨xs.take i, xs.drop (i + 1), ?_, List.length_take_of_le (Nat.le_of_lt hi)⟩
  rw [← List.drop_eq_getElem_cons hi, List.take_append_drop]

theorem getElem?_length_append {before after : List α} :
    (before ++ x :: after)[before.length]? = some x := by
  rw [List.getElem?_append_right (Nat.le_refl _), Nat.sub_self, List.getElem?_cons_zero]

theorem drop_eq_cons {rest : List α} (h : xs.drop i = x :: rest) :
    xs[i]? = some x ∧ i < xs.length ∧ xs.drop (i + 1) = rest := by
  have hx : xs[i]? = some x := by
    rw [← List.head?_drop, h]
    rfl
  refine ⟨hx, (List.getElem?_eq_some_iff.mp hx).1, ?_⟩
  rw [← List.tail_drop, h]
  rfl

/-! ### Association lists -/

/-- With the keys distinct, a key finds its own value. -/
theorem lookup_of_mem [DecidableEq α] {entries : List (α × β)}
    (hnodup : (entries.map Prod.fst).Nodup) {entry : α × β} (h : entry ∈ entries) :
    entries.lookup entry.1 = some entry.2 := by
  induction entries with
  | nil => cases h
  | cons first rest ih =>
    rw [List.map_cons, List.nodup_cons] at hnodup
    rcases List.mem_cons.mp h with rfl | hrest
    · exact List.lookup_cons_self
    · have hne : entry.1 ≠ first.1 := by
        intro heq
        exact hnodup.1 (heq ▸ List.mem_map_of_mem hrest)
      rw [List.lookup_cons, beq_false_of_ne hne]
      exact ih hnodup.2 hrest

end Goble
