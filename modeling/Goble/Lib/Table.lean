import Mathlib.Data.List.AList

/-!
# Finite tables

Association lists with one value type: Mathlib's `AList`, with its values and the change of all
of them, and what a key finds after each operation.
-/

namespace Goble

/-- A finite map from keys to values. -/
abbrev Table (K V : Type) := AList fun _ : K => V

namespace Table

variable {K V : Type} [DecidableEq K]

def values (t : Table K V) : List V := t.entries.map Sigma.snd

def mapValues (f : V → V) (t : Table K V) : Table K V where
  entries := t.entries.map fun e => ⟨e.1, f e.2⟩
  nodupKeys := by
    have h := t.nodupKeys
    rw [List.NodupKeys, List.keys] at h ⊢
    rwa [List.map_map]

theorem mem_values_of_lookup {t : Table K V} {k : K} {v : V} (h : t.lookup k = some v) :
    v ∈ t.values :=
  List.mem_map.mpr ⟨⟨k, v⟩, AList.mem_lookup_iff.mp h, rfl⟩

theorem mem_values_iff {t : Table K V} {v : V} : v ∈ t.values ↔ ∃ k, t.lookup k = some v := by
  constructor
  · intro h
    obtain ⟨⟨k, _⟩, hmem, rfl⟩ := List.mem_map.mp h
    exact ⟨k, AList.mem_lookup_iff.mpr hmem⟩
  · rintro ⟨k, h⟩
    exact mem_values_of_lookup h

theorem lookup_insert_eq (t : Table K V) (k k' : K) (v : V) :
    (t.insert k v).lookup k' = if k' = k then some v else t.lookup k' := by
  split
  · next h => rw [h, AList.lookup_insert]
  · next h => exact AList.lookup_insert_ne h

theorem lookup_erase_eq (t : Table K V) (k k' : K) :
    (t.erase k).lookup k' = if k' = k then none else t.lookup k' := by
  split
  · next h => rw [h, AList.lookup_erase]
  · next h => exact AList.lookup_erase_ne h

theorem lookup_mapValues (f : V → V) (t : Table K V) (k : K) :
    (mapValues f t).lookup k = (t.lookup k).map f := by
  obtain ⟨entries, hnodup⟩ := t
  simp only [mapValues, AList.lookup]
  clear hnodup
  induction entries with
  | nil => rfl
  | cons e entries ih =>
    obtain ⟨k', v⟩ := e
    by_cases h : k = k'
    · subst h
      simp
    · rw [List.map_cons, List.dlookup_cons_ne (β := fun _ => V) _ _ h, ih,
        List.dlookup_cons_ne (β := fun _ => V) _ _ h]

end Table

end Goble
