import Mathlib.Data.List.Forall2
import Goble.Lib.Json

/-!
# Structures read from JSON by a derived reader

A derived reader takes a structure from an object, whose unknown members it passes over, and from an
array as well, whose items are the fields in order. So a structure with the fields of another and
some more, which may all be absent, can be read where the other cannot: from an array with an item
for one of them.

* `Json.fields` — the values of the fields of a structure;
* `Json.vec` — a list of structures, each of which must be read;
* `Json.fields_of_fields_append` — what a structure with more fields says of one with fewer.
-/

namespace Goble

theorem mapM_eq_some {α β : Type} {f : α → Option β} {xs : List α} {ys : List β} :
    xs.mapM f = some ys ↔ List.Forall₂ (fun x y => f x = some y) xs ys := by
  induction xs generalizing ys with
  | nil =>
    rw [List.mapM_nil, List.forall₂_nil_left_iff]
    exact ⟨fun h => (Option.some.inj h).symm, fun h => congrArg some h.symm⟩
  | cons x xs ih =>
    rw [List.mapM_cons, List.forall₂_cons_left_iff]
    simp only [Option.bind_eq_bind, Option.bind_eq_some_iff, Option.pure_def, Option.some.injEq]
    constructor
    · rintro ⟨y, hy, ys', hys', rfl⟩
      exact ⟨y, ys', hy, ih.mp hys', rfl⟩
    · rintro ⟨y, ys', hy, hys', rfl⟩
      exact ⟨y, hy, ys', ih.mpr hys', rfl⟩

namespace Json

variable {α : Type}

def member (members : List (List Char × Json)) (name : List Char) : Option (Option Json) :=
  -- a name that is there twice is an error
  match members.filter (·.1 = name) with
  | [] => some none
  | [(_, value)] => some (some value)
  | _ => none

/-- The fields of a structure with these names, each with the value there is. -/
def fields (names : List (List Char)) : Json → Option (List (Option Json))
  | obj members => names.mapM (member members)
  | arr items =>
    -- items that are missing are absent fields, and one too many is an error
    if items.length ≤ names.length then
      some (items.map some ++ List.replicate (names.length - items.length) none)
    else none
  | _ => none

def vec (read : Json → Option α) : Json → Option (List α)
  | arr items => items.mapM read
  | _ => none

/-- The variant of an enumeration without data: its name, or an object that has only this. -/
def variant : Json → Option (List Char)
  | str name => some name
  | obj [(name, null)] => some name
  | _ => none

def asOptionStr : Json → Option (Option (List Char))
  | null => some none
  | json => json.asStr.map some

/-- **Fewer fields.** What has the fields of the longer structure has those of the shorter one,
unless it is an array with more items than these. -/
theorem fields_of_fields_append {names more : List (List Char)} {json : Json}
    {found : List (Option Json)} (h : json.fields (names ++ more) = some found) :
    json.fields names = some (found.take names.length) ∨
      json.fields names = none ∧ ∃ items, json = arr items ∧ names.length < items.length := by
  cases json with
  | obj members =>
    simp only [fields, List.mapM_append, Option.bind_eq_bind, Option.bind_eq_some_iff] at h
    obtain ⟨first, hfirst, rest, -, hfound⟩ := h
    obtain rfl := Option.some.inj hfound
    refine .inl ?_
    rw [fields, hfirst, (mapM_eq_some.mp hfirst).length_eq, List.take_left]
  | arr items =>
    simp only [fields, Option.ite_none_right_eq_some, Option.some.injEq] at h ⊢
    obtain ⟨-, rfl⟩ := h
    by_cases hlength : items.length ≤ names.length
    · refine .inl ⟨hlength, ?_⟩
      have hmap : (items.map some).length = items.length := List.length_map _
      rw [List.take_append, hmap, List.take_of_length_le (hmap ▸ hlength), List.take_replicate]
      congr 2
      simp only [List.length_append]
      omega
    · exact .inr ⟨by rw [if_neg hlength], items, rfl, Nat.lt_of_not_le hlength⟩
  | null | bool | int | float | str => cases h

end Json

end Goble
