import Mathlib.Tactic

/-!
# Keyed entries

A list of entries under keys is a family of lists, one for each key: `under k` is the
list of what is entered under `k`, in order.
-/

namespace Aiokpl.Lib

universe u v

variable {κ : Type u} {α : Type v} [DecidableEq κ]

def under (k : κ) (entries : List (κ × α)) : List α :=
  entries.filterMap fun e => if e.1 = k then some e.2 else none

theorem mem_under {k : κ} {x : α} {entries : List (κ × α)} :
    x ∈ under k entries ↔ (k, x) ∈ entries := by
  rw [under, List.mem_filterMap]
  constructor
  · rintro ⟨⟨k', x'⟩, he, hx⟩
    rw [Option.ite_none_right_eq_some, Option.some.injEq] at hx
    obtain ⟨rfl, rfl⟩ := hx
    exact he
  · intro he
    exact ⟨(k, x), he, if_pos rfl⟩

theorem under_append (k : κ) (entries entries' : List (κ × α)) :
    under k (entries ++ entries') = under k entries ++ under k entries' :=
  List.filterMap_append

/-- What is entered under one key. -/
theorem under_map_self (k : κ) (xs : List α) : under k (xs.map fun x => (k, x)) = xs := by
  rw [under, List.filterMap_map]
  simp

theorem under_map_ne {k k' : κ} (h : k' ≠ k) (xs : List α) :
    under k (xs.map fun x => (k', x)) = [] := by
  rw [under, List.filterMap_map]
  simp [h]

/-- What is entered key by key, for distinct keys. -/
theorem under_each (k : κ) (entered : κ → List α) : ∀ {ks : List κ}, ks.Nodup →
    under k (ks.flatMap fun k' => (entered k').map fun x => (k', x)) =
      if k ∈ ks then entered k else []
  | [], _ => rfl
  | k' :: ks, hnodup => by
    obtain ⟨hfirst, hrest⟩ := List.nodup_cons.mp hnodup
    rw [List.flatMap_cons, under_append, under_each k entered hrest]
    by_cases hk : k' = k
    · subst hk
      rw [under_map_self, if_neg hfirst, if_pos List.mem_cons_self, List.append_nil]
    · have hne : k ≠ k' := fun heq => hk heq.symm
      rw [under_map_ne hk]
      simp [hne]

end Aiokpl.Lib
