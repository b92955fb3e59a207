import Mathlib.Tactic
import Aiokpl.Lib.Dict

/-!
# Numbering by first appearance

The elements of a list, each once, in the order in which they first appear: there is one
such list, an element seen before leaves it as it is, and a new one goes to its end.  So
it only grows at the end as the list it is made of does, and a dictionary of positions
in it stays right when it gets an entry for each new element.
-/

namespace Aiokpl.Lib

universe u

variable {α : Type u} [DecidableEq α]

/-- `keys` has the elements of `xs`, each once, in the order in which they first appear. -/
structure FirstAppearances (xs keys : List α) : Prop where
  mem_iff : ∀ a, a ∈ keys ↔ a ∈ xs
  ordered : keys.Pairwise fun a b => xs.idxOf a < xs.idxOf b

namespace FirstAppearances

variable {xs more keys keys' : List α} {a : α}

theorem nil : FirstAppearances ([] : List α) [] := ⟨fun _ => Iff.rfl, .nil⟩

theorem nodup (h : FirstAppearances xs keys) : keys.Nodup := by
  apply h.ordered.imp
  rintro a _ hlt rfl
  exact lt_irrefl _ hlt

/-- The order leaves no choice. -/
theorem unique (h : FirstAppearances xs keys) (h' : FirstAppearances xs keys') : keys = keys' := by
  have hperm : keys.Perm keys' :=
    (List.perm_ext_iff_of_nodup h.nodup h'.nodup).mpr fun a =>
      (h.mem_iff a).trans (h'.mem_iff a).symm
  apply List.Perm.eq_of_pairwise _ h.ordered h'.ordered hperm
  intro a b _ _ hlt hgt
  exact absurd hgt (lt_asymm hlt)

/-- More of the list does not change where its elements first appear. -/
theorem ordered_append (h : FirstAppearances xs keys) (more : List α) :
    keys.Pairwise fun a b => (xs ++ more).idxOf a < (xs ++ more).idxOf b := by
  apply h.ordered.imp_of_mem
  intro a b ha hb hlt
  rw [List.idxOf_append_of_mem ((h.mem_iff a).mp ha),
    List.idxOf_append_of_mem ((h.mem_iff b).mp hb)]
  exact hlt

/-- Elements that have all been seen add nothing. -/
theorem append_seen (h : FirstAppearances xs keys) (hseen : ∀ a ∈ more, a ∈ keys) :
    FirstAppearances (xs ++ more) keys := by
  refine ⟨fun a => ?_, h.ordered_append more⟩
  rw [List.mem_append, h.mem_iff a]
  constructor
  · exact Or.inl
  · rintro (ha | ha)
    · exact ha
    · exact (h.mem_iff a).mp (hseen a ha)

/-- A new one is the last. -/
theorem concat_new (h : FirstAppearances xs keys) (hnew : a ∉ keys) :
    FirstAppearances (xs ++ [a]) (keys ++ [a]) := by
  have hunseen : a ∉ xs := fun ha => hnew ((h.mem_iff a).mpr ha)
  constructor
  · intro b
    rw [List.mem_append, List.mem_append, h.mem_iff b]
  · refine List.pairwise_append.mpr ⟨h.ordered_append [a], List.pairwise_singleton _ _, ?_⟩
    intro b hb c hc
    obtain rfl := List.mem_singleton.mp hc
    have hseen := (h.mem_iff b).mp hb
    rw [List.idxOf_append_of_mem hseen, List.idxOf_append_of_notMem hunseen]
    exact Nat.lt_add_right _ (List.idxOf_lt_length_of_mem hseen)

theorem concat (h : FirstAppearances xs keys) (a : α) :
    FirstAppearances (xs ++ [a]) (if a ∈ keys then keys else keys ++ [a]) := by
  split
  · rename_i hseen
    exact h.append_seen fun b hb => List.mem_singleton.mp hb ▸ hseen
  · rename_i hnew
    exact h.concat_new hnew

/-- **Growth.**  The elements of a longer list come behind those of the shorter one. -/
theorem isPrefix (h : FirstAppearances xs keys) (h' : FirstAppearances (xs ++ more) keys') :
    keys <+: keys' := by
  have hgrown : ∃ grown, keys <+: grown ∧ FirstAppearances (xs ++ more) grown := by
    clear h'
    induction more using List.reverseRecOn with
    | nil => exact ⟨keys, List.prefix_rfl, by rwa [List.append_nil]⟩
    | append_singleton more a ih =>
      obtain ⟨grown, hgrown, hfirst⟩ := ih
      rw [← List.append_assoc]
      refine ⟨_, ?_, hfirst.concat a⟩
      split
      · exact hgrown
      · exact hgrown.trans (List.prefix_append _ _)
  obtain ⟨grown, hgrown, hfirst⟩ := hgrown
  rw [h'.unique hfirst]
  exact hgrown

end FirstAppearances

/-- The dictionary has every element of the list under its position, and no other entry. -/
def Positions (keys : List α) (index : Dict α Nat) : Prop :=
  ∀ a i, index.get? a = some i ↔ keys[i]? = some a

/-- Entries that are right, one for each element, are the positions. -/
theorem positions_of_entries {keys : List α} {index : Dict α Nat} (hnodup : keys.Nodup)
    (hright : ∀ a i, index.get? a = some i → keys[i]? = some a)
    (hall : ∀ a ∈ keys, ∃ i, index.get? a = some i) : Positions keys index := by
  intro a i
  refine ⟨hright a i, fun hi => ?_⟩
  obtain ⟨j, hj⟩ := hall a (List.mem_of_getElem? hi)
  have hlt := (List.getElem?_eq_some_iff.mp hi).1
  rw [hj, (List.getElem?_inj hlt hnodup).mp (hi.trans (hright a j hj).symm)]

end Aiokpl.Lib
