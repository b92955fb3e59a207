import Mathlib.Tactic
import Mathlib.Data.List.Sort

/-!
# Stable sorting by a key

`sortBy key xs` is the stable sort of `xs`: a permutation, ordered by `key`,
that keeps elements of equal key in their original order.  `IsStableSort` says
so without mentioning an algorithm, and `IsStableSort.eq_sortBy` shows that the
three conditions determine the list.
-/

namespace Aiokpl.Lib

universe u v

variable {α : Type u} {κ : Type v} [LinearOrder κ]

/-- Stable sort by `key`. -/
def sortBy (key : α → κ) (xs : List α) : List α :=
  xs.insertionSort fun a b => key a ≤ key b

/-- `ys` is `xs` reordered by `key`, elements of equal key in their old order. -/
structure IsStableSort (key : α → κ) (xs ys : List α) : Prop where
  perm : ys.Perm xs
  sorted : ys.Pairwise fun a b => key a ≤ key b
  stable : ∀ k, ys.filter (fun a => key a = k) = xs.filter (fun a => key a = k)

@[simp] theorem sortBy_nil (key : α → κ) : sortBy key [] = [] := rfl

theorem sortBy_perm (key : α → κ) (xs : List α) : (sortBy key xs).Perm xs :=
  List.perm_insertionSort _ xs

@[simp] theorem mem_sortBy {key : α → κ} {xs : List α} {a : α} :
    a ∈ sortBy key xs ↔ a ∈ xs := (sortBy_perm key xs).mem_iff

@[simp] theorem sortBy_eq_nil {key : α → κ} {xs : List α} :
    sortBy key xs = [] ↔ xs = [] := by
  constructor
  · intro h
    have hperm := sortBy_perm key xs
    rw [h] at hperm
    exact hperm.nil_eq.symm
  · rintro rfl
    rfl

theorem sortBy_sorted (key : α → κ) (xs : List α) :
    (sortBy key xs).Pairwise fun a b => key a ≤ key b := by
  have : Std.Total fun a b : α => key a ≤ key b := ⟨fun a b => le_total (key a) (key b)⟩
  have : IsTrans α fun a b => key a ≤ key b := ⟨fun _ _ _ => le_trans⟩
  exact List.pairwise_insertionSort _ xs

/-- Elements of one key keep their order: each key class is a sublist on which
    the order relation holds throughout, so sorting does not move it. -/
theorem sortBy_filter_key (key : α → κ) (xs : List α) (k : κ) :
    (sortBy key xs).filter (fun a => key a = k) = xs.filter (fun a => key a = k) := by
  have : Std.Total fun a b : α => key a ≤ key b := ⟨fun a b => le_total (key a) (key b)⟩
  have : IsTrans α fun a b => key a ≤ key b := ⟨fun _ _ _ => le_trans⟩
  set cls := xs.filter fun a => key a = k with hcls
  have hclass : ∀ a ∈ cls, key a = k := by
    intro a ha
    simpa using (List.mem_filter.mp ha).2
  have hpair : cls.Pairwise fun a b => key a ≤ key b := by
    refine List.pairwise_of_forall_mem_list ?_
    intro a ha b hb
    rw [hclass a ha, hclass b hb]
  have hsub : cls.Sublist (sortBy key xs) :=
    List.sublist_insertionSort hpair List.filter_sublist
  have hsub' : cls.Sublist ((sortBy key xs).filter fun a => key a = k) := by
    have hkeep : cls.filter (fun a => key a = k) = cls :=
      List.filter_eq_self.mpr fun a ha => by simpa using hclass a ha
    have := hsub.filter fun a => key a = k
    rwa [hkeep] at this
  have hlen : ((sortBy key xs).filter fun a => key a = k).length = cls.length :=
    ((sortBy_perm key xs).filter _).length_eq
  exact (hsub'.eq_of_length hlen.symm).symm

theorem sortBy_isStableSort (key : α → κ) (xs : List α) : IsStableSort key xs (sortBy key xs) :=
  ⟨sortBy_perm key xs, sortBy_sorted key xs, sortBy_filter_key key xs⟩

/-- A sorted list is determined by its key classes. -/
theorem eq_of_sorted_of_filter_eq {key : α → κ} :
    ∀ {ys zs : List α}, ys.Pairwise (fun a b => key a ≤ key b) →
      zs.Pairwise (fun a b => key a ≤ key b) →
      (∀ k, ys.filter (fun a => key a = k) = zs.filter (fun a => key a = k)) → ys = zs
  | [], [], _, _, _ => rfl
  | [], z :: zs, _, _, h => by simpa using h (key z)
  | y :: ys, [], _, _, h => by simpa using h (key y)
  | y :: ys, z :: zs, hy, hz, h => by
    -- both heads carry the least key, and the class of that key starts with them
    have hyz : key y ≤ key z := by
      have hmem : z ∈ (y :: ys).filter (fun a => key a = key z) := by
        rw [h (key z)]
        simp
      rcases List.mem_cons.mp (List.mem_filter.mp hmem).1 with rfl | hmem'
      · exact le_rfl
      · exact (List.pairwise_cons.mp hy).1 z hmem'
    have hzy : key z ≤ key y := by
      have hmem : y ∈ (z :: zs).filter (fun a => key a = key y) := by
        rw [← h (key y)]
        simp
      rcases List.mem_cons.mp (List.mem_filter.mp hmem).1 with rfl | hmem'
      · exact le_rfl
      · exact (List.pairwise_cons.mp hz).1 y hmem'
    have hkey : key y = key z := le_antisymm hyz hzy
    have hhead : y = z := by
      have := h (key z)
      simp only [List.filter_cons, hkey, decide_true, if_true, List.cons.injEq] at this
      exact this.1
    subst hhead
    have htail : ys = zs := by
      refine eq_of_sorted_of_filter_eq hy.of_cons hz.of_cons ?_
      intro k
      have := h k
      by_cases hk : key y = k
      · simpa [List.filter_cons, hk] using this
      · simpa [List.filter_cons, hk] using this
    rw [htail]

/-- The stable sort is unique. -/
theorem IsStableSort.eq_sortBy {key : α → κ} {xs ys : List α} (h : IsStableSort key xs ys) :
    ys = sortBy key xs :=
  eq_of_sorted_of_filter_eq h.sorted (sortBy_sorted key xs) fun k =>
    (h.stable k).trans (sortBy_filter_key key xs k).symm

/-- The key classes below and above a bound. -/
theorem filter_key_filter (key : α → κ) (xs : List α) (bound k : κ) :
    (xs.filter fun a => key a ≤ bound).filter (fun a => key a = k) =
        (if k ≤ bound then xs.filter fun a => key a = k else []) ∧
      (xs.filter fun a => bound < key a).filter (fun a => key a = k) =
        if k ≤ bound then [] else xs.filter fun a => key a = k := by
  rw [List.filter_filter, List.filter_filter]
  split
  · rename_i hle
    refine ⟨?_, ?_⟩
    · apply List.filter_congr
      intro a _
      by_cases hk : key a = k <;> simp [hk, hle]
    · apply List.filter_eq_nil_iff.mpr
      intro a _
      by_cases hk : key a = k <;> simp [hk, hle]
  · rename_i hlt
    refine ⟨?_, ?_⟩
    · apply List.filter_eq_nil_iff.mpr
      intro a _
      by_cases hk : key a = k <;> simp [hk, hlt]
    · apply List.filter_congr
      intro a _
      by_cases hk : key a = k <;> simp [hk, not_le.mp hlt]

/-- **A last element** goes right behind those of no larger key. -/
theorem sortBy_concat (key : α → κ) (xs : List α) (x : α) :
    sortBy key (xs ++ [x]) =
      sortBy key (xs.filter fun a => key a ≤ key x) ++
        x :: sortBy key (xs.filter fun a => key x < key a) := by
  have hearlier : ∀ a ∈ sortBy key (xs.filter fun a => key a ≤ key x), key a ≤ key x := by
    intro a ha
    simpa using (List.mem_filter.mp (mem_sortBy.mp ha)).2
  have hlater : ∀ a ∈ sortBy key (xs.filter fun a => key x < key a), key x < key a := by
    intro a ha
    simpa using (List.mem_filter.mp (mem_sortBy.mp ha)).2
  refine eq_of_sorted_of_filter_eq (sortBy_sorted key _) ?_ ?_
  · refine List.pairwise_append.mpr ⟨sortBy_sorted key _, List.pairwise_cons.mpr
      ⟨fun a ha => (hlater a ha).le, sortBy_sorted key _⟩, ?_⟩
    intro a ha b hb
    rcases List.mem_cons.mp hb with rfl | hb
    · exact hearlier a ha
    · exact (hearlier a ha).trans (hlater b hb).le
  · intro k
    rcases filter_key_filter key xs (key x) k with ⟨hbelow, habove⟩
    simp only [sortBy_filter_key, List.filter_append, List.filter_cons, List.filter_nil, hbelow,
      habove]
    by_cases hle : k ≤ key x
    · by_cases hk : key x = k <;> simp [hle, hk]
    · have hne : ¬ key x = k := fun h => hle h.ge
      simp [hle, hne]

/-- Sorting commutes with a map that keeps the keys. -/
theorem sortBy_map {β : Type*} (key : α → κ) (f : β → α) (xs : List β) :
    sortBy key (xs.map f) = (sortBy (fun b => key (f b)) xs).map f := by
  refine (IsStableSort.eq_sortBy ⟨(sortBy_perm _ xs).map f, ?_, fun k => ?_⟩).symm
  · rw [List.pairwise_map]
    exact sortBy_sorted _ xs
  · have hclass := sortBy_filter_key (fun b => key (f b)) xs k
    rw [List.filter_map, List.filter_map]
    exact congrArg (List.map f) hclass

end Aiokpl.Lib
