import Mathlib.Tactic

/-!
# Longest prefixes under a bound

A greedy loop that takes elements while a bound still holds computes the longest
prefix within the bound, provided the bound is inherited by prefixes.
-/

namespace Aiokpl.Lib

universe u

variable {α : Type u} {fits : List α → Prop} {xs p : List α}

/-- `p` is the longest prefix of `xs` that satisfies `fits`. -/
structure IsLongestPrefix (fits : List α → Prop) (xs p : List α) : Prop where
  isPrefix : p <+: xs
  holds : fits p
  longest : ∀ q, q <+: xs → fits q → q.length ≤ p.length

/-- The bound is inherited by prefixes. -/
def PrefixClosed (fits : List α → Prop) : Prop :=
  ∀ p q, p <+: q → fits q → fits p

/-- A list that fits as a whole is its own longest prefix. -/
theorem IsLongestPrefix.self (h : fits xs) : IsLongestPrefix fits xs xs :=
  ⟨List.prefix_refl xs, h, fun _ hq _ => hq.length_le⟩

/-- A prefix that fits, and stops fitting with the next element, is the longest. -/
theorem IsLongestPrefix.of_next {x : α} (rest : List α) (hclosed : PrefixClosed fits)
    (hp : fits p) (hnext : ¬ fits (p ++ [x])) : IsLongestPrefix fits (p ++ x :: rest) p := by
  refine ⟨List.prefix_append p _, hp, ?_⟩
  intro q hq hfit
  by_contra hlen
  have hsub : p ++ [x] <+: q := by
    have hall : p ++ [x] <+: p ++ x :: rest := ⟨rest, by simp⟩
    refine List.prefix_of_prefix_length_le hall hq ?_
    simp only [List.length_append, List.length_cons, List.length_nil]
    omega
  exact hnext (hclosed _ _ hsub hfit)

/-- The longest prefix is unique. -/
theorem IsLongestPrefix.unique {q : List α} (hp : IsLongestPrefix fits xs p)
    (hq : IsLongestPrefix fits xs q) : p = q := by
  have hle := hp.longest q hq.isPrefix hq.holds
  have hge := hq.longest p hp.isPrefix hp.holds
  exact (List.prefix_of_prefix_length_le hp.isPrefix hq.isPrefix hge).eq_of_length (by omega)

end Aiokpl.Lib
