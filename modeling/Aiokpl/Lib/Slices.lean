import Mathlib.Tactic

/-!
# Slices of a list

`range 0 n step` of a loop over the slices of a list, and the slices: they are the list,
cut every `step` places.
-/

namespace Aiokpl.Lib

universe u

variable {α : Type u}

/-- `range(0, stop, step)`, for a positive step. -/
def rangeStep (stop step : ℕ) : List ℕ :=
  (List.range ((stop + step - 1) / step)).map fun i => i * step

/-- `[xs[i : i + step] for i in range(0, len(xs), step)]`. -/
def slices (step : ℕ) (xs : List α) : List (List α) :=
  (rangeStep xs.length step).map fun i => (xs.drop i).take step

theorem mem_rangeStep {stop step i : ℕ} (hstep : 0 < step) (h : i ∈ rangeStep stop step) :
    i < stop := by
  obtain ⟨j, hj, rfl⟩ := List.mem_map.mp h
  rw [List.mem_range] at hj
  have hle : (j + 1) * step ≤ stop + step - 1 := (Nat.le_div_iff_mul_le hstep).mp hj
  rw [Nat.add_mul, Nat.one_mul] at hle
  omega

@[simp] theorem slices_nil {step : ℕ} (hstep : 0 < step) : slices step ([] : List α) = [] := by
  have hnone : (0 + step - 1) / step = 0 := Nat.div_eq_of_lt (by omega)
  rw [slices, rangeStep, List.length_nil, hnone]
  rfl

/-- The first slice, and the slices of the rest. -/
theorem slices_of_ne_nil {step : ℕ} (hstep : 0 < step) {xs : List α} (hxs : xs ≠ []) :
    slices step xs = xs.take step :: slices step (xs.drop step) := by
  have hpos := List.length_pos_iff.mpr hxs
  have hcount : (xs.length + step - 1) / step =
      ((xs.drop step).length + step - 1) / step + 1 := by
    rw [List.length_drop]
    by_cases hle : xs.length ≤ step
    · have hzero : xs.length - step = 0 := Nat.sub_eq_zero_of_le hle
      have hnone : (0 + step - 1) / step = 0 := Nat.div_eq_of_lt (by omega)
      rw [hzero, hnone]
      exact Nat.div_eq_of_lt_le (by omega) (by omega)
    · have hsplit : xs.length + step - 1 = (xs.length - step + step - 1) + step := by omega
      rw [hsplit, Nat.add_div_right _ hstep]
  rw [slices, rangeStep, hcount, List.range_succ_eq_map, List.map_cons, List.map_cons,
    Nat.zero_mul, List.drop_zero, List.map_map, List.map_map, slices, rangeStep, List.map_map]
  congr 1
  apply List.map_congr_left
  intro i _
  simp only [Function.comp_apply, List.drop_drop]
  rw [Nat.succ_mul, Nat.add_comm]

/-- **The slices** are the list. -/
theorem flatten_slices {step : ℕ} (hstep : 0 < step) (xs : List α) :
    (slices step xs).flatten = xs := by
  induction hlength : xs.length using Nat.strong_induction_on generalizing xs with
  | _ n ih =>
    by_cases hxs : xs = []
    · rw [hxs, slices_nil hstep]
      rfl
    · have hpos := List.length_pos_iff.mpr hxs
      have hrest := ih (xs.drop step).length (by rw [List.length_drop]; omega) (xs.drop step) rfl
      rw [slices_of_ne_nil hstep hxs, List.flatten_cons, hrest, List.take_append_drop]

/-- No slice is empty or too long. -/
theorem length_of_mem_slices {step : ℕ} (hstep : 0 < step) {xs slice : List α}
    (h : slice ∈ slices step xs) : 0 < slice.length ∧ slice.length ≤ step := by
  obtain ⟨i, hi, rfl⟩ := List.mem_map.mp h
  have hlt := mem_rangeStep hstep hi
  rw [List.length_take, List.length_drop]
  omega

end Aiokpl.Lib
