import Mathlib.Tactic
import Mathlib.Algebra.BigOperators.Group.List.Basic

/-!
# Insertion-ordered dictionaries

A dictionary is its list of entries in insertion order, no key twice.  Setting a
key that is present keeps its place, a new key goes to the end.  `total` adds a
weight over the values; it is what accounting over a dictionary needs, and it
moves with `set` and `erase` one entry at a time.
-/

namespace Aiokpl.Lib

universe u v w

@[ext]
structure Dict (κ : Type u) (ν : Type v) where
  entries : List (κ × ν)
  nodup : (entries.map Prod.fst).Nodup
  deriving DecidableEq

namespace Dict

variable {κ : Type u} {ν : Type v} [DecidableEq κ]

instance [Repr κ] [Repr ν] : Repr (Dict κ ν) := ⟨fun d n => reprPrec d.entries n⟩

def empty : Dict κ ν := ⟨[], List.nodup_nil⟩

def keys (d : Dict κ ν) : List κ := d.entries.map Prod.fst

def values (d : Dict κ ν) : List ν := d.entries.map Prod.snd

/-- `d.get(k)`. -/
def get? (d : Dict κ ν) (k : κ) : Option ν :=
  (d.entries.find? fun e => e.1 = k).map Prod.snd

/-- `d.pop(k, None)`, without the value. -/
def erase (d : Dict κ ν) (k : κ) : Dict κ ν :=
  ⟨d.entries.filter fun e => e.1 ≠ k, d.nodup.sublist (List.filter_sublist.map _)⟩

/-- The entry list after `d[k] = v`. -/
def setEntries (k : κ) (v : ν) : List (κ × ν) → List (κ × ν)
  | [] => [(k, v)]
  | e :: rest => if e.1 = k then (k, v) :: rest else e :: setEntries k v rest

theorem map_fst_setEntries (k : κ) (v : ν) (es : List (κ × ν)) :
    (setEntries k v es).map Prod.fst =
      if k ∈ es.map Prod.fst then es.map Prod.fst else es.map Prod.fst ++ [k] := by
  induction es with
  | nil => simp [setEntries]
  | cons e rest ih =>
    by_cases hk : e.1 = k
    · simp [setEntries, hk]
    · simp only [setEntries, hk, if_false, List.map_cons, ih, List.mem_cons]
      by_cases hmem : k ∈ rest.map Prod.fst
      · simp [hmem]
      · simp [hmem, Ne.symm hk]

/-- `d[k] = v`. -/
def set (d : Dict κ ν) (k : κ) (v : ν) : Dict κ ν :=
  ⟨setEntries k v d.entries, by
    rw [map_fst_setEntries]
    split
    · exact d.nodup
    · rename_i hmem
      exact List.nodup_append.mpr ⟨d.nodup, by simp, by
        intro a ha b hb hab
        rw [List.mem_singleton.mp hb] at hab
        exact hmem (hab ▸ ha)⟩⟩

theorem get?_eq_some_iff {d : Dict κ ν} {k : κ} {v : ν} :
    d.get? k = some v ↔ (k, v) ∈ d.entries := by
  constructor
  · intro h
    obtain ⟨e, he, hv⟩ := Option.map_eq_some_iff.mp h
    have hkey : e.1 = k := by simpa using List.find?_some he
    have hmem := List.mem_of_find?_eq_some he
    rwa [← hkey, ← hv]
  · intro hmem
    cases hfind : d.entries.find? fun e => e.1 = k with
    | none => simpa using List.find?_eq_none.mp hfind _ hmem
    | some e =>
      have hkey : e.1 = k := by simpa using List.find?_some hfind
      have heq : e = (k, v) :=
        List.inj_on_of_nodup_map d.nodup (List.mem_of_find?_eq_some hfind) hmem hkey
      simp [get?, hfind, heq]

theorem get?_eq_none_iff {d : Dict κ ν} {k : κ} : d.get? k = none ↔ k ∉ d.keys := by
  simp only [get?, Option.map_eq_none_iff, List.find?_eq_none, keys, List.mem_map,
    decide_eq_true_eq, not_exists, not_and]

/-- The entries of one key. -/
theorem filter_key (d : Dict κ ν) (k : κ) :
    d.entries.filter (fun e => e.1 = k) = ((d.get? k).map (Prod.mk k)).toList := by
  have hentries : ∀ es : List (κ × ν), (es.map Prod.fst).Nodup →
      es.filter (fun e => e.1 = k) =
        ((es.find? fun e => e.1 = k).map fun e => (k, e.2)).toList := by
    intro es hnodup
    induction es with
    | nil => rfl
    | cons e rest ih =>
      rw [List.map_cons, List.nodup_cons] at hnodup
      by_cases hk : e.1 = k
      · have hrest : rest.filter (fun e' => decide (e'.1 = k)) = [] := by
          rw [List.filter_eq_nil_iff]
          intro e' he'
          simpa using fun heq : e'.1 = k =>
            hnodup.1 (List.mem_map.mpr ⟨e', he', heq.trans hk.symm⟩)
        rw [List.filter_cons_of_pos (by simpa using hk), hrest,
          List.find?_cons_of_pos (by simpa using hk), ← hk]
        rfl
      · simp [hk, ih hnodup.2]
  rw [hentries d.entries d.nodup, get?, Option.map_map]
  rfl

@[simp] theorem get?_empty (k : κ) : (empty : Dict κ ν).get? k = none := rfl

theorem mem_values {d : Dict κ ν} {v : ν} : v ∈ d.values ↔ ∃ k, d.get? k = some v := by
  simp only [values, List.mem_map, Prod.exists, exists_eq_right, get?_eq_some_iff]

theorem mem_setEntries {k k' : κ} {v v' : ν} :
    ∀ {es : List (κ × ν)}, (es.map Prod.fst).Nodup →
      ((k', v') ∈ setEntries k v es ↔ (k' = k ∧ v' = v) ∨ (k' ≠ k ∧ (k', v') ∈ es))
  | [], _ => by simp [setEntries]
  | e :: rest, h => by
    rw [List.map_cons, List.nodup_cons] at h
    have ih : (k', v') ∈ setEntries k v rest ↔ (k' = k ∧ v' = v) ∨ (k' ≠ k ∧ (k', v') ∈ rest) :=
      mem_setEntries h.2
    by_cases hk : e.1 = k
    · subst hk
      have hrest : ∀ x, (e.1, x) ∉ rest := fun x hx => h.1 (List.mem_map.mpr ⟨_, hx, rfl⟩)
      by_cases hk' : k' = e.1
      · subst hk'
        simp [setEntries, hrest]
      · have hne : (k', v') ≠ e := fun heq => hk' (by rw [← heq])
        simp [setEntries, hk', hne]
    · simp only [setEntries, hk, if_false, List.mem_cons, ih]
      constructor
      · rintro (rfl | ⟨rfl, rfl⟩ | ⟨hne, hmem⟩)
        · exact Or.inr ⟨hk, Or.inl rfl⟩
        · exact Or.inl ⟨rfl, rfl⟩
        · exact Or.inr ⟨hne, Or.inr hmem⟩
      · rintro (⟨rfl, rfl⟩ | ⟨hne, rfl | hmem⟩)
        · exact Or.inr (Or.inl ⟨rfl, rfl⟩)
        · exact Or.inl rfl
        · exact Or.inr (Or.inr ⟨hne, hmem⟩)

theorem get?_set (d : Dict κ ν) (k k' : κ) (v : ν) :
    (d.set k v).get? k' = if k' = k then some v else d.get? k' := by
  have hiff : ∀ v', (d.set k v).get? k' = some v' ↔
      (if k' = k then some v else d.get? k') = some v' := by
    intro v'
    rw [get?_eq_some_iff]
    change (k', v') ∈ setEntries k v d.entries ↔ _
    rw [mem_setEntries d.nodup]
    by_cases hk : k' = k
    · simp [hk, eq_comm]
    · simp [hk, get?_eq_some_iff]
  exact Option.ext hiff

@[simp] theorem get?_set_self (d : Dict κ ν) (k : κ) (v : ν) : (d.set k v).get? k = some v := by
  simp [get?_set]

theorem get?_set_ne (d : Dict κ ν) {k k' : κ} (v : ν) (h : k' ≠ k) :
    (d.set k v).get? k' = d.get? k' := by
  simp [get?_set, h]

theorem get?_erase (d : Dict κ ν) (k k' : κ) :
    (d.erase k).get? k' = if k' = k then none else d.get? k' := by
  refine Option.ext fun v' => ?_
  rw [get?_eq_some_iff]
  by_cases hk : k' = k
  · simp [erase, hk]
  · simp [erase, hk, get?_eq_some_iff]

@[simp] theorem get?_erase_self (d : Dict κ ν) (k : κ) : (d.erase k).get? k = none := by
  simp [get?_erase]

theorem erase_of_get?_none {d : Dict κ ν} {k : κ} (h : d.get? k = none) : d.erase k = d := by
  rw [get?_eq_none_iff, keys] at h
  have hall : ∀ e ∈ d.entries, decide (e.1 ≠ k) = true := by
    intro e he
    simpa using fun heq : e.1 = k => h (List.mem_map.mpr ⟨e, he, heq⟩)
  cases d
  simp only [erase, Dict.mk.injEq]
  exact List.filter_eq_self.mpr hall

/-- `d[k] = f(k, d[k])` for every key. -/
def mapValues {μ : Type w} (f : κ → ν → μ) (d : Dict κ ν) : Dict κ μ :=
  ⟨d.entries.map fun e => (e.1, f e.1 e.2), by
    rw [List.map_map]
    exact d.nodup⟩

theorem get?_mapValues {μ : Type w} (f : κ → ν → μ) (d : Dict κ ν) (k : κ) :
    (d.mapValues f).get? k = (d.get? k).map (f k) := by
  rw [get?, get?, mapValues, List.find?_map, Option.map_map, Option.map_map]
  cases hfind : d.entries.find? ((fun e => decide (e.1 = k)) ∘ fun e => (e.1, f e.1 e.2)) with
  | none =>
    have hnone : d.entries.find? (fun e => decide (e.1 = k)) = none := hfind
    rw [hnone]
    rfl
  | some e =>
    have hsome : d.entries.find? (fun e => decide (e.1 = k)) = some e := hfind
    have hkey : e.1 = k := by simpa using List.find?_some hsome
    rw [hsome]
    simp [hkey]

/-! ## Weights -/

section Total

variable {M : Type w} [AddCommMonoid M] (f : κ → ν → M)

/-- The sum of `f` over the entries. -/
def total (d : Dict κ ν) : M := (d.entries.map fun e => f e.1 e.2).sum

omit [DecidableEq κ] in
@[simp] theorem total_empty : (empty : Dict κ ν).total f = 0 := rfl

theorem sum_setEntries {k : κ} {v : ν} : ∀ {es : List (κ × ν)}, (es.map Prod.fst).Nodup →
    ((setEntries k v es).map fun e => f e.1 e.2).sum =
      f k v + ((es.filter fun e => e.1 ≠ k).map fun e => f e.1 e.2).sum
  | [], _ => by simp [setEntries]
  | e :: rest, h => by
    rw [List.map_cons, List.nodup_cons] at h
    by_cases hk : e.1 = k
    · have hrest : rest.filter (fun e' => decide (e'.1 ≠ k)) = rest := by
        refine List.filter_eq_self.mpr fun e' he' => ?_
        simpa using fun heq : e'.1 = k =>
          h.1 (List.mem_map.mpr ⟨e', he', heq.trans hk.symm⟩)
      rw [setEntries, if_pos hk, List.filter_cons_of_neg (by simp [hk]), hrest]
      rfl
    · simp only [setEntries, hk, if_false, List.map_cons, List.sum_cons, sum_setEntries h.2]
      simp [hk, add_left_comm]

/-- Setting a key replaces the weight of its entry. -/
theorem total_set (d : Dict κ ν) (k : κ) (v : ν) :
    (d.set k v).total f = f k v + (d.erase k).total f :=
  sum_setEntries f d.nodup

theorem set_get?_self {d : Dict κ ν} {k : κ} {v : ν} (h : d.get? k = some v) : d.set k v = d := by
  rw [get?_eq_some_iff] at h
  have hsame : ∀ es : List (κ × ν), (es.map Prod.fst).Nodup → (k, v) ∈ es →
      setEntries k v es = es := by
    intro es hnodup hmem
    induction es with
    | nil => simp at hmem
    | cons e rest ih =>
      rw [List.map_cons, List.nodup_cons] at hnodup
      rcases List.mem_cons.mp hmem with rfl | hmem'
      · simp [setEntries]
      · have hk : e.1 ≠ k := fun heq =>
          hnodup.1 (List.mem_map.mpr ⟨_, hmem', heq.symm⟩)
        simp [setEntries, hk, ih hnodup.2 hmem']
  cases d
  simp only [set, Dict.mk.injEq]
  exact hsame _ (by assumption) h

/-- A new key goes to the end. -/
theorem entries_set_of_none {d : Dict κ ν} {k : κ} (h : d.get? k = none) (v : ν) :
    (d.set k v).entries = d.entries ++ [(k, v)] := by
  have hset : ∀ {es : List (κ × ν)}, k ∉ es.map Prod.fst → setEntries k v es = es ++ [(k, v)] := by
    intro es hk
    induction es with
    | nil => rfl
    | cons e es ih =>
      rw [List.map_cons, List.mem_cons, not_or] at hk
      rw [setEntries, if_neg (Ne.symm hk.1), ih hk.2, List.cons_append]
  exact hset (get?_eq_none_iff.mp h)

/-- The weight of a present key stands out of the total. -/
theorem total_of_get? {d : Dict κ ν} {k : κ} {v : ν} (h : d.get? k = some v) :
    d.total f = f k v + (d.erase k).total f := by
  conv_lhs => rw [← set_get?_self h]
  exact total_set f d k v

/-- A new key adds its weight. -/
theorem total_set_of_none {d : Dict κ ν} {k : κ} (h : d.get? k = none) (v : ν) :
    (d.set k v).total f = f k v + d.total f := by
  rw [total_set, erase_of_get?_none h]

/-- A present key exchanges its weight. -/
theorem total_set_of_get? {d : Dict κ ν} {k : κ} {v : ν} (h : d.get? k = some v) (v' : ν) :
    (d.set k v').total f + f k v = d.total f + f k v' := by
  rw [total_set, total_of_get? f h]
  abel

end Total

end Dict

end Aiokpl.Lib
