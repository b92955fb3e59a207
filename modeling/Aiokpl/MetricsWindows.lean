import Aiokpl.Metrics
import Mathlib.Data.List.MinMax

/-!
# What a rolling window shows

Buckets add up, whichever way the observations are spread over them: `merge` is the
addition of a commutative monoid, and putting a value adds a bucket of its own.  With
the invariant that the buckets are those of the log, from the next cutoff on, the lazy
evictions of `put` and `stats` cannot be told from a scan of all that was ever put.
-/

namespace Aiokpl

open Lib RollingWindow

namespace Metrics

/-! ## Buckets add up -/

theorem Bucket.merge_eq (acc b : Bucket) :
    acc.merge b =
      { count := acc.count + b.count, sum := acc.sum + b.sum
        min := acc.min ⊓ b.min, max := acc.max ⊔ b.max } := by
  have hmin : (if b.min < acc.min then b.min else acc.min) = acc.min ⊓ b.min := by
    split
    · rename_i h
      exact (inf_eq_right.mpr h.le).symm
    · rename_i h
      exact (inf_eq_left.mpr (not_lt.mp h)).symm
  have hmax : (if b.max > acc.max then b.max else acc.max) = acc.max ⊔ b.max := by
    split
    · rename_i h
      exact (sup_eq_right.mpr h.le).symm
    · rename_i h
      exact (sup_eq_left.mpr (not_lt.mp h)).symm
  rw [Bucket.merge, hmin, hmax]

instance : Zero Bucket := ⟨{}⟩

instance : Add Bucket := ⟨Bucket.merge⟩

theorem Bucket.add_def (a b : Bucket) :
    a + b =
      { count := a.count + b.count, sum := a.sum + b.sum
        min := a.min ⊓ b.min, max := a.max ⊔ b.max } :=
  Bucket.merge_eq a b

instance : AddCommMonoid Bucket where
  add_assoc a b c := by
    simp only [Bucket.add_def, add_assoc, inf_assoc, sup_assoc]
  zero_add a := by
    have hzero : (0 : Bucket) = {} := rfl
    simp only [Bucket.add_def, hzero, zero_add, top_inf_eq, bot_sup_eq]
  add_zero a := by
    have hzero : (0 : Bucket) = {} := rfl
    simp only [Bucket.add_def, hzero, add_zero, inf_top_eq, sup_bot_eq]
  add_comm a b := by
    simp only [Bucket.add_def, add_comm, inf_comm, sup_comm]
  nsmul := nsmulRec

/-- A bucket with one observation. -/
def Bucket.of (value : ℚ) : Bucket := Bucket.add value {}

theorem Bucket.of_eq (value : ℚ) :
    Bucket.of value = { count := 1, sum := value, min := value, max := value } := by
  have htop : (value : WithTop ℚ) < ⊤ := WithTop.coe_lt_top value
  have hbot : (⊥ : WithBot ℚ) < value := WithBot.bot_lt_coe value
  simp [Bucket.of, Bucket.add, htop, hbot]

/-- `put` adds the bucket of its value. -/
theorem Bucket.add_eq (value : ℚ) (b : Bucket) : Bucket.add value b = b + Bucket.of value := by
  have hmerge : Bucket.add value b =
      b.merge { count := 1, sum := value, min := value, max := value } := rfl
  rw [Bucket.of_eq, hmerge]
  rfl

/-- `stats` adds up the buckets that are left. -/
theorem stats_eq {window : Int} (acc : Accumulator window) :
    acc.stats = if acc.buckets = [] then none else some (total id acc.buckets) := by
  have hsum : (acc.buckets.map Prod.snd).foldl Bucket.merge {} = total id acc.buckets := by
    rw [total, List.sum_eq_foldl]
    rfl
  rw [Accumulator.stats, hsum]

/-! ## The whole history -/

/-- The number, the sum, the least and the greatest of the values, if there are any. -/
def figuresOver (values : List ℚ) : Option Bucket :=
  if values = [] then none
  else some
    { count := values.length, sum := values.sum
      min := values.minimum, max := values.maximum }

theorem sum_map_of (values : List ℚ) :
    (values.map Bucket.of).sum =
      { count := values.length, sum := values.sum
        min := values.minimum, max := values.maximum } := by
  induction values with
  | nil => rfl
  | cons value rest ih =>
    rw [List.map_cons, List.sum_cons, ih, Bucket.of_eq, Bucket.add_def, List.length_cons,
      List.sum_cons, List.minimum_cons, List.maximum_cons, Nat.add_comm]

theorem figuresOver_eq (values : List ℚ) :
    figuresOver values = if values = [] then none else some (values.map Bucket.of).sum := by
  rw [sum_map_of]
  rfl

theorem figuresOver_eq_some_iff {values : List ℚ} {st : Bucket} :
    figuresOver values = some st ↔ values ≠ [] ∧ st = (values.map Bucket.of).sum := by
  rw [figuresOver_eq, Option.ite_none_left_eq_some, Option.some.injEq, eq_comm (a := st)]

/-! ## One accumulator -/

section Accumulators

variable {window : Int}

theorem toSeconds_mono {t t' : Time} (h : t ≤ t') : toSeconds t ≤ toSeconds t' := by
  unfold toSeconds
  split_ifs with ht ht'
  · exact Int.floor_le_floor h
  · exact absurd (ht.trans h) ht'
  · have hneg : ⌈t⌉ ≤ 0 := Int.ceil_le.mpr (by simpa using (not_le.mp ht).le)
    exact hneg.trans (Int.floor_nonneg.mpr (by assumption))
  · exact Int.ceil_le_ceil h

/-- The values of the log that are in the window at this time. -/
def shownAt (window : Int) (t : Time) (log : List (Int × ℚ)) : List ℚ :=
  (since (cutoff (toSeconds t) window) log).map Prod.snd

/-- The buckets are those of the log, as far as this time and later ones can tell. -/
def Accumulator.Mirrors (acc : Accumulator window) (log : List (Int × ℚ)) (t : Time) : Prop :=
  RollingWindow.Mirrors id Bucket.of (cutoff (toSeconds t) window) (toSeconds t) log acc.buckets

theorem mirrors_empty (t : Time) : Accumulator.Mirrors ({} : Accumulator window) [] t :=
  RollingWindow.Mirrors.nil _ _

variable {acc : Accumulator window} {log : List (Int × ℚ)} {t t' : Time}

theorem Accumulator.Mirrors.later (h : acc.Mirrors log t) (hle : t ≤ t') : acc.Mirrors log t' := by
  have hsec := toSeconds_mono hle
  apply RollingWindow.Mirrors.later h
  · unfold cutoff
    omega
  · exact hsec

theorem Accumulator.Mirrors.evict (h : acc.Mirrors log t) :
    (acc.evict (toSeconds t)).Mirrors log t :=
  RollingWindow.Mirrors.evict h

theorem Accumulator.Mirrors.put (h : acc.Mirrors log t) (value : ℚ) :
    (acc.put t value).Mirrors (log ++ [(toSeconds t, value)]) t :=
  RollingWindow.Mirrors.record h.evict rfl Bucket.add_eq value

/-- The buckets left are those of the seconds in the window. -/
theorem Accumulator.Mirrors.mem_stamps (h : acc.Mirrors log t) {s : Int} :
    s ∈ (acc.evict (toSeconds t)).buckets.map Prod.fst ↔
      s ∈ (since (cutoff (toSeconds t) window) log).map Prod.fst :=
  h.mem_stamps_evict

theorem Accumulator.Mirrors.empty_iff (h : acc.Mirrors log t) :
    (acc.evict (toSeconds t)).buckets = [] ↔ since (cutoff (toSeconds t) window) log = [] :=
  h.evict_eq_nil_iff

/-- What `stats` returns. -/
theorem Accumulator.Mirrors.stats_evict (h : acc.Mirrors log t) :
    (acc.evict (toSeconds t)).stats = figuresOver (shownAt window t log) := by
  have htotal : total id (acc.evict (toSeconds t)).buckets =
      ((shownAt window t log).map Bucket.of).sum := by
    rw [shownAt, List.map_map]
    exact h.toTracks.total_evict
  have hempty : (acc.evict (toSeconds t)).buckets = [] ↔ shownAt window t log = [] := by
    rw [shownAt, List.map_eq_nil_iff]
    exact h.empty_iff
  rw [stats_eq, figuresOver_eq, htotal]
  simp only [hempty]

/-- The buckets that an eviction leaves are of the last `window` seconds. -/
theorem Accumulator.Mirrors.mem_evict (h : acc.Mirrors log t) {b : Int × Bucket}
    (hb : b ∈ (acc.evict (toSeconds t)).buckets) : cutoff (toSeconds t) window ≤ b.1 := by
  rw [Accumulator.evict, evict_eq_since h.sorted, since, List.mem_filter] at hb
  exact of_decide_eq_true hb.2

theorem Accumulator.Mirrors.length_le (h : acc.Mirrors log t) (hwindow : 1 ≤ window)
    (hlow : ∀ b ∈ acc.buckets, cutoff (toSeconds t) window ≤ b.1) :
    (acc.buckets.length : Int) ≤ window := by
  have hle := length_le_of_stamps h.sorted hlow h.past
  unfold cutoff at hle
  omega

theorem windowBounds_eq (hsorted : (acc.buckets.map Prod.fst).Pairwise (· < ·))
    (hne : acc.buckets ≠ []) :
    ∃ first last : Int, IsLeast {s | s ∈ acc.buckets.map Prod.fst} first ∧
      IsGreatest {s | s ∈ acc.buckets.map Prod.fst} last ∧
      acc.windowBounds = ((first : Time), (last : Time) + 1) := by
  obtain ⟨first, hfirst⟩ := Option.isSome_iff_exists.mp (List.isSome_head?.mpr hne)
  obtain ⟨last, hlast⟩ := Option.isSome_iff_exists.mp (List.getLast?_isSome.mpr hne)
  refine ⟨first.1, last.1, ⟨?_, ?_⟩, ⟨?_, ?_⟩, ?_⟩
  · exact List.mem_map_of_mem (List.mem_of_head? hfirst)
  · intro s (hs : s ∈ acc.buckets.map Prod.fst)
    obtain ⟨rest, hbuckets⟩ := List.head?_eq_some_iff.mp hfirst
    rw [hbuckets, List.map_cons, List.pairwise_cons] at hsorted
    rw [hbuckets, List.map_cons, List.mem_cons] at hs
    rcases hs with rfl | hs
    · exact le_rfl
    · exact (hsorted.1 s hs).le
  · exact List.mem_map_of_mem (List.mem_of_getLast? hlast)
  · intro s (hs : s ∈ acc.buckets.map Prod.fst)
    obtain ⟨init, hbuckets⟩ := List.getLast?_eq_some_iff.mp hlast
    rw [hbuckets, List.map_append, List.pairwise_append] at hsorted
    rw [hbuckets, List.map_append, List.mem_append] at hs
    rcases hs with hs | hs
    · exact (hsorted.2.2 s hs last.1 (by simp)).le
    · rw [List.map_singleton, List.mem_singleton] at hs
      exact hs.le
  · rw [Accumulator.windowBounds, hfirst, hlast]

end Accumulators

/-! ## Every interleaving of calls -/

/-- A call on an accumulator, and its reading of the clock. -/
inductive Call
  | put (now : Time) (value : ℚ)
  | stats (now : Time)

def Call.now : Call → Time
  | .put now _ => now
  | .stats now => now

def Call.observation : Call → Option (Time × ℚ)
  | .put now value => some (now, value)
  | .stats _ => none

variable {window : Int}

/-- What a call leaves. -/
def Accumulator.after (acc : Accumulator window) : Call → Accumulator window
  | .put now value => acc.put now value
  | .stats now => acc.evict (toSeconds now)

def Accumulator.run (window : Int) (calls : List Call) : Accumulator window :=
  calls.foldl Accumulator.after {}

/-- What the calls put, with the seconds that `int` makes of the times. -/
def logOf (calls : List Call) : List (Int × ℚ) :=
  (calls.filterMap Call.observation).map fun p => (toSeconds p.1, p.2)

theorem logOf_snoc (calls : List Call) (call : Call) :
    logOf (calls ++ [call]) =
      logOf calls ++ (call.observation.map fun p => (toSeconds p.1, p.2)).toList := by
  rw [logOf, List.filterMap_append, List.map_append]
  cases call <;> rfl

theorem run_snoc (calls : List Call) (call : Call) :
    Accumulator.run window (calls ++ [call]) = (Accumulator.run window calls).after call := by
  rw [Accumulator.run, List.foldl_append]
  rfl

/-- One call keeps the buckets those of the log, and within the window. -/
theorem after_mirrors {acc : Accumulator window} {log : List (Int × ℚ)} {call : Call}
    (hwindow : 1 ≤ window) (h : acc.Mirrors log call.now) :
    (acc.after call).Mirrors
        (log ++ (call.observation.map fun p => (toSeconds p.1, p.2)).toList) call.now ∧
      ∀ b ∈ (acc.after call).buckets, cutoff (toSeconds call.now) window ≤ b.1 := by
  cases call with
  | put now value =>
    have hnow : cutoff (toSeconds now) window ≤ toSeconds now := by
      unfold cutoff
      omega
    refine ⟨h.put value, ?_⟩
    intro b hb
    have hstamp := (mem_stamps_record value _).mp (List.mem_map_of_mem hb)
    rcases hstamp with heq | hmem
    · exact heq ▸ hnow
    · obtain ⟨b', hb', hfst⟩ := List.mem_map.mp hmem
      rw [← hfst]
      exact h.mem_evict hb'
  | stats now =>
    refine ⟨?_, fun b hb => h.mem_evict hb⟩
    have hlog : log ++ ((Call.stats now).observation.map fun p => (toSeconds p.1, p.2)).toList =
        log := List.append_nil log
    rw [hlog]
    exact h.evict

/-- **A whole run** keeps the buckets those of the log, and as many as the window has
    seconds at most. -/
theorem run_mirrors (hwindow : 1 ≤ window) {calls : List Call} {t : Time}
    (hordered : (calls.map Call.now ++ [t]).Pairwise (· ≤ ·)) :
    (Accumulator.run window calls).Mirrors (logOf calls) t ∧
      ((Accumulator.run window calls).buckets.length : Int) ≤ window := by
  induction calls using List.reverseRecOn generalizing t with
  | nil => exact ⟨mirrors_empty t, by simp [Accumulator.run]; omega⟩
  | append_singleton calls call ih =>
    rw [List.map_append, List.map_singleton, List.pairwise_append] at hordered
    obtain ⟨hcalls, _, hlater⟩ := hordered
    obtain ⟨hmirrors, hlow⟩ := after_mirrors hwindow (ih hcalls).1
    rw [run_snoc, logOf_snoc]
    constructor
    · exact hmirrors.later (hlater call.now (by simp) t (by simp))
    · exact hmirrors.length_le hwindow hlow

/-- What the calls put in the last `window` seconds. -/
def putInWindow (window : Int) (now : Time) (calls : List Call) : List (Time × ℚ) :=
  (calls.filterMap Call.observation).filter fun p =>
    ⌊now⌋ - window + 1 ≤ ⌊p.1⌋ ∧ ⌊p.1⌋ ≤ ⌊now⌋

/-- The seconds of these observations. -/
def secondsOf (observations : List (Time × ℚ)) : Set Int := {s | ∃ p ∈ observations, ⌊p.1⌋ = s}

theorem toSeconds_of_nonneg {t : Time} (h : 0 ≤ t) : toSeconds t = ⌊t⌋ := if_pos h

/-- The clock does not run backwards, so the cutoff is the only bound that matters. -/
theorem since_logOf {calls : List Call} {now : Time} (hnow : 0 ≤ now)
    (hpast : ∀ call ∈ calls, 0 ≤ call.now ∧ call.now ≤ now) :
    since (cutoff (toSeconds now) window) (logOf calls) =
      (putInWindow window now calls).map fun p => (⌊p.1⌋, p.2) := by
  have hobserved : ∀ p ∈ calls.filterMap Call.observation, 0 ≤ p.1 ∧ p.1 ≤ now := by
    intro p hp
    obtain ⟨call, hcall, hobs⟩ := List.mem_filterMap.mp hp
    cases call with
    | put at' value =>
      rw [← Option.some.inj hobs]
      exact hpast _ hcall
    | stats at' => cases hobs
  have hlog : logOf calls =
      (calls.filterMap Call.observation).map fun p => (⌊p.1⌋, p.2) := by
    apply List.map_congr_left
    intro p hp
    rw [toSeconds_of_nonneg (hobserved p hp).1]
  rw [hlog, since, List.filter_map, putInWindow, toSeconds_of_nonneg hnow, cutoff]
  congr 1
  apply List.filter_congr
  intro p hp
  have hle : ⌊p.1⌋ ≤ ⌊now⌋ := Int.floor_le_floor (hobserved p hp).2
  simp [hle]

/-- **The rolling window is the whole history, filtered.**  Whatever was put and inspected
    before, `stats` shows what was put in the last `window` seconds, the bounds that are
    read after it run from the first of these seconds with an observation to the end of
    the last one, and no call leaves more buckets than the window has seconds. -/
theorem window_refines_history (hwindow : 1 ≤ window) {calls : List Call} {now : Time}
    (hnonneg : ∀ call ∈ calls ++ [.stats now], 0 ≤ call.now)
    (hordered : ((calls ++ [Call.stats now]).map Call.now).Pairwise (· ≤ ·)) :
    let acc := Accumulator.run window (calls ++ [.stats now])
    let observations := putInWindow window now calls
    acc.stats = figuresOver (observations.map Prod.snd) ∧
      (observations = [] → acc.windowBounds = (0, 0)) ∧
      (observations ≠ [] → ∃ first last : Int,
        IsLeast (secondsOf observations) first ∧ IsGreatest (secondsOf observations) last ∧
          acc.windowBounds = ((first : Time), (last : Time) + 1)) ∧
      (acc.buckets.length : Int) ≤ window ∧
      ((Accumulator.run window calls).buckets.length : Int) ≤ window := by
  intro acc observations
  rw [List.map_append, List.map_singleton] at hordered
  have hnow : 0 ≤ now := hnonneg (.stats now) (by simp)
  have hpast : ∀ call ∈ calls, 0 ≤ call.now ∧ call.now ≤ now := by
    intro call hcall
    refine ⟨hnonneg call (List.mem_append_left _ hcall), ?_⟩
    exact (List.pairwise_append.mp hordered).2.2 call.now (List.mem_map_of_mem hcall) now
      (List.mem_singleton_self _)
  have hlength := (run_mirrors hwindow hordered).2
  have hmirrors : (Accumulator.run window calls).Mirrors (logOf calls) now :=
    (run_mirrors hwindow hordered).1
  have hsince : since (cutoff (toSeconds now) window) (logOf calls) =
      observations.map fun p => (⌊p.1⌋, p.2) := since_logOf hnow hpast
  have hacc : acc = (Accumulator.run window calls).evict (toSeconds now) := run_snoc calls _
  have hshown : shownAt window now (logOf calls) = observations.map Prod.snd := by
    rw [shownAt, hsince, List.map_map]
    rfl
  have hstamps : ∀ s, s ∈ acc.buckets.map Prod.fst ↔ s ∈ secondsOf observations := by
    intro s
    rw [hacc, hmirrors.mem_stamps, hsince, List.map_map, List.mem_map]
    rfl
  have hnil : acc.buckets = [] ↔ observations = [] := by
    rw [hacc, hmirrors.empty_iff, hsince, List.map_eq_nil_iff]
  refine ⟨?_, ?_, ?_, ?_, hlength⟩
  · rw [hacc, ← hshown]
    exact hmirrors.stats_evict
  · intro hempty
    rw [Accumulator.windowBounds, hnil.mpr hempty]
    rfl
  · intro hne
    have hset : {s | s ∈ acc.buckets.map Prod.fst} = secondsOf observations := Set.ext hstamps
    rw [← hset]
    apply windowBounds_eq
    · rw [hacc]
      exact hmirrors.evict.sorted
    · exact fun h => hne (hnil.mp h)
  · rw [hacc]
    exact hmirrors.evict.length_le hwindow fun b hb => hmirrors.mem_evict hb

/-- With a window of three seconds, an observation of the first second is gone at 3. -/
theorem window_refines_history_three :
    (Accumulator.run 3 ([.put (1 / 2) 4, .stats 1, .put 2 1, .put (5 / 2) 3] ++ [.stats 3])).stats =
      some { count := 2, sum := 4, min := (1 : ℚ), max := (3 : ℚ) } := by
  have hwindow := @window_refines_history 3 (by decide)
    [.put (1 / 2) 4, .stats 1, .put 2 1, .put (5 / 2) 3] 3 (by decide +kernel) (by decide +kernel)
  rw [hwindow.1]
  decide +kernel

/-- The end of the window is not a second that holds an observation. -/
theorem window_bounds_past_the_last :
    let acc := Accumulator.run 60 ([.put 5 1] ++ [.stats 5])
    let observations := putInWindow 60 5 [.put 5 1]
    IsLeast (secondsOf observations) 5 ∧ IsGreatest (secondsOf observations) 5 ∧
      acc.windowBounds = (5, 6) ∧ acc.windowBounds ≠ (5, 5) := by
  have hseconds : secondsOf (putInWindow 60 5 [.put 5 1]) = {5} := by
    have hone : putInWindow 60 5 [.put 5 1] = [(5, 1)] := by
      decide +kernel
    ext s
    simp [secondsOf, hone, eq_comm]
  have hbounds : (Accumulator.run 60 ([.put 5 1] ++ [.stats 5])).windowBounds = (5, 6) := by
    decide +kernel
  intro acc observations
  refine ⟨?_, ?_, hbounds, ?_⟩
  · exact hseconds ▸ isLeast_singleton
  · exact hseconds ▸ isGreatest_singleton
  · rw [show acc.windowBounds = (5, 6) from hbounds]
    decide +kernel

end Metrics

end Aiokpl
