import Aiokpl.MetricsRuns

/-!
# What the sink is handed over a run

A flush shows every observation that its window still covers, whether or not an
earlier flush has shown it, and no later flush shows what its window has left behind.
So the exports add up to each observation once for every flush that comes after it
within its window: the flushes of a run export it once only if exactly one does.
-/

namespace Aiokpl

open Lib RollingWindow

namespace Metrics

/-- The number and the total value of what snapshots of a metric show. -/
def shown (key : MetricKey) (snaps : List MetricSnapshot) : ℕ × ℚ :=
  ((snaps.filter (MetricSnapshot.isOf key)).map fun m => (m.count, m.sum)).sum

/-- The number and the total value of what the sink has been handed for a metric. -/
def State.exported (key : MetricKey) (s : State) : ℕ × ℚ := shown key s.exports.flatten

def Bucket.figures (b : Bucket) : ℕ × ℚ := (b.count, b.sum)

/-- An observation of this value. -/
def figuresOf (value : ℚ) : ℕ × ℚ := (1, value)

theorem exported_eq_showed (key : MetricKey) (s : State) :
    s.exported key = ((s.showed key).map Bucket.figures).sum := by
  rw [State.exported, shown, State.showed, showing, List.map_map]
  rfl

theorem total_figuresOf (entries : List (Int × ℚ)) :
    total figuresOf entries = (entries.length, (entries.map Prod.snd).sum) := by
  induction entries with
  | nil => rfl
  | cons e rest ih =>
    rw [total, List.map_cons, List.sum_cons, ← total, ih]
    simp [figuresOf, add_comm]

/-- A window that is empty shows nothing, and has nothing to show. -/
theorem sum_showings (log : List (Int × ℚ)) (events : List (Event Int ℚ)) :
    ((showings log events).map Bucket.figures).sum = readFrom figuresOf log events := by
  rw [readFrom_eq_windows, showings]
  induction windows log events with
  | nil => rfl
  | cons w rest ih =>
    rw [List.filterMap_cons, List.map_cons, List.sum_cons, ← ih, total_figuresOf, figuresOver]
    by_cases hempty : w.2 = []
    · simp [hempty]
    · simp [hempty, Bucket.figures]

/-! ## Whole runs -/

/-- The value that the operation puts for this metric. -/
def Op.value (cfg : Config) (key : MetricKey) : Op → Option ℚ
  | .put _ _ name value stream shardId errorCode =>
    if cfg.keyOf name stream shardId errorCode = key then some value else none
  | _ => none

/-- The number and the total value of the observations put for this metric. -/
def observed (cfg : Config) (key : MetricKey) (ops : List Op) : ℕ × ℚ :=
  ((ops.filterMap (Op.value cfg key)).map figuresOf).sum

/-- The same with each observation counted once for every later flush whose second is
    less than 60 after its own. -/
def visited (cfg : Config) (key : MetricKey) (ops : List Op) : ℕ × ℚ :=
  ((visits (ops.filterMap (Op.event cfg key))).map fun e => (e.2, (e.2 : ℚ) * e.1)).sum

theorem map_fst_visits (cfg : Config) (key : MetricKey) (ops : List Op) :
    (visits (ops.filterMap (Op.event cfg key))).map Prod.fst =
      ops.filterMap (Op.value cfg key) := by
  induction ops with
  | nil => rfl
  | cons op rest ih =>
    cases op with
    | put now stamp name value stream shardId errorCode =>
      by_cases hkey : cfg.keyOf name stream shardId errorCode = key
      · simp [Op.event, Op.value, hkey, visits, ih]
      · simp [Op.event, Op.value, hkey, ih]
    | _ => exact ih

/-- Observations that one flush shows each are exported once each. -/
theorem visited_of_once {cfg : Config} {key : MetricKey} {ops : List Op}
    (h : ∀ e ∈ visits (ops.filterMap (Op.event cfg key)), e.2 = 1) :
    visited cfg key ops = observed cfg key ops := by
  rw [visited, observed, ← map_fst_visits, List.map_map]
  congr 1
  apply List.map_congr_left
  intro e he
  simp [figuresOf, h e he]

theorem exported_eq_visited {cfg : Config} (hlevel : cfg.level ≠ .none)
    {enteredAt : Time} {s : State}
    {ops : List Op} (hrun : Lib.exec (State.step cfg) anyStep (entered cfg enteredAt) ops = some s)
    {key : MetricKey} (hordered : (ops.filterMap (Op.reading cfg key)).Pairwise (· ≤ ·)) :
    s.exported key = visited cfg key ops := by
  have hreadings : (ops.filterMap (Op.reading cfg key) ++ []).Pairwise (· ≤ ·) := by
    rwa [List.append_nil]
  rw [exported_eq_showed, (run_mirrored hlevel hrun hreadings).2, sum_showings,
    readFrom_eq, visited]
  simp [figuresOf, nsmul_eq_mul]

/-- **The exports add up** to the observations put before the final flush exactly if each
    metric's observations, counted once for every later flush within their window, do. -/
theorem exports_add_up_iff {cfg : Config} (hlevel : cfg.level ≠ .none)
    {enteredAt : Time} {s : State}
    {before after : List Op} {clock : MetricKey → Time}
    (hrun : Lib.exec (State.step cfg) anyStep (entered cfg enteredAt)
      (before ++ .exit clock :: after) = some s)
    (hordered : ∀ key, ((before ++ .exit clock :: after).filterMap (Op.reading cfg key)).Pairwise
      (· ≤ ·)) :
    (∀ key, s.exported key = observed cfg key before) ↔
      ∀ key, visited cfg key (before ++ .exit clock :: after) = observed cfg key before := by
  constructor
  · intro h key
    rw [← exported_eq_visited hlevel hrun (hordered key)]
    exact h key
  · intro h key
    rw [exported_eq_visited hlevel hrun (hordered key)]
    exact h key

/-! ### One observation at the default upload interval -/

def detailed : Config := { level := .detailed }

def onePut (now : Time) : Op := .put now now "UserRecordsPut" 1 (some "s") none none

def onePutKey : MetricKey := { name := "UserRecordsPut", stream := some "s" }

/-- The loop wakes a minute after the manager has been entered at time 0. -/
def firstUpload : List Op := [.wake 60 fun _ => 60, .asleep 60]

/-- The first upload shows the observation, and the final flush no longer does. -/
theorem exports_add_up_iff_upload :
    ∃ s, Lib.exec (State.step detailed) anyStep (entered detailed 0)
        ((onePut (61 / 2) :: firstUpload) ++ .exit (fun _ => 95) :: [.exited]) = some s ∧
      ∀ key, s.exported key = observed detailed key (onePut (61 / 2) :: firstUpload) := by
  have hsome : (Lib.exec (State.step detailed) anyStep (entered detailed 0)
      ((onePut (61 / 2) :: firstUpload) ++ .exit (fun _ => 95) :: [.exited])).isSome = true := by
    decide +kernel
  obtain ⟨s, hrun⟩ := Option.isSome_iff_exists.mp hsome
  have hordered : ∀ key, (((onePut (61 / 2) :: firstUpload) ++
      Op.exit (fun _ => 95) :: [.exited]).filterMap (Op.reading detailed key)).Pairwise
        (· ≤ ·) := by
    intro key
    by_cases hkey : onePutKey = key
    · subst hkey
      decide +kernel
    · have hother : Op.reading detailed key (onePut (61 / 2)) = none := if_neg hkey
      have hreadings : ((onePut (61 / 2) :: firstUpload) ++
          Op.exit (fun _ => 95) :: [.exited]).filterMap (Op.reading detailed key) = [60, 95] := by
        rw [List.cons_append, List.filterMap_cons_none hother]
        rfl
      rw [hreadings]
      decide +kernel
  refine ⟨s, hrun, (exports_add_up_iff (by decide) hrun hordered).mpr ?_⟩
  intro key
  by_cases hkey : onePutKey = key
  · subst hkey
    decide +kernel
  · have hother : Op.event detailed key (onePut (61 / 2)) = none := if_neg hkey
    have hvalue : Op.value detailed key (onePut (61 / 2)) = none := if_neg hkey
    rw [visited, observed, List.cons_append, List.filterMap_cons_none hother,
      List.filterMap_cons_none hvalue]
    rfl

/-- An observation of the first second is in no upload: the window of the first one
    starts a second later.  One that is flushed by hand is shown again at the exit. -/
theorem exports_lose_and_repeat :
    (∃ s, Lib.exec (State.step detailed) anyStep (entered detailed 0)
        ((onePut (1 / 2) :: firstUpload) ++ .exit (fun _ => 61) :: [.exited]) = some s ∧
      s.exported onePutKey = (0, 0) ∧
      ¬ ∀ key, s.exported key = observed detailed key (onePut (1 / 2) :: firstUpload)) ∧
    ∃ s, Lib.exec (State.step detailed) anyStep (entered detailed 0)
        ([onePut (1 / 2), .flush fun _ => 1] ++ .exit (fun _ => 2) :: [.exited]) = some s ∧
      s.exported onePutKey = (2, 2) ∧
      ¬ ∀ key, s.exported key = observed detailed key [onePut (1 / 2), .flush fun _ => 1] := by
  have hlost : (Lib.exec (State.step detailed) anyStep (entered detailed 0)
      ((onePut (1 / 2) :: firstUpload) ++ .exit (fun _ => 61) :: [.exited])).map
      (State.exported onePutKey) = some (0, 0) := by
    decide +kernel
  have htwice : (Lib.exec (State.step detailed) anyStep (entered detailed 0)
      ([onePut (1 / 2), .flush fun _ => 1] ++ .exit (fun _ => 2) :: [.exited])).map
      (State.exported onePutKey) = some (2, 2) := by
    decide +kernel
  constructor
  · obtain ⟨s, hrun, hexported⟩ := Option.map_eq_some_iff.mp hlost
    refine ⟨s, hrun, hexported, ?_⟩
    intro h
    have hone := hexported.symm.trans (h onePutKey)
    revert hone
    decide +kernel
  · obtain ⟨s, hrun, hexported⟩ := Option.map_eq_some_iff.mp htwice
    refine ⟨s, hrun, hexported, ?_⟩
    intro h
    have hone := hexported.symm.trans (h onePutKey)
    revert hone
    decide +kernel

end Metrics

end Aiokpl
