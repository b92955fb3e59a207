import Mathlib.Data.Int.Log
import Aiokpl.MetricsRuns

/-!
# The levels of detail

At `SUMMARY` a manager files an observation under fewer dimensions than at `DETAILED`,
and so evicts and merges other buckets at other times.  What its snapshot shows of a
metric is still the merge of what the detailed one shows of the metrics it stands for,
since each snapshot is the figures of the same observations.
-/

namespace Aiokpl

open Lib RollingWindow

namespace Metrics

/-! ## Snapshots -/

theorem mem_snapshot {registry : Dict MetricKey Accumulator} {key : MetricKey} {st : Bucket} :
    (key, st) ∈ snapshot registry ↔ ((registry.get? key).getD {}).stats = some st := by
  have hmem : (key, st) ∈ snapshot registry ↔
      ∃ acc, registry.get? key = some acc ∧ acc.stats = some st := by
    simp only [snapshot, List.mem_filterMap, Dict.get?_eq_some_iff, Option.map_eq_some_iff,
      Prod.mk.injEq, Prod.exists]
    constructor
    · rintro ⟨key', acc, hentry, st', hstats, rfl, rfl⟩
      exact ⟨acc, hentry, hstats⟩
    · rintro ⟨acc, hentry, hstats⟩
      exact ⟨key, acc, hentry, st, hstats, rfl, rfl⟩
  rw [hmem]
  cases hget : registry.get? key with
  | none => simp [Accumulator.stats]
  | some acc => simp

theorem snapshot_keys_nodup (registry : Dict MetricKey Accumulator) :
    ((snapshot registry).map Prod.fst).Nodup := by
  have hentries : registry.entries.Pairwise fun e e' => e.1 ≠ e'.1 :=
    List.pairwise_map.mp registry.nodup
  refine List.pairwise_map.mpr (hentries.filterMap _ ?_)
  intro e e' hne b hb b' hb'
  obtain ⟨st, _, rfl⟩ := Option.map_eq_some_iff.mp hb
  obtain ⟨st', _, rfl⟩ := Option.map_eq_some_iff.mp hb'
  exact hne

/-- The merge of several `(count, sum, min, max)`. -/
def mergeAll (parts : List Bucket) : Bucket :=
  { count := (parts.map Bucket.count).sum
    sum := (parts.map Bucket.sum).sum
    min := (parts.map Bucket.min).foldr (· ⊓ ·) ⊤
    max := (parts.map Bucket.max).foldr (· ⊔ ·) ⊥ }

theorem mergeAll_eq (parts : List Bucket) : mergeAll parts = parts.sum := by
  induction parts with
  | nil => rfl
  | cons b rest ih =>
    rw [List.sum_cons, ← ih, Bucket.add_def]
    rfl

/-! ## What a level files an observation under -/

/-- An observation: the dimensions it is put with, the reading of the clock, the value. -/
abbrev Observation := MetricKey × Time × ℚ

def Op.observation : Op → Option Observation
  | .put now _ name value stream shardId errorCode =>
    some ({ name, stream, shardId, errorCode }, now, value)
  | _ => none

/-- The key without its shard and its error code. -/
def MetricKey.coarse (key : MetricKey) : MetricKey := { name := key.name, stream := key.stream }

/-- The key under which a level files what is put with these dimensions. -/
def Config.files (cfg : Config) (key : MetricKey) : MetricKey :=
  cfg.keyOf key.name key.stream key.shardId key.errorCode

theorem files_summary {cfg : Config} (h : cfg.level = .summary) (key : MetricKey) :
    cfg.files key = key.coarse := by
  rw [Config.files, Config.keyOf, h]
  rfl

theorem files_detailed {cfg : Config} (h : cfg.level = .detailed) (key : MetricKey) :
    cfg.files key = key := by
  rw [Config.files, Config.keyOf, h]

/-- The observations whose seconds are in the window at this time. -/
def recent (t : Time) (observations : List Observation) : List Observation :=
  observations.filter fun o => cutoff (toSeconds t) ≤ toSeconds o.2.1

/-- The observations that a level files under a key. -/
def filed (cfg : Config) (key : MetricKey) (observations : List Observation) : List Observation :=
  observations.filter fun o => cfg.files o.1 = key

theorem mem_filed {cfg : Config} {key : MetricKey} {observations : List Observation}
    {o : Observation} :
    o ∈ filed cfg key observations ↔ o ∈ observations ∧ cfg.files o.1 = key := by
  rw [filed, List.mem_filter, decide_eq_true_eq]

theorem logged_eq (cfg : Config) (key : MetricKey) (ops : List Op) :
    logged cfg key ops =
      (filed cfg key (ops.filterMap Op.observation)).map fun o => (toSeconds o.2.1, o.2.2) := by
  unfold logged filed
  induction ops with
  | nil => rfl
  | cons op rest ih =>
    cases op with
    | put now stamp name value stream shardId errorCode =>
      by_cases hkey : cfg.keyOf name stream shardId errorCode = key
      · simp [Op.event, Op.observation, Config.files, hkey, Event.logged, ih]
      · simp [Op.event, Op.observation, Config.files, hkey, ih]
    | _ => exact ih

/-- **What a snapshot shows**: the recent observations that the level files under the key. -/
theorem mem_snapshot_iff {cfg : Config} (hlevel : cfg.level ≠ .none) {enteredAt : Time} {s : State}
    {ops : List Op} (hrun : Lib.exec (State.step cfg) anyStep (entered cfg enteredAt) ops = some s)
    {t : Time}
    (hordered : ∀ key, (ops.filterMap (Op.reading cfg key) ++ [t]).Pairwise (· ≤ ·))
    (key : MetricKey) (st : Bucket) :
    (key, st) ∈ snapshot (evictAll (fun _ => t) s.registry) ↔
      filed cfg key (recent t (ops.filterMap Op.observation)) ≠ [] ∧
        st = ((filed cfg key (recent t (ops.filterMap Op.observation))).map
          fun o => Bucket.of o.2.2).sum := by
  have hmirrors := (run_mirrored hlevel hrun (hordered key)).1 t (List.mem_singleton_self t)
  have hshown : shownAt windowSeconds t (logged cfg key ops) =
      (filed cfg key (recent t (ops.filterMap Op.observation))).map fun o => o.2.2 := by
    rw [shownAt, logged_eq, since, List.filter_map, List.map_map, filed, filed, recent,
      List.filter_filter, List.filter_filter]
    simp only [Function.comp_def, Bool.and_comm]
  rw [mem_snapshot, getD_evictAll, hmirrors.stats_evict, hshown, figuresOver_eq_some_iff,
    List.map_map, Ne, List.map_eq_nil_iff]
  rfl

/-! ## Two runs -/

/-- The entries with a name and a stream, of a snapshot that shows the observations under
    all their dimensions. -/
theorem merged_parts {summary detailed : Config} (hsummary : summary.level = .summary)
    (hdetailed : detailed.level = .detailed) {observations : List Observation}
    {fine : List (MetricKey × Bucket)} (hnodup : (fine.map Prod.fst).Nodup)
    (hfine : ∀ key st, (key, st) ∈ fine ↔ filed detailed key observations ≠ [] ∧
      st = ((filed detailed key observations).map fun o => Bucket.of o.2.2).sum)
    (name : String) (stream : Option String) :
    let parts := fine.filter fun e => e.1.name = name ∧ e.1.stream = stream
    let whole := filed summary { name, stream } observations
    (parts ≠ [] ↔ whole ≠ []) ∧
      (parts.map Prod.snd).sum = (whole.map fun o => Bucket.of o.2.2).sum := by
  intro parts whole
  have hparts : ∀ key st, (key, st) ∈ parts ↔
      (key, st) ∈ fine ∧ key.name = name ∧ key.stream = stream := by
    intro key st
    rw [List.mem_filter, decide_eq_true_eq]
  have hwhole : ∀ o, o ∈ whole ↔ o ∈ observations ∧ o.1.name = name ∧ o.1.stream = stream := by
    intro o
    rw [mem_filed, files_summary hsummary, MetricKey.coarse]
    simp
  have hof : ∀ o, o ∈ whole → o.1 ∈ parts.map Prod.fst := by
    intro o ho
    obtain ⟨hobserved, hname, hstream⟩ := (hwhole o).mp ho
    have hfiled : o ∈ filed detailed o.1 observations :=
      mem_filed.mpr ⟨hobserved, files_detailed hdetailed o.1⟩
    have hentry := (hfine o.1 _).mpr ⟨List.ne_nil_of_mem hfiled, rfl⟩
    exact List.mem_map_of_mem ((hparts _ _).mpr ⟨hentry, hname, hstream⟩)
  constructor
  · constructor
    · intro hne
      obtain ⟨⟨key, st⟩, he⟩ := List.exists_mem_of_ne_nil _ hne
      obtain ⟨hentry, hname, hstream⟩ := (hparts key st).mp he
      obtain ⟨o, ho⟩ := List.exists_mem_of_ne_nil _ ((hfine key st).mp hentry).1
      rw [mem_filed, files_detailed hdetailed] at ho
      obtain ⟨hobserved, rfl⟩ := ho
      exact List.ne_nil_of_mem ((hwhole o).mpr ⟨hobserved, hname, hstream⟩)
    · intro hne
      obtain ⟨o, ho⟩ := List.exists_mem_of_ne_nil _ hne
      obtain ⟨e, he, _⟩ := List.mem_map.mp (hof o ho)
      exact List.ne_nil_of_mem he
  · have hkeys : (parts.map Prod.fst).Nodup := hnodup.sublist (List.filter_sublist.map _)
    rw [← sum_by_key (fun o : Observation => Bucket.of o.2.2) (fun o => o.1) hkeys hof,
      List.map_map]
    congr 1
    apply List.map_congr_left
    rintro ⟨key, st⟩ he
    obtain ⟨hentry, hname, hstream⟩ := (hparts key st).mp he
    have hfiber : (filed summary { name, stream } observations).filter (fun o => o.1 = key) =
        filed detailed key observations := by
      rw [filed, List.filter_filter, filed]
      apply List.filter_congr
      intro o _
      rw [files_summary hsummary, files_detailed hdetailed, MetricKey.coarse]
      by_cases hkey : o.1 = key <;> simp [hkey, hname, hstream]
    have hst := ((hfine key st).mp hentry).2
    rw [Function.comp_apply, hst, ← hfiber]

/-- **The summary is the projection of the details.**  Of two managers that are put the
    same observations, one at each level, and inspected however else, the summary shows an
    entry for a name and a stream exactly when the details show one, and it is the merge
    of all of these; it shows no other entry. -/
theorem summary_projects_details {summary detailed : Config} (hsummary : summary.level = .summary)
    (hdetailed : detailed.level = .detailed) {enteredAt enteredAt' : Time} {s s' : State}
    {ops ops' : List Op}
    (hrun : Lib.exec (State.step summary) anyStep (entered summary enteredAt) ops = some s)
    (hrun' : Lib.exec (State.step detailed) anyStep (entered detailed enteredAt') ops' = some s')
    (hputs : ops.filterMap Op.observation = ops'.filterMap Op.observation) {t : Time}
    (hordered : ∀ key, (ops.filterMap (Op.reading summary key) ++ [t]).Pairwise (· ≤ ·))
    (hordered' : ∀ key, (ops'.filterMap (Op.reading detailed key) ++ [t]).Pairwise (· ≤ ·)) :
    let coarse := snapshot (evictAll (fun _ => t) s.registry)
    let fine := snapshot (evictAll (fun _ => t) s'.registry)
    (∀ e ∈ coarse, e.1.shardId = none ∧ e.1.errorCode = none) ∧
      ∀ name stream st,
        let parts := fine.filter fun e => e.1.name = name ∧ e.1.stream = stream
        ({ name, stream }, st) ∈ coarse ↔ parts ≠ [] ∧ st = mergeAll (parts.map Prod.snd) := by
  intro coarse fine
  have hlevel : summary.level ≠ .none := by
    rw [hsummary]
    decide
  have hlevel' : detailed.level ≠ .none := by
    rw [hdetailed]
    decide
  have hcoarse : ∀ key st, (key, st) ∈ coarse ↔ _ := mem_snapshot_iff hlevel hrun hordered
  have hfine : ∀ key st, (key, st) ∈ fine ↔ _ := mem_snapshot_iff hlevel' hrun' hordered'
  rw [← hputs] at hfine
  constructor
  · rintro ⟨key, st⟩ he
    obtain ⟨o, ho⟩ := List.exists_mem_of_ne_nil _ ((hcoarse key st).mp he).1
    have hkey := (mem_filed.mp ho).2
    rw [files_summary hsummary] at hkey
    rw [← hkey]
    exact ⟨rfl, rfl⟩
  · intro name stream st parts
    rw [hcoarse, mergeAll_eq]
    have hparts := merged_parts hsummary hdetailed (snapshot_keys_nodup _) hfine name stream
    rw [hparts.1, hparts.2]

/-! ### Two shards of a stream -/

def summarized : Config := { level := .summary }

def itemized : Config := { level := .detailed }

def putOn (now : Time) (shard : String) : Op :=
  .put now now "UserRecordsPut" now (some "s") (some shard) none

/-- The summary is also flushed in between. -/
theorem summary_projects_details_shards :
    ∃ s, Lib.exec (State.step summarized) anyStep (entered summarized 0)
        [putOn 1 "7", .flush fun _ => 1, putOn 2 "9"] = some s ∧
      ({ name := "UserRecordsPut", stream := some "s" },
        { count := 2, sum := 3, min := (1 : ℚ), max := (2 : ℚ) }) ∈
          snapshot (evictAll (fun _ => 3) s.registry) := by
  have hsome : (Lib.exec (State.step summarized) anyStep (entered summarized 0)
      [putOn 1 "7", .flush fun _ => 1, putOn 2 "9"]).isSome = true := by
    decide +kernel
  have hsome' : (Lib.exec (State.step itemized) anyStep (entered itemized 0)
      [putOn 1 "7", putOn 2 "9"]).isSome = true := by
    decide +kernel
  obtain ⟨s, hrun⟩ := Option.isSome_iff_exists.mp hsome
  obtain ⟨s', hrun'⟩ := Option.isSome_iff_exists.mp hsome'
  have hordered : ∀ key, ([putOn 1 "7", .flush fun _ => 1, putOn 2 "9"].filterMap
      (Op.reading summarized key) ++ [3]).Pairwise (· ≤ ·) := by
    intro key
    simp only [putOn, List.filterMap_cons, Op.reading, List.filterMap_nil]
    split_ifs <;> decide +kernel
  have hordered' : ∀ key, ([putOn 1 "7", putOn 2 "9"].filterMap
      (Op.reading itemized key) ++ [3]).Pairwise (· ≤ ·) := by
    intro key
    simp only [putOn, List.filterMap_cons, Op.reading, List.filterMap_nil]
    split_ifs <;> decide +kernel
  have hmerged : (Lib.exec (State.step itemized) anyStep (entered itemized 0)
      [putOn 1 "7", putOn 2 "9"]).map (fun s =>
        mergeAll (((snapshot (evictAll (fun _ => 3) s.registry)).filter fun e =>
          e.1.name = "UserRecordsPut" ∧ e.1.stream = some "s").map Prod.snd)) =
      some { count := 2, sum := 3, min := (1 : ℚ), max := (2 : ℚ) } := by
    decide +kernel
  rw [hrun', Option.map_some, Option.some.injEq] at hmerged
  refine ⟨s, hrun, ?_⟩
  refine ((summary_projects_details rfl rfl hrun hrun' rfl hordered hordered').2 _ _ _).mpr ?_
  constructor
  · intro hnil
    rw [hnil] at hmerged
    revert hmerged
    decide +kernel
  · exact hmerged.symm

/-! ### Sums of doubles

The sums above are exact.  The code adds up doubles, so an accumulator rounds each of its
additions, and those of a coarse key are other additions than those of its fine keys. -/

/-- The nearest integer, the even one of two. -/
def roundHalfEven (q : ℚ) : ℤ :=
  let n := ⌊q⌋
  if q - n < 1 / 2 then n
  else if 1 / 2 < q - n then n + 1
  else if n % 2 = 0 then n
  else n + 1

/-- The exponent of the last place of the doubles around a value: their significands have
    53 bits, and none is below `2 ^ (-1074)`. -/
def lastPlace (q : ℚ) : ℤ := max (Int.log 2 |q| - 52) (-1074)

/-- The double next to a value that is not beyond the largest one. -/
def toDouble (q : ℚ) : ℚ := roundHalfEven (q / 2 ^ lastPlace q) * 2 ^ lastPlace q

example : toDouble (toDouble (1 / 10) + toDouble (2 / 10)) ≠ toDouble (3 / 10) := by decide +kernel

section

variable (round : ℚ → ℚ)

/-- `Bucket.add` and `Bucket.merge` with sums that are rounded. -/
def Bucket.addRounded (value : ℚ) (b : Bucket) : Bucket :=
  { Bucket.add value b with sum := round (b.sum + value) }

def Bucket.mergeRounded (acc b : Bucket) : Bucket :=
  { Bucket.merge acc b with sum := round (acc.sum + b.sum) }

/-- `_Accumulator.put`. -/
def Accumulator.putRounded (now : Time) (value : ℚ) (acc : Accumulator) : Accumulator :=
  let nowSec := toSeconds now
  { buckets :=
      RollingWindow.record {} (Bucket.addRounded round) nowSec value (acc.evict nowSec).buckets }

/-- `_Accumulator.stats`, after its eviction. -/
def Accumulator.statsRounded (acc : Accumulator) : Option Bucket :=
  if acc.buckets = [] then none
  else some ((acc.buckets.map Prod.snd).foldl (Bucket.mergeRounded round) {})

/-- The registry after these observations have been put. -/
def roundedRegistry (cfg : Config) (observations : List Observation) : Dict MetricKey Accumulator :=
  observations.foldl (fun registry o =>
    registry.set (cfg.files o.1)
      (((registry.get? (cfg.files o.1)).getD {}).putRounded round o.2.1 o.2.2)) .empty

/-- `snapshot` at a time after them. -/
def roundedSnapshot (cfg : Config) (observations : List Observation) (t : Time) :
    List (MetricKey × Bucket) :=
  (evictAll (fun _ => t) (roundedRegistry round cfg observations)).entries.filterMap fun e =>
    (e.2.statsRounded round).map fun st => (e.1, st)

end

/-- The call of `put` that makes an observation. -/
def putOf (o : Observation) : Op :=
  .put o.2.1 o.2.1 o.1.name o.2.2 o.1.stream o.1.shardId o.1.errorCode

/-- Sums that are not rounded are those of the manager. -/
theorem roundedSnapshot_id {cfg : Config} (hlevel : cfg.level ≠ .none) (enteredAt : Time)
    (observations : List Observation) (t : Time) :
    ∃ s, Lib.exec (State.step cfg) anyStep (entered cfg enteredAt)
      (observations.map putOf) = some s ∧
      roundedSnapshot id cfg observations t = snapshot (evictAll (fun _ => t) s.registry) := by
  have hregistry : ∃ s,
      Lib.exec (State.step cfg) anyStep (entered cfg enteredAt) (observations.map putOf) = some s ∧
      roundedRegistry id cfg observations = s.registry := by
    induction observations using List.reverseRecOn with
    | nil => exact ⟨_, rfl, rfl⟩
    | append_singleton observations o ih =>
      obtain ⟨s, hrun, hsame⟩ := ih
      have hstep : s.step cfg (putOf o) = some (put cfg o.2.1 o.2.1 (cfg.files o.1) o.2.2 s) :=
        if_neg hlevel
      have hany : anyStep s (putOf o) := trivial
      refine ⟨put cfg o.2.1 o.2.1 (cfg.files o.1) o.2.2 s, ?_, ?_⟩
      · rw [List.map_append, exec_append, hrun, Option.bind_some, List.map_singleton, Lib.exec,
          if_pos hany, hstep]
        rfl
      · rw [roundedRegistry, List.foldl_append, ← roundedRegistry, hsame]
        rfl
  obtain ⟨s, hrun, hsame⟩ := hregistry
  refine ⟨s, hrun, ?_⟩
  rw [roundedSnapshot, hsame]
  rfl

/-- One second's observations, of which the two of shard 0 cancel. -/
def cancelling : List Observation :=
  [("0", 10 ^ 16), ("1", 1), ("0", -10 ^ 16)].map fun e =>
    ({ name := "UserRecordsPut", stream := some "s", shardId := some e.1 }, 0, e.2)

/-- The summary adds the 1 of shard 1 to the 10 ^ 16 of shard 0, which swallows it.  The
    details add up to 1. -/
theorem rounded_summary_differs :
    ¬ ∀ observations : List Observation, (∀ o ∈ observations, toDouble o.2.2 = o.2.2) →
      ∀ t, (observations.map (fun o => o.2.1) ++ [t]).Pairwise (· ≤ ·) → ∀ name stream st,
        let coarse := roundedSnapshot toDouble summarized observations t
        let parts := (roundedSnapshot toDouble itemized observations t).filter fun e =>
          e.1.name = name ∧ e.1.stream = stream
        ({ name, stream }, st) ∈ coarse ↔
          parts ≠ [] ∧ st = (parts.map Prod.snd).foldl (Bucket.mergeRounded toDouble) {} := by
  intro hprojects
  have hsummary : ({ name := "UserRecordsPut", stream := some "s" },
      { count := 3, sum := 0, min := (-10 ^ 16 : ℚ), max := (10 ^ 16 : ℚ) }) ∈
        roundedSnapshot toDouble summarized cancelling 0 := by
    decide +kernel
  have hdetails : ((((roundedSnapshot toDouble itemized cancelling 0).filter fun e =>
      e.1.name = "UserRecordsPut" ∧ e.1.stream = some "s").map Prod.snd).foldl
        (Bucket.mergeRounded toDouble) {}).sum = 1 := by
    decide +kernel
  have hmerged := ((hprojects cancelling (by decide +kernel) 0 (by decide +kernel) _ _ _).mp
    hsummary).2
  rw [← hmerged] at hdetails
  revert hdetails
  decide +kernel

end Metrics

end Aiokpl
