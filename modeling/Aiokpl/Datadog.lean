import Aiokpl.MetricsObserved
import Aiokpl.MetricsUploads

/-!
# Datadog sink (`aiokpl/sinks/datadog.py`)

The sink submits a point for every snapshot of an export: first all counts and gauges,
then all distributions, of which a snapshot has only the mean.  A count has the sum of its
snapshot, so the service adds the same observation for every flush that shows it.
-/

namespace Aiokpl

open Lib Metrics

namespace Datadog

/-! ## The sink -/

/-- `_DISTRIBUTION_NAMES`. -/
def distributionNames : List String := ["BufferedTime", "RequestTime", "RetriesPerRecord"]

/-- `_GAUGE_NAMES`. -/
def gaugeNames : List String := ["UserRecordsPending"]

inductive SeriesType
  | gauge
  | count
  deriving DecidableEq, Repr

structure Series where
  metric : String
  type : SeriesType
  points : List (Time × WithBot ℚ)
  tags : List String
  deriving DecidableEq

structure DistributionPointsSeries where
  metric : String
  points : List (Time × List ℚ)
  tags : List String
  deriving DecidableEq

/-- The calls on the API, with their payloads. -/
inductive Submission
  | metrics (series : List Series)
  | distributionPoints (series : List DistributionPointsSeries)
  deriving DecidableEq

/-- The two lists that `export` fills. -/
structure Batch where
  series : List Series := []
  distributions : List DistributionPointsSeries := []

structure DatadogSink where
  metricPrefix : String := "aiokpl."

def tagsOf (dimensions : List (String × String)) : List String :=
  dimensions.map fun e => e.1 ++ ":" ++ e.2

def timestampOf (s : MetricSnapshot) : Time :=
  if s.windowEnd > 0 then s.windowEnd else s.windowStart

/-- The mean that stands for the values of a distribution. -/
def averageOf (s : MetricSnapshot) : ℚ := if s.count = 0 then 0 else s.sum / s.count

def DatadogSink.fullName (sink : DatadogSink) (name : String) : String := sink.metricPrefix ++ name

/-- One turn of the loop of `export`. -/
def DatadogSink.exportOne (sink : DatadogSink) (batch : Batch) (s : MetricSnapshot) : Batch :=
  let tags := tagsOf s.dimensions
  let metric := sink.fullName s.name
  let ts := timestampOf s
  if s.name ∈ distributionNames then
    let point : DistributionPointsSeries := { metric, points := [(ts, [averageOf s])], tags }
    { batch with distributions := batch.distributions ++ [point] }
  else if s.name ∈ gaugeNames then
    let point : Series := { metric, type := .gauge, points := [(ts, s.max)], tags }
    { batch with series := batch.series ++ [point] }
  else
    let point : Series := { metric, type := .count, points := [(ts, (s.sum : WithBot ℚ))], tags }
    { batch with series := batch.series ++ [point] }

/-- The submissions of `export`, of a sink that has been entered. -/
def DatadogSink.export (sink : DatadogSink) (snapshots : List MetricSnapshot) : List Submission :=
  if snapshots = [] then []
  else
    let batch := snapshots.foldl sink.exportOne {}
    (if batch.series = [] then [] else [.metrics batch.series]) ++
      if batch.distributions = [] then [] else [.distributionPoints batch.distributions]

/-! ## The submissions of an export -/

def Submission.series : Submission → List Series
  | .metrics series => series
  | .distributionPoints _ => []

def Submission.distributions : Submission → List DistributionPointsSeries
  | .metrics _ => []
  | .distributionPoints series => series

/-- The loop goes on with what it has. -/
theorem foldl_exportOne (sink : DatadogSink) (snaps : List MetricSnapshot) (batch : Batch) :
    let turns := snaps.map (sink.exportOne {})
    snaps.foldl sink.exportOne batch =
      { series := batch.series ++ turns.flatMap Batch.series
        distributions := batch.distributions ++ turns.flatMap Batch.distributions } := by
  intro turns
  induction snaps generalizing batch with
  | nil => simp [turns]
  | cons s rest ih =>
    have hone : sink.exportOne batch s =
        { series := batch.series ++ (sink.exportOne {} s).series
          distributions := batch.distributions ++ (sink.exportOne {} s).distributions } := by
      simp only [DatadogSink.exportOne]
      split
      · simp
      · split <;> simp
    rw [List.foldl_cons, ih, hone]
    simp [turns]

/-- The submissions carry one point for each snapshot of the export. -/
theorem flatMap_export (sink : DatadogSink) (snaps : List MetricSnapshot) :
    let turns := snaps.map (sink.exportOne {})
    (sink.export snaps).flatMap Submission.series = turns.flatMap Batch.series ∧
      (sink.export snaps).flatMap Submission.distributions =
        turns.flatMap Batch.distributions := by
  intro turns
  unfold DatadogSink.export
  split
  · rename_i hnil
    subst hnil
    exact ⟨rfl, rfl⟩
  · dsimp only
    rw [foldl_exportOne]
    dsimp only
    rw [List.nil_append, List.nil_append]
    constructor <;> split_ifs <;> simp_all [Submission.series, Submission.distributions, turns]

/-- A submission is not empty, and has the points of snapshots only. -/
theorem mem_export {sink : DatadogSink} {snaps : List MetricSnapshot} {submission : Submission}
    (h : submission ∈ sink.export snaps) :
    (submission.series ≠ [] ∨ submission.distributions ≠ []) ∧
      (∀ x ∈ submission.series, ∃ m ∈ snaps, x ∈ (sink.exportOne {} m).series) ∧
      ∀ x ∈ submission.distributions, ∃ m ∈ snaps, x ∈ (sink.exportOne {} m).distributions := by
  obtain ⟨hseries, hdistributions⟩ := flatMap_export sink snaps
  refine ⟨?_, ?_, ?_⟩
  · unfold DatadogSink.export at h
    split at h
    · cases h
    · rcases List.mem_append.mp h with h | h
      · split at h
        · cases h
        · rename_i hne
          rw [List.mem_singleton.mp h]
          exact Or.inl hne
      · split at h
        · cases h
        · rename_i hne
          rw [List.mem_singleton.mp h]
          exact Or.inr hne
  · intro x hx
    have hmem : x ∈ (sink.export snaps).flatMap Submission.series :=
      List.mem_flatMap.mpr ⟨submission, h, hx⟩
    rw [hseries, List.flatMap_map] at hmem
    exact List.mem_flatMap.mp hmem
  · intro x hx
    have hmem : x ∈ (sink.export snaps).flatMap Submission.distributions :=
      List.mem_flatMap.mpr ⟨submission, h, hx⟩
    rw [hdistributions, List.flatMap_map] at hmem
    exact List.mem_flatMap.mp hmem

/-! ## The counts of a metric -/

/-- A tag falls apart at its first colon. -/
theorem tag_injective {e e' : String × String} (he : ':' ∉ e.1.toList) (he' : ':' ∉ e'.1.toList)
    (h : e.1 ++ ":" ++ e.2 = e'.1 ++ ":" ++ e'.2) : e = e' := by
  have hfirst : ∀ e : String × String, ':' ∉ e.1.toList →
      (e.1 ++ ":" ++ e.2).toList.takeWhile (· ≠ ':') = e.1.toList := by
    intro e he
    have hcolon : ":".toList = [':'] := rfl
    rw [String.toList_append, String.toList_append, hcolon, List.append_assoc,
      List.takeWhile_append_of_pos, List.singleton_append, List.takeWhile_cons_of_neg (by simp),
      List.append_nil]
    intro c hc
    refine decide_eq_true ?_
    rintro rfl
    exact he hc
  have hkey : e.1 = e'.1 := by
    apply String.toList_injective
    rw [← hfirst e he, h, hfirst e' he']
  rw [hkey] at h
  exact Prod.ext hkey ((String.append_right_inj _).mp h)

theorem tagsOf_injective {dimensions dimensions' : List (String × String)}
    (hkeys : ∀ e ∈ dimensions, ':' ∉ e.1.toList) (hkeys' : ∀ e ∈ dimensions', ':' ∉ e.1.toList)
    (h : tagsOf dimensions = tagsOf dimensions') : dimensions = dimensions' := by
  induction dimensions generalizing dimensions' with
  | nil => exact (List.map_eq_nil_iff.mp h.symm).symm
  | cons e rest ih =>
    cases dimensions' with
    | nil => cases h
    | cons e' rest' =>
      obtain ⟨htag, htags⟩ := List.cons.inj h
      have hfirst := tag_injective (hkeys e List.mem_cons_self) (hkeys' e' List.mem_cons_self) htag
      have hrest := ih (fun e he => hkeys e (List.mem_cons_of_mem _ he))
        (fun e he => hkeys' e (List.mem_cons_of_mem _ he)) htags
      rw [hfirst, hrest]

/-- No dimension of a metric has a colon in its name. -/
theorem dimensions_colon (key : MetricKey) : ∀ e ∈ key.dimensions, ':' ∉ e.1.toList := by
  intro e he
  have hname : e.1 = "stream" ∨ e.1 = "shard" ∨ e.1 = "error_code" := by
    simp only [MetricKey.dimensions, List.mem_append, List.mem_map] at he
    rcases he with (⟨v, _, rfl⟩ | ⟨v, _, rfl⟩) | ⟨v, _, rfl⟩ <;> simp
  rcases hname with hname | hname | hname <;>
  · rw [hname]
    decide

/-- The series is of the counts of this metric. -/
def Series.isOf (sink : DatadogSink) (key : MetricKey) (x : Series) : Bool :=
  x.type = .count ∧ x.metric = sink.fullName key.name ∧ x.tags = tagsOf key.dimensions

/-- The sum of the counts that are submitted for a metric. -/
def DatadogSink.counts (sink : DatadogSink) (key : MetricKey) (series : List Series) : WithBot ℚ :=
  ((series.filter (Series.isOf sink key)).flatMap fun x => x.points.map Prod.snd).sum

def Submission.counts (sink : DatadogSink) (key : MetricKey) (submission : Submission) :
    WithBot ℚ :=
  sink.counts key submission.series

theorem counts_append (sink : DatadogSink) (key : MetricKey) (series series' : List Series) :
    sink.counts key (series ++ series') = sink.counts key series + sink.counts key series' := by
  rw [DatadogSink.counts, List.filter_append, List.flatMap_append, List.sum_append]
  rfl

/-- The metrics that go to Datadog as counts. -/
def Counted (key : MetricKey) : Prop := key.name ∉ distributionNames ∧ key.name ∉ gaugeNames

theorem counts_singleton (sink : DatadogSink) (key : MetricKey) (x : Series) :
    sink.counts key [x] = if x.isOf sink key then (x.points.map Prod.snd).sum else 0 := by
  unfold DatadogSink.counts
  by_cases hkey : x.isOf sink key = true <;> simp [hkey]

theorem isOf_count (sink : DatadogSink) (key : MetricKey) {m : MetricSnapshot} (hmade : Made m)
    (points : List (Time × WithBot ℚ)) :
    Series.isOf sink key
        { metric := sink.fullName m.name
          type := .count
          points := points
          tags := tagsOf m.dimensions } = m.isOf key := by
  obtain ⟨key', bounds, st, rfl⟩ := hmade
  rw [Bool.eq_iff_iff, isOf_snapshot, Series.isOf, decide_eq_true_eq]
  constructor
  · rintro ⟨_, hmetric, htags⟩
    apply dimensions_injective
    · exact (String.append_right_inj _).mp hmetric
    · exact tagsOf_injective (dimensions_colon key') (dimensions_colon key) htags
  · rintro rfl
    exact ⟨rfl, rfl, rfl⟩

/-- What the turn of a snapshot adds to the counts of a metric. -/
theorem counts_exportOne {key : MetricKey} (hkey : Counted key) (sink : DatadogSink)
    {m : MetricSnapshot} (hmade : Made m) :
    sink.counts key (sink.exportOne {} m).series =
      if m.isOf key then (m.sum : WithBot ℚ) else 0 := by
  have hname : m.isOf key = true → m.name = key.name := fun h => (of_decide_eq_true h).1
  simp only [DatadogSink.exportOne]
  split
  · rename_i hdistribution
    rw [if_neg fun h => hkey.1 (hname h ▸ hdistribution)]
    rfl
  · split
    · rename_i hgauge
      rw [if_neg fun h => hkey.2 (hname h ▸ hgauge), List.nil_append, counts_singleton]
      apply if_neg
      intro h
      cases (of_decide_eq_true h).1
    · rw [List.nil_append, counts_singleton, isOf_count sink key hmade]
      simp

/-- The submissions of an export count of each metric what the export shows of it. -/
theorem weigh_export {key : MetricKey} (hkey : Counted key) (sink : DatadogSink)
    {snaps : List MetricSnapshot} (hmade : ∀ m ∈ snaps, Made m) :
    Outbox.weigh (Submission.counts sink key) (sink.export snaps) =
      ((shown key snaps).2 : WithBot ℚ) := by
  have hflat : ∀ submissions : List Submission,
      Outbox.weigh (Submission.counts sink key) submissions =
        sink.counts key (submissions.flatMap Submission.series) := by
    intro submissions
    induction submissions with
    | nil => rfl
    | cons submission rest ih =>
      rw [List.flatMap_cons, counts_append, ← ih]
      rfl
  rw [hflat, (flatMap_export sink snaps).1]
  induction snaps with
  | nil => rfl
  | cons m rest ih =>
    have hrest := ih fun m' hm' => hmade m' (List.mem_cons_of_mem _ hm')
    rw [List.map_cons, List.flatMap_cons, counts_append, hrest,
      counts_exportOne hkey sink (hmade m List.mem_cons_self), shown_cons, Prod.snd_add,
      WithBot.coe_add]
    congr 1
    split <;> rfl

/-! ## What a point tells -/

/-- The series has what these observations of a metric come to. -/
def Series.Tells (sink : DatadogSink) (key : MetricKey) (recent : List ℚ) (x : Series) : Prop :=
  x.metric = sink.fullName key.name ∧ x.tags = tagsOf key.dimensions ∧
    ∃ ts, x.points = [(ts, match x.type with
      | .gauge => recent.maximum
      | .count => (recent.sum : WithBot ℚ))]

/-- The series has the mean of these observations of a metric, which is among them. -/
def DistributionPointsSeries.Tells (sink : DatadogSink) (key : MetricKey) (recent : List ℚ)
    (x : DistributionPointsSeries) : Prop :=
  x.metric = sink.fullName key.name ∧ x.tags = tagsOf key.dimensions ∧
    ∃ ts mean, x.points = [(ts, [mean])] ∧ mean * recent.length = recent.sum ∧
      (∃ least ∈ recent, least ≤ mean) ∧ ∃ greatest ∈ recent, mean ≤ greatest

/-- A mean is neither less than all the values nor greater than all. -/
theorem mean_between {values : List ℚ} (hne : values ≠ []) {mean : ℚ}
    (hmean : mean * values.length = values.sum) :
    (∃ least ∈ values, least ≤ mean) ∧ ∃ greatest ∈ values, mean ≤ greatest := by
  have hsum : (values.map fun _ => mean).sum = (values.map id).sum := by
    rw [List.map_const', List.sum_replicate, List.map_id, nsmul_eq_mul, mul_comm]
    exact hmean
  constructor
  · by_contra hnone
    push Not at hnone
    exact absurd hsum (List.sum_lt_sum_of_ne_nil hne _ _ hnone).ne
  · by_contra hnone
    push Not at hnone
    exact absurd hsum (List.sum_lt_sum_of_ne_nil hne _ _ hnone).ne'

theorem exportOne_tells (sink : DatadogSink) {key : MetricKey} {m : MetricSnapshot}
    (hkey : m.isOf key = true) {recent : List ℚ} (hfigures : figuresOver recent = some m.stats) :
    (∀ x ∈ (sink.exportOne {} m).series, x.Tells sink key recent) ∧
      ∀ x ∈ (sink.exportOne {} m).distributions, x.Tells sink key recent := by
  obtain ⟨hname, hdims⟩ := of_decide_eq_true hkey
  obtain ⟨hne, hstats⟩ := figuresOver_eq_some_iff.mp hfigures
  rw [sum_map_of] at hstats
  obtain ⟨hcount, hsum, _, hmax⟩ := Bucket.mk.inj hstats
  simp only [DatadogSink.exportOne]
  split
  · refine ⟨?_, ?_⟩
    · intro x hx
      cases hx
    · intro x hx
      rw [List.nil_append, List.mem_singleton] at hx
      subst hx
      have hpos : m.count ≠ 0 := by
        rw [hcount]
        exact fun hzero => hne (List.length_eq_zero_iff.mp hzero)
      have hmean : averageOf m * recent.length = recent.sum := by
        have hcast : (m.count : ℚ) ≠ 0 := Nat.cast_ne_zero.mpr hpos
        rw [averageOf, if_neg hpos, ← hcount, div_mul_cancel₀ _ hcast, hsum]
      refine ⟨congrArg sink.fullName hname, congrArg tagsOf hdims, _, _, rfl, hmean, ?_⟩
      exact mean_between hne hmean
  · split
    · refine ⟨?_, ?_⟩
      · intro x hx
        rw [List.nil_append, List.mem_singleton] at hx
        subst hx
        refine ⟨congrArg sink.fullName hname, congrArg tagsOf hdims, timestampOf m, ?_⟩
        rw [hmax]
      · intro x hx
        cases hx
    · refine ⟨?_, ?_⟩
      · intro x hx
        rw [List.nil_append, List.mem_singleton] at hx
        subst hx
        refine ⟨congrArg sink.fullName hname, congrArg tagsOf hdims, timestampOf m, ?_⟩
        rw [hsum]
      · intro x hx
        cases hx

/-! ## Whole runs -/

section

variable {cfg : Config} {sink : DatadogSink} {enteredAt : Time} {ops : List Uploads.Op}
  {u : Uploads Submission}

/-- **What Datadog counts of a metric** when all its observations are counted once for
    every flush that shows them: their sum, except for what is still under way, what a
    failed export has given up, and what was flushed after the sink had been left. -/
theorem counts_add_up (hlevel : cfg.level ≠ .none)
    (hrun : Lib.exec (Uploads.step cfg sink.export) anyStep (Uploads.entered cfg enteredAt) ops =
      some u)
    {key : MetricKey} (hkey : Counted key)
    (hordered : ((ops.filterMap Uploads.Op.manager?).filterMap
      (Op.reading cfg key)).Pairwise (· ≤ ·)) :
    Outbox.weigh (Submission.counts sink key) (u.outbox.received.map Prod.snd) +
        u.outbox.underway.total (fun _ => Outbox.weigh (Submission.counts sink key)) +
        Outbox.weigh (Submission.counts sink key) (u.outbox.dropped.map Prod.snd) +
        ((shown key u.ignored.flatten).2 : WithBot ℚ) =
      ((visited cfg key (ops.filterMap Uploads.Op.manager?)).2 : WithBot ℚ) := by
  have hmanager := run_manager hrun
  have hmade := exports_made hmanager
  have hexported := exported_eq_visited hlevel hmanager hordered
  have hadds := (run_sent (Submission.counts sink key) hrun).adds_up
    (fun snaps => ((shown key snaps).2 : WithBot ℚ)) rfl ?_ ?_
  · rw [← hexported]
    exact hadds
  · intro snaps snaps'
    rw [shown_append, Prod.snd_add, WithBot.coe_add]
  · intro snaps hsnaps
    apply weigh_export hkey
    intro m hm
    exact hmade m (List.mem_flatten_of_mem hsnaps hm)

def putTime (now : Time) (value : ℚ) : Metrics.Op :=
  .put now now "BufferedTime" value (some "s") none none

/-- A count and a distribution, in two submissions, of which a second export makes none. -/
def twoFlushes : List Uploads.Op :=
  [.manager (onePut 30), .manager (putTime 30 2), .manager (putTime 31 4),
    .manager (.flush fun _ => 31), .taken 0, .taken 0, .manager (.flush fun _ => 32), .abandoned 1]

theorem counts_add_up_two :
    ∃ u, Lib.exec (Uploads.step detailed (DatadogSink.export {})) anyStep
        (Uploads.entered detailed 0) twoFlushes = some u ∧
      Outbox.weigh (Submission.counts {} onePutKey) (u.outbox.received.map Prod.snd) +
          u.outbox.underway.total (fun _ => Outbox.weigh (Submission.counts {} onePutKey)) +
          Outbox.weigh (Submission.counts {} onePutKey) (u.outbox.dropped.map Prod.snd) +
          ((shown onePutKey u.ignored.flatten).2 : WithBot ℚ) = ((2 : ℚ) : WithBot ℚ) := by
  have hsome : (Lib.exec (Uploads.step detailed (DatadogSink.export {})) anyStep
      (Uploads.entered detailed 0) twoFlushes).isSome = true := by
    decide +kernel
  have hcounted : Counted onePutKey := by
    constructor <;> decide
  obtain ⟨u, hrun⟩ := Option.isSome_iff_exists.mp hsome
  refine ⟨u, hrun, ?_⟩
  rw [counts_add_up (by decide) hrun hcounted (by decide +kernel)]
  decide +kernel

/-- These observations had been put last for the metric, when the export of this number was
    handed over. -/
def PutLast (cfg : Config) (enteredAt : Time) (ops : List Op) (number : ℕ) (key : MetricKey)
    (recent : List ℚ) : Prop :=
  recent ≠ [] ∧ ∃ before snaps, UpToExport cfg enteredAt ops number snaps before ∧
    recent <:+ before.filterMap (Op.value cfg key)

/-- **What a submission means**: it is not empty, and each of its points is what the last
    few observations of its metric came to when its export was handed over, whatever the
    clocks show. -/
theorem submissions_were_observed
    (hrun : Lib.exec (Uploads.step cfg sink.export) anyStep (Uploads.entered cfg enteredAt) ops =
      some u) :
    ∀ e ∈ u.outbox.received,
      (e.2.series ≠ [] ∨ e.2.distributions ≠ []) ∧
      (∀ x ∈ e.2.series, ∃ key recent,
        PutLast cfg enteredAt (ops.filterMap Uploads.Op.manager?) e.1 key recent ∧
          x.Tells sink key recent) ∧
      ∀ x ∈ e.2.distributions, ∃ key recent,
        PutLast cfg enteredAt (ops.filterMap Uploads.Op.manager?) e.1 key recent ∧
          x.Tells sink key recent := by
  rintro ⟨number, submission⟩ he
  -- only the exports of the submissions matter here, so any weight will do
  have hsent := run_sent (fun _ => (0 : ℚ)) hrun
  obtain ⟨_, snaps, hexport, hsubmission⟩ := hsent.export_of_received he
  obtain ⟨before, hbefore, hobserved⟩ :=
    exports_were_observed (run_manager hrun) number snaps hexport
  have htells : ∀ m ∈ snaps, ∃ key recent,
      PutLast cfg enteredAt (ops.filterMap Uploads.Op.manager?) number key recent ∧
        (∀ x ∈ (sink.exportOne {} m).series, x.Tells sink key recent) ∧
          ∀ x ∈ (sink.exportOne {} m).distributions, x.Tells sink key recent := by
    intro m hm
    obtain ⟨key, recent, hkey, hrecent, hfigures⟩ := hobserved m hm
    have hne := (figuresOver_eq_some_iff.mp hfigures).1
    exact ⟨key, recent, ⟨hne, before, snaps, hbefore, hrecent⟩, exportOne_tells sink hkey hfigures⟩
  obtain ⟨hne, hseries, hdistributions⟩ := mem_export hsubmission
  refine ⟨hne, ?_, ?_⟩
  · intro x hx
    obtain ⟨m, hm, hx⟩ := hseries x hx
    obtain ⟨key, recent, hlast, htold, _⟩ := htells m hm
    exact ⟨key, recent, hlast, htold x hx⟩
  · intro x hx
    obtain ⟨m, hm, hx⟩ := hdistributions x hx
    obtain ⟨key, recent, hlast, _, htold⟩ := htells m hm
    exact ⟨key, recent, hlast, htold x hx⟩

/-- The second submission has the mean of the two times. -/
theorem submissions_were_observed_two :
    ∃ u x, Lib.exec (Uploads.step detailed (DatadogSink.export {})) anyStep
        (Uploads.entered detailed 0) twoFlushes = some u ∧
      (0, Submission.distributionPoints [x]) ∈ u.outbox.received ∧ x.points = [(32, [3])] ∧
      ∃ key recent, PutLast detailed 0 (twoFlushes.filterMap Uploads.Op.manager?) 0 key recent ∧
        x.Tells {} key recent := by
  let x : DistributionPointsSeries :=
    { metric := "aiokpl.BufferedTime"
      points := [(32, [3])]
      tags := ["stream:s"] }
  have hsome : (Lib.exec (Uploads.step detailed (DatadogSink.export {})) anyStep
      (Uploads.entered detailed 0) twoFlushes).any
      (fun u => (0, Submission.distributionPoints [x]) ∈ u.outbox.received) = true := by
    decide +kernel
  obtain ⟨u, hrun, hreceived⟩ := (Option.any_eq_true _ _).mp hsome
  have hmem := of_decide_eq_true hreceived
  refine ⟨u, x, hrun, hmem, rfl, ?_⟩
  exact (submissions_were_observed hrun _ hmem).2.2 x (List.mem_singleton_self x)

end

end Datadog

end Aiokpl
