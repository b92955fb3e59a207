import Aiokpl.Lib.Slices
import Aiokpl.MetricsUploads

/-!
# CloudWatch sink (`aiokpl/sinks/cloudwatch.py`)

The sink turns every snapshot into a datum, and posts the datums of an export in chunks,
one request after the other.  Datums carry the count and the sum of their snapshot, so
what the service has of a metric is what its exports have shown, but for the requests
that are under way, or that a failed export has not made.
-/

namespace Aiokpl

open Lib Metrics

namespace CloudWatch

/-! ## The sink -/

/-- `_CLOUDWATCH_BATCH_LIMIT`. -/
def batchLimit : ℕ := 1000

/-- `_DIMENSION_NAMES`. -/
def dimensionNames : List (String × String) :=
  [("stream", "StreamName"), ("shard", "ShardId"), ("error_code", "ErrorCode")]

/-- `_DIMENSION_NAMES.get(key, key)`. -/
def dimensionName (key : String) : String := (dimensionNames.lookup key).getD key

/-- An entry of `MetricData`, its `StatisticValues` included. -/
structure Datum where
  metricName : String
  dimensions : List (String × String)
  sampleCount : ℚ
  sum : ℚ
  minimum : WithTop ℚ
  maximum : WithBot ℚ
  deriving DecidableEq

/-- What `put_metric_data` is called with. -/
structure PutMetricData where
  nameSpace : String
  metricData : List Datum
  deriving DecidableEq

structure CloudWatchSink where
  nameSpace : String := "aiokpl"

def translate (dimensions : List (String × String)) : List (String × String) :=
  dimensions.map fun e => (dimensionName e.1, e.2)

/-- `_snapshot_to_datum`. -/
def snapshotToDatum (snapshot : MetricSnapshot) : Datum :=
  { metricName := snapshot.name
    dimensions := translate snapshot.dimensions
    sampleCount := snapshot.count
    sum := snapshot.sum
    minimum := snapshot.min
    maximum := snapshot.max }

/-- The requests of `export`, of a sink that has been entered. -/
def CloudWatchSink.export (sink : CloudWatchSink) (snapshots : List MetricSnapshot) :
    List PutMetricData :=
  if snapshots = [] then []
  else
    let datums := snapshots.map snapshotToDatum
    (slices batchLimit datums).map fun chunk =>
      { nameSpace := sink.nameSpace, metricData := chunk }

/-! ## The requests of an export -/

theorem batchLimit_pos : 0 < batchLimit := by decide

/-- The requests carry the datums of the export, in order. -/
theorem metricData_export (sink : CloudWatchSink) (snaps : List MetricSnapshot) :
    (sink.export snaps).flatMap PutMetricData.metricData = snaps.map snapshotToDatum := by
  unfold CloudWatchSink.export
  split
  · rename_i hnil
    rw [hnil]
    rfl
  · rw [List.flatMap_map, List.flatMap_id', flatten_slices batchLimit_pos]

theorem mem_export {sink : CloudWatchSink} {snaps : List MetricSnapshot} {request : PutMetricData}
    (h : request ∈ sink.export snaps) :
    request.nameSpace = sink.nameSpace ∧ 0 < request.metricData.length ∧
      request.metricData.length ≤ batchLimit := by
  unfold CloudWatchSink.export at h
  split at h
  · cases h
  · obtain ⟨chunk, hchunk, rfl⟩ := List.mem_map.mp h
    exact ⟨rfl, length_of_mem_slices batchLimit_pos hchunk⟩

/-! ## The datums of a metric -/

/-- The datum is of this metric. -/
def Datum.isOf (key : MetricKey) (d : Datum) : Bool :=
  d.metricName = key.name ∧ d.dimensions = translate key.dimensions

theorem translate_injective {key key' : MetricKey} (hname : key.name = key'.name)
    (h : translate key.dimensions = translate key'.dimensions) : key = key' := by
  have hlookup : ∀ key : MetricKey, (translate key.dimensions).lookup "StreamName" = key.stream ∧
      (translate key.dimensions).lookup "ShardId" = key.shardId ∧
      (translate key.dimensions).lookup "ErrorCode" = key.errorCode := by
    rintro ⟨name, stream, shardId, errorCode⟩
    cases stream <;> cases shardId <;> cases errorCode <;>
      simp [translate, MetricKey.dimensions, dimensionName, dimensionNames, List.lookup_cons]
  obtain ⟨hstream, hshard, herror⟩ := hlookup key
  obtain ⟨hstream', hshard', herror'⟩ := hlookup key'
  rw [h] at hstream hshard herror
  cases key
  cases key'
  simp only [MetricKey.mk.injEq]
  exact ⟨hname, hstream.symm.trans hstream', hshard.symm.trans hshard', herror.symm.trans herror'⟩

/-- The translation of the dimensions keeps the metrics of a manager apart. -/
theorem isOf_snapshotToDatum {m : MetricSnapshot} (hmade : Made m) (key : MetricKey) :
    (snapshotToDatum m).isOf key = m.isOf key := by
  obtain ⟨key', bounds, st, rfl⟩ := hmade
  rw [Bool.eq_iff_iff, isOf_snapshot, Datum.isOf, decide_eq_true_eq]
  constructor
  · rintro ⟨hname, hdims⟩
    exact translate_injective hname hdims
  · rintro rfl
    exact ⟨rfl, rfl⟩

/-- The samples and the sum that a request posts of a metric. -/
def PutMetricData.posts (key : MetricKey) (request : PutMetricData) : ℚ × ℚ :=
  ((request.metricData.filter (Datum.isOf key)).map fun d => (d.sampleCount, d.sum)).sum

/-- A count and a sum, as the service has them. -/
def asFloats (figures : ℕ × ℚ) : ℚ × ℚ := (figures.1, figures.2)

theorem asFloats_zero : asFloats 0 = 0 := by
  simp only [asFloats, Prod.fst_zero, Prod.snd_zero, Nat.cast_zero]
  rfl

theorem asFloats_add (figures figures' : ℕ × ℚ) :
    asFloats (figures + figures') = asFloats figures + asFloats figures' := by
  simp [asFloats]

/-- The requests of an export post of each metric what the export shows of it. -/
theorem weigh_export (key : MetricKey) (sink : CloudWatchSink) {snaps : List MetricSnapshot}
    (hmade : ∀ m ∈ snaps, Made m) :
    Outbox.weigh (PutMetricData.posts key) (sink.export snaps) = asFloats (shown key snaps) := by
  have hflat : ∀ requests : List PutMetricData,
      Outbox.weigh (PutMetricData.posts key) requests =
        (((requests.flatMap PutMetricData.metricData).filter (Datum.isOf key)).map
          fun d => (d.sampleCount, d.sum)).sum := by
    intro requests
    induction requests with
    | nil => rfl
    | cons request rest ih =>
      rw [List.flatMap_cons, List.filter_append, List.map_append, List.sum_append, ← ih]
      rfl
  rw [hflat, metricData_export]
  induction snaps with
  | nil => exact asFloats_zero.symm
  | cons m rest ih =>
    have hkey := isOf_snapshotToDatum (hmade m List.mem_cons_self) key
    have hrest := ih fun m' hm' => hmade m' (List.mem_cons_of_mem _ hm')
    rw [shown_cons, asFloats_add, ← hrest, List.map_cons, List.filter_cons, hkey]
    split
    · rfl
    · exact (zero_add _).symm

/-! ## Whole runs -/

section

variable {cfg : Config} {sink : CloudWatchSink} {enteredAt : Time} {ops : List Uploads.Op}
  {u : Uploads PutMetricData}

/-- **What CloudWatch has of a metric** when all its observations are counted once for
    every flush that shows them: of samples and of their sum, each flush adds what it
    shows, except for what is still under way, what a failed export has given up, and what
    was flushed after the sink had been left. -/
theorem posts_add_up (hlevel : cfg.level ≠ .none)
    (hrun : Lib.exec (Uploads.step cfg sink.export) anyStep (Uploads.entered cfg enteredAt) ops =
      some u)
    {key : MetricKey} (hordered : ((ops.filterMap Uploads.Op.manager?).filterMap
      (Op.reading cfg key)).Pairwise (· ≤ ·)) :
    Outbox.weigh (PutMetricData.posts key) (u.outbox.received.map Prod.snd) +
        u.outbox.underway.total (fun _ => Outbox.weigh (PutMetricData.posts key)) +
        Outbox.weigh (PutMetricData.posts key) (u.outbox.dropped.map Prod.snd) +
        asFloats (shown key u.ignored.flatten) =
      asFloats (visited cfg key (ops.filterMap Uploads.Op.manager?)) := by
  have hmanager := run_manager hrun
  have hmade := exports_made hmanager
  have hexported := exported_eq_visited hlevel hmanager hordered
  have hadds := (run_sent (PutMetricData.posts key) hrun).adds_up
    (fun snaps => asFloats (shown key snaps)) asFloats_zero ?_ ?_
  · rw [← hexported]
    exact hadds
  · intro snaps snaps'
    rw [shown_append, asFloats_add]
  · intro snaps hsnaps
    apply weigh_export
    intro m hm
    exact hmade m (List.mem_flatten_of_mem hsnaps hm)

/-- Flushed by hand, flushed by a failing export, and put after the exit. -/
def threeFlushes : List Uploads.Op :=
  [.manager (onePut (61 / 2)), .manager (.flush fun _ => 31), .taken 0,
    .manager (.flush fun _ => 32), .abandoned 1, .manager (.exit fun _ => 95), .manager .exited,
    .manager (onePut 96), .manager (.flush fun _ => 97)]

theorem posts_add_up_three :
    ∃ u, Lib.exec (Uploads.step detailed (CloudWatchSink.export {})) anyStep
        (Uploads.entered detailed 0) threeFlushes = some u ∧
      Outbox.weigh (PutMetricData.posts onePutKey) (u.outbox.received.map Prod.snd) +
          u.outbox.underway.total (fun _ => Outbox.weigh (PutMetricData.posts onePutKey)) +
          Outbox.weigh (PutMetricData.posts onePutKey) (u.outbox.dropped.map Prod.snd) +
          asFloats (shown onePutKey u.ignored.flatten) = (3, 3) := by
  have hsome : (Lib.exec (Uploads.step detailed (CloudWatchSink.export {})) anyStep
      (Uploads.entered detailed 0) threeFlushes).isSome = true := by
    decide +kernel
  obtain ⟨u, hrun⟩ := Option.isSome_iff_exists.mp hsome
  refine ⟨u, hrun, ?_⟩
  rw [posts_add_up (by decide) hrun (by decide +kernel)]
  decide +kernel

/-- **What CloudWatch has of an export**: every request that it receives is one of an
    export and within its limits, and those of one export carry its datums from the first
    one on, each once and in order; all of them, if the export does not fail. -/
theorem posts_in_order
    (hrun : Lib.exec (Uploads.step cfg sink.export) anyStep (Uploads.entered cfg enteredAt) ops =
      some u) :
    (∀ e ∈ u.outbox.received, e.2.nameSpace = sink.nameSpace ∧ 0 < e.2.metricData.length ∧
        e.2.metricData.length ≤ batchLimit ∧ e.1 < u.outbox.handed.length) ∧
      ∀ number snaps, number < u.outbox.handed.length →
        u.manager.exports[number]? = some snaps →
        let posted := (under number u.outbox.received).flatMap PutMetricData.metricData
        posted <+: snaps.map snapshotToDatum ∧
          (u.done number = true → posted = snaps.map snapshotToDatum) := by
  -- only the order of the requests matters here, so any weight will do
  have hsent := run_sent (fun _ => (0 : ℚ)) hrun
  constructor
  · rintro ⟨number, request⟩ he
    obtain ⟨hlt, snaps, _, hrequest⟩ := hsent.export_of_received he
    obtain ⟨hname, hpos, hle⟩ := mem_export hrequest
    exact ⟨hname, hpos, hle, hlt⟩
  · intro number snaps hlt hexport posted
    obtain ⟨hinit, hdone⟩ := hsent.received_of_export hlt hexport
    constructor
    · obtain ⟨rest, hrest⟩ := hinit
      rw [← metricData_export sink snaps, ← hrest, List.flatMap_append]
      exact List.prefix_append _ _
    · intro hover
      rw [← metricData_export sink snaps, ← hdone hover]

end

/-! ### More datums than a request takes -/

def streamName (i : ℕ) : String := String.ofList (List.replicate i 's')

def streamKey (i : ℕ) : MetricKey := { name := "UserRecordsPut", stream := some (streamName i) }

theorem streamKey_injective : Function.Injective streamKey := by
  intro i j h
  have hstream : streamName i = streamName j := Option.some.inj (congrArg MetricKey.stream h)
  exact (List.replicate_inj.mp (String.ofList_injective hstream)).1

/-- One observation for each of `n` streams. -/
def putsOn (n : ℕ) : List Uploads.Op :=
  (List.range n).map fun i =>
    .manager (.put (61 / 2) (61 / 2) "UserRecordsPut" 1 (some (streamName i)) none none)

/-- The registry behind these. -/
def observedBy (n : ℕ) : Dict MetricKey Accumulator :=
  ⟨(List.range n).map fun i => (streamKey i, ({} : Accumulator).put (61 / 2) 1), by
    rw [List.map_map]
    exact List.nodup_range.map streamKey_injective⟩

theorem get?_observedBy (n : ℕ) : (observedBy n).get? (streamKey n) = none := by
  rw [Dict.get?_eq_none_iff, Dict.keys, observedBy, List.map_map, List.mem_map]
  rintro ⟨i, hi, hkey⟩
  exact absurd (streamKey_injective hkey) (List.mem_range.mp hi).ne

theorem observedBy_succ (n : ℕ) :
    (observedBy n).set (streamKey n) (({} : Accumulator).put (61 / 2) 1) = observedBy (n + 1) := by
  have hentries : (observedBy (n + 1)).entries =
      (observedBy n).entries ++ [(streamKey n, ({} : Accumulator).put (61 / 2) 1)] := by
    simp [observedBy, List.range_succ]
  apply Dict.ext
  rw [Dict.entries_set_of_none (get?_observedBy n), hentries]

theorem exec_putsOn (sink : CloudWatchSink) (n : ℕ) :
    Lib.exec (Uploads.step detailed sink.export) anyStep (Uploads.entered detailed 0) (putsOn n) =
      some { manager := { Metrics.entered detailed 0 with registry := observedBy n } } := by
  induction n with
  | zero => rfl
  | succ n ih =>
    have hput : Uploads.step detailed sink.export
        { manager := { Metrics.entered detailed 0 with registry := observedBy n } }
        (.manager (.put (61 / 2) (61 / 2) "UserRecordsPut" 1 (some (streamName n)) none none)) =
        some { manager := { Metrics.entered detailed 0 with registry := observedBy (n + 1) } } := by
      have hregistry : (Metrics.put detailed (61 / 2) (61 / 2) (streamKey n) 1
          { Metrics.entered detailed 0 with registry := observedBy n }).registry =
            observedBy (n + 1) := by
        rw [← observedBy_succ, Metrics.put, get?_observedBy]
        rfl
      rw [← hregistry]
      rfl
    rw [putsOn, List.range_succ, List.map_append, Lib.exec_append, ← putsOn, ih, Option.bind_some,
      List.map_singleton, Lib.exec, if_pos (by trivial), hput]
    rfl

/-- All of them are flushed, in two requests, and flushed again: the first request returns,
    and the second one fails. -/
def twoFlushes : List Uploads.Op :=
  [.manager (.flush fun _ => 31), .taken 0, .taken 0, .manager (.flush fun _ => 32), .taken 1,
    .abandoned 1]

theorem posts_in_order_two :
    ∃ u, Lib.exec (Uploads.step detailed (CloudWatchSink.export {})) anyStep
        (Uploads.entered detailed 0) (putsOn (batchLimit + 1) ++ twoFlushes) = some u ∧
      u.outbox.received.map (fun e => (e.1, e.2.metricData.length)) =
        [(0, 1000), (0, 1), (1, 1000)] ∧
      ∃ snaps snaps', u.manager.exports[0]? = some snaps ∧ u.manager.exports[1]? = some snaps' ∧
        (under 0 u.outbox.received).flatMap PutMetricData.metricData = snaps.map snapshotToDatum ∧
        (under 1 u.outbox.received).flatMap PutMetricData.metricData <+:
          snaps'.map snapshotToDatum := by
  have hsome : ((Lib.exec (Uploads.step detailed (CloudWatchSink.export {})) anyStep
      { manager := { Metrics.entered detailed 0 with registry := observedBy (batchLimit + 1) } }
      twoFlushes).any fun u =>
        u.outbox.received.map (fun e => (e.1, e.2.metricData.length)) =
          [(0, 1000), (0, 1), (1, 1000)] ∧
        u.manager.exports[0]?.isSome ∧ u.manager.exports[1]?.isSome ∧
        1 < u.outbox.handed.length ∧ u.done 0) = true := by
    decide +kernel
  obtain ⟨u, hflushes, hu⟩ := (Option.any_eq_true _ _).mp hsome
  obtain ⟨hreceived, hexport, hexport', hlt, hdone⟩ := of_decide_eq_true hu
  obtain ⟨snaps, hsnaps⟩ := Option.isSome_iff_exists.mp hexport
  obtain ⟨snaps', hsnaps'⟩ := Option.isSome_iff_exists.mp hexport'
  have hrun : Lib.exec (Uploads.step detailed (CloudWatchSink.export {})) anyStep
      (Uploads.entered detailed 0) (putsOn (batchLimit + 1) ++ twoFlushes) = some u := by
    rw [Lib.exec_append, exec_putsOn, Option.bind_some]
    exact hflushes
  obtain ⟨_, hposted⟩ := posts_in_order hrun
  exact ⟨u, hrun, hreceived, snaps, snaps', hsnaps, hsnaps',
    (hposted 0 snaps (by omega) hsnaps).2 hdone, (hposted 1 snaps' hlt hsnaps').1⟩

end CloudWatch

end Aiokpl
