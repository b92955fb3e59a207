import Aiokpl.MetricsRuns

/-!
# OpenTelemetry sink (`aiokpl/sinks/opentelemetry.py`)

The sink turns every snapshot into one call on an instrument of the meter, which it
creates the first time it sees a name.  A counter is added the change of the sum since
the last export of the metric, a gauge the largest observation in the window.  An
export does not wait for anything, so exports do not overlap.
-/

namespace Aiokpl

open Lib Metrics

namespace OpenTelemetry

/-! ## Instruments -/

inductive InstrumentKind
  | counter
  | histogram
  | upDownCounter
  deriving DecidableEq, Repr

structure Instrument where
  kind : InstrumentKind
  name : String
  deriving DecidableEq, Repr

def counterNames : List String :=
  ["UserRecordsReceived", "UserRecordsPut", "UserRecordsDataPut", "KinesisRecordsPut",
    "KinesisRecordsDataPut", "AllErrors", "ErrorsByCode", "ExpiredRecords"]

def histogramNames : List String := ["BufferedTime", "RequestTime", "RetriesPerRecord"]

def updownNames : List String := ["UserRecordsPending"]

/-- The branch of `export` that a name takes; unknown names default to a counter. -/
def kindOf (name : String) : InstrumentKind :=
  if name ∈ counterNames then .counter
  else if name ∈ histogramNames then .histogram
  else if name ∈ updownNames then .upDownCounter
  else .counter

abbrev Attributes := Dict String String

/-- `dict(s.dimensions)`. -/
def attributesOf (dimensions : List (String × String)) : Attributes :=
  dimensions.foldl (fun attrs e => attrs.set e.1 e.2) .empty

/-- What the meter and its instruments are called with. -/
inductive Call
  | create (instrument : Instrument)
  | add (instrument : Instrument) (amount : WithBot ℚ) (attributes : Attributes)
  | record (instrument : Instrument) (value : ℚ) (attributes : Attributes)
  deriving DecidableEq

/-! ## The sink -/

/-- An `OpenTelemetrySink`, with the calls it has made. -/
structure OpenTelemetrySink where
  instrumentPrefix : String := "aiokpl."
  counters : Dict String Instrument := .empty
  histograms : Dict String Instrument := .empty
  updowns : Dict String Instrument := .empty
  lastCount : Dict (String × List (String × String)) ℚ := .empty
  calls : List Call := []

namespace OpenTelemetrySink

def instrumentName (sink : OpenTelemetrySink) (name : String) : String :=
  sink.instrumentPrefix ++ name

/-- The cached instrument of a name, or a new one: the instrument, the cache and the calls
    on the meter. -/
def instrumentFor (sink : OpenTelemetrySink) (kind : InstrumentKind)
    (cache : Dict String Instrument) (name : String) :
    Instrument × Dict String Instrument × List Call :=
  match cache.get? name with
  | some instrument => (instrument, cache, [])
  | none =>
    let instrument : Instrument := { kind, name := sink.instrumentName name }
    (instrument, cache.set name instrument, [.create instrument])

/-- What a counter is added for a sum, after the last one exported. -/
def delta (prev sum : ℚ) : ℚ := if sum - prev < 0 then sum else sum - prev

/-- `_record_counter`. -/
def recordCounter (s : MetricSnapshot) (attrs : Attributes) (sink : OpenTelemetrySink) :
    OpenTelemetrySink :=
  let (counter, counters, created) := sink.instrumentFor .counter sink.counters s.name
  let key := (s.name, s.dimensions)
  let prev := (sink.lastCount.get? key).getD 0
  { sink with
    counters
    lastCount := sink.lastCount.set key s.sum
    calls := sink.calls ++ created ++ [.add counter (delta prev s.sum) attrs] }

/-- `_record_histogram`. -/
def recordHistogram (s : MetricSnapshot) (attrs : Attributes) (sink : OpenTelemetrySink) :
    OpenTelemetrySink :=
  let (histogram, histograms, created) := sink.instrumentFor .histogram sink.histograms s.name
  let avg := if s.count = 0 then 0 else s.sum / s.count
  { sink with histograms, calls := sink.calls ++ created ++ [.record histogram avg attrs] }

/-- `_record_updown`. -/
def recordUpdown (s : MetricSnapshot) (attrs : Attributes) (sink : OpenTelemetrySink) :
    OpenTelemetrySink :=
  let (gauge, updowns, created) := sink.instrumentFor .upDownCounter sink.updowns s.name
  { sink with updowns, calls := sink.calls ++ created ++ [.add gauge s.max attrs] }

/-- One turn of the loop of `export`. -/
def exportOne (sink : OpenTelemetrySink) (s : MetricSnapshot) : OpenTelemetrySink :=
  let attrs := attributesOf s.dimensions
  match kindOf s.name with
  | .counter => sink.recordCounter s attrs
  | .histogram => sink.recordHistogram s attrs
  | .upDownCounter => sink.recordUpdown s attrs

/-- `export`. -/
def exportSnapshots (sink : OpenTelemetrySink) (snapshots : List MetricSnapshot) :
    OpenTelemetrySink :=
  snapshots.foldl exportOne sink

/-! ## What the sink keeps -/

/-- The cache holds the instruments that it was filled with. -/
def Caches (sink : OpenTelemetrySink) (kind : InstrumentKind) (cache : Dict String Instrument) :
    Prop :=
  ∀ name instrument, cache.get? name = some instrument →
    instrument = { kind, name := sink.instrumentName name }

structure Valid (sink : OpenTelemetrySink) : Prop where
  counters : sink.Caches .counter sink.counters
  histograms : sink.Caches .histogram sink.histograms
  updowns : sink.Caches .upDownCounter sink.updowns

theorem valid_new (instrumentPrefix : String) : Valid { instrumentPrefix } := by
  constructor <;>
    · intro name instrument hget
      cases hget

theorem instrumentFor_spec {sink : OpenTelemetrySink} {kind : InstrumentKind}
    {cache : Dict String Instrument} (h : sink.Caches kind cache) (name : String) :
    (sink.instrumentFor kind cache name).1 = { kind, name := sink.instrumentName name } ∧
      sink.Caches kind (sink.instrumentFor kind cache name).2.1 ∧
      ∀ call ∈ (sink.instrumentFor kind cache name).2.2,
        ∃ instrument, call = .create instrument := by
  unfold instrumentFor
  cases hget : cache.get? name with
  | some instrument =>
    refine ⟨h name instrument hget, h, ?_⟩
    simp
  | none =>
    refine ⟨rfl, ?_, ?_⟩
    · intro name' instrument' hget'
      rw [Dict.get?_set] at hget'
      split at hget'
      · rename_i hname
        rw [← Option.some.inj hget', hname]
      · exact h name' instrument' hget'
    · intro call hcall
      exact ⟨_, List.mem_singleton.mp hcall⟩

/-! ## What one snapshot adds -/

/-- The amount that a call adds to this instrument under these attributes. -/
def amountFor (instrument : Instrument) (attributes : Attributes) : Call → Option (WithBot ℚ)
  | .add instrument' amount attributes' =>
    if instrument' = instrument ∧ attributes' = attributes then some amount else none
  | _ => none

/-- The running value of the instrument of a metric, for its dimensions. -/
def added (key : MetricKey) (sink : OpenTelemetrySink) : WithBot ℚ :=
  (sink.calls.filterMap (amountFor { kind := kindOf key.name, name := sink.instrumentName key.name }
    (attributesOf key.dimensions))).sum

/-- The sum of the metric at its last export. -/
def lastSum (key : MetricKey) (sink : OpenTelemetrySink) : ℚ :=
  (sink.lastCount.get? (key.name, key.dimensions)).getD 0

theorem attributesOf_injective {key key' : MetricKey} (hname : key.name = key'.name)
    (h : attributesOf key.dimensions = attributesOf key'.dimensions) : key = key' := by
  have hget : ∀ key : MetricKey, (attributesOf key.dimensions).get? "stream" = key.stream ∧
      (attributesOf key.dimensions).get? "shard" = key.shardId ∧
      (attributesOf key.dimensions).get? "error_code" = key.errorCode := by
    rintro ⟨name, stream, shardId, errorCode⟩
    cases stream <;> cases shardId <;> cases errorCode <;>
      simp [attributesOf, MetricKey.dimensions, Dict.get?_set]
  obtain ⟨hstream, hshard, herror⟩ := hget key
  obtain ⟨hstream', hshard', herror'⟩ := hget key'
  rw [h] at hstream hshard herror
  cases key
  cases key'
  simp only [MetricKey.mk.injEq]
  exact ⟨hname, hstream.symm.trans hstream', hshard.symm.trans hshard', herror.symm.trans herror'⟩

/-- A call on the instrument of one metric is not on that of another. -/
theorem amountFor_add (sink : OpenTelemetrySink) (key : MetricKey) {key' : MetricKey}
    {kind : InstrumentKind} (hkind : kindOf key'.name = kind) (amount : WithBot ℚ) :
    amountFor { kind := kindOf key.name, name := sink.instrumentName key.name }
        (attributesOf key.dimensions)
        (.add { kind, name := sink.instrumentName key'.name } amount
          (attributesOf key'.dimensions)) =
      if key' = key then some amount else none := by
  subst hkind
  by_cases hkey : key' = key
  · rw [hkey, if_pos rfl]
    exact if_pos ⟨rfl, rfl⟩
  · rw [if_neg hkey]
    refine if_neg ?_
    rintro ⟨hinstrument, hattrs⟩
    have hname : sink.instrumentPrefix ++ key'.name = sink.instrumentPrefix ++ key.name :=
      congrArg Instrument.name hinstrument
    exact hkey (attributesOf_injective ((String.append_right_inj _).mp hname) hattrs)

/-- Creating an instrument adds nothing; what is added is what the last call adds. -/
theorem added_of_calls {sink sink' : OpenTelemetrySink} {created : List Call} {last : Call}
    (hcalls : sink'.calls = sink.calls ++ created ++ [last])
    (hcreated : ∀ call ∈ created, ∃ instrument, call = .create instrument)
    (hname : sink'.instrumentPrefix = sink.instrumentPrefix) (key : MetricKey) :
    sink'.added key = sink.added key +
      (amountFor { kind := kindOf key.name, name := sink.instrumentName key.name }
        (attributesOf key.dimensions) last).getD 0 := by
  have hnone : created.filterMap (amountFor
      { kind := kindOf key.name, name := sink.instrumentName key.name }
      (attributesOf key.dimensions)) = [] := by
    rw [List.filterMap_eq_nil_iff]
    intro call hcall
    obtain ⟨instrument, rfl⟩ := hcreated call hcall
    rfl
  have hinstrument : sink'.instrumentName key.name = sink.instrumentName key.name := by
    rw [instrumentName, instrumentName, hname]
  rw [added, added, hinstrument, hcalls, List.filterMap_append, List.filterMap_append, hnone,
    List.append_nil, List.sum_append, List.filterMap_cons]
  cases amountFor { kind := kindOf key.name, name := sink.instrumentName key.name }
    (attributesOf key.dimensions) last <;> simp

section Snapshots

variable {sink : OpenTelemetrySink} (hvalid : sink.Valid) (key key' : MetricKey)
  (bounds : Time × Time) (st : Bucket)

include hvalid

theorem exportOne_valid (s : MetricSnapshot) : (sink.exportOne s).Valid := by
  unfold exportOne
  cases kindOf s.name with
  | counter =>
    exact ⟨(instrumentFor_spec hvalid.counters s.name).2.1, hvalid.histograms, hvalid.updowns⟩
  | histogram =>
    exact ⟨hvalid.counters, (instrumentFor_spec hvalid.histograms s.name).2.1, hvalid.updowns⟩
  | upDownCounter =>
    exact ⟨hvalid.counters, hvalid.histograms, (instrumentFor_spec hvalid.updowns s.name).2.1⟩

theorem recordCounter_added (hkind : kindOf key'.name = .counter) :
    (sink.recordCounter (key'.snapshot bounds st) (attributesOf key'.dimensions)).added key =
      sink.added key +
        if key' = key then ((delta (sink.lastSum key') st.sum : ℚ) : WithBot ℚ) else 0 := by
  obtain ⟨hinstrument, _, hcreated⟩ := instrumentFor_spec hvalid.counters key'.name
  have hcalls :
      (sink.recordCounter (key'.snapshot bounds st) (attributesOf key'.dimensions)).calls =
      sink.calls ++ (sink.instrumentFor .counter sink.counters key'.name).2.2 ++
        [.add (sink.instrumentFor .counter sink.counters key'.name).1
          ((delta (sink.lastSum key') st.sum : ℚ) : WithBot ℚ)
          (attributesOf key'.dimensions)] := rfl
  rw [hinstrument] at hcalls
  rw [added_of_calls hcalls hcreated rfl key, amountFor_add sink key hkind]
  split <;> rfl

theorem recordHistogram_added :
    (sink.recordHistogram (key'.snapshot bounds st) (attributesOf key'.dimensions)).added key =
      sink.added key := by
  obtain ⟨_, _, hcreated⟩ := instrumentFor_spec hvalid.histograms key'.name
  have hcalls :
      (sink.recordHistogram (key'.snapshot bounds st) (attributesOf key'.dimensions)).calls =
      sink.calls ++ (sink.instrumentFor .histogram sink.histograms key'.name).2.2 ++ [_] := rfl
  rw [added_of_calls hcalls hcreated rfl key]
  exact add_zero _

theorem recordUpdown_added (hkind : kindOf key'.name = .upDownCounter) :
    (sink.recordUpdown (key'.snapshot bounds st) (attributesOf key'.dimensions)).added key =
      sink.added key + if key' = key then st.max else 0 := by
  obtain ⟨hinstrument, _, hcreated⟩ := instrumentFor_spec hvalid.updowns key'.name
  have hcalls : (sink.recordUpdown (key'.snapshot bounds st) (attributesOf key'.dimensions)).calls =
      sink.calls ++ (sink.instrumentFor .upDownCounter sink.updowns key'.name).2.2 ++
        [.add (sink.instrumentFor .upDownCounter sink.updowns key'.name).1 st.max
          (attributesOf key'.dimensions)] := rfl
  rw [hinstrument] at hcalls
  rw [added_of_calls hcalls hcreated rfl key, amountFor_add sink key hkind]
  split <;> rfl

/-- A turn of the loop adds the change of the sum to the counter of the snapshot's metric. -/
theorem exportOne_counter (hkey : kindOf key.name = .counter) :
    (sink.exportOne (key'.snapshot bounds st)).added key =
        sink.added key +
          (if key' = key then ((delta (sink.lastSum key') st.sum : ℚ) : WithBot ℚ) else 0) ∧
      (sink.exportOne (key'.snapshot bounds st)).lastSum key =
        if key' = key then st.sum else sink.lastSum key := by
  have hname : (key'.snapshot bounds st).name = key'.name := rfl
  have hdims : (key'.snapshot bounds st).dimensions = key'.dimensions := rfl
  have hother : kindOf key'.name ≠ .counter → key' ≠ key := by
    rintro hkind rfl
    exact hkind hkey
  unfold exportOne
  rw [hname, hdims]
  cases hkind : kindOf key'.name with
  | counter =>
    refine ⟨recordCounter_added hvalid key key' bounds st hkind, ?_⟩
    have hlast : (key'.name, key'.dimensions) = (key.name, key.dimensions) ↔ key' = key := by
      rw [Prod.mk.injEq]
      constructor
      · rintro ⟨hname, hdims⟩
        exact dimensions_injective hname hdims
      · rintro rfl
        exact ⟨rfl, rfl⟩
    simp only [recordCounter, lastSum, hname, hdims, Dict.get?_set]
    by_cases hsame : key' = key
    · rw [if_pos (hlast.mpr hsame).symm, if_pos hsame]
      rfl
    · rw [if_neg (fun h => hsame (hlast.mp h.symm)), if_neg hsame]
  | histogram =>
    have hne := hother (by simp [hkind])
    rw [if_neg hne, if_neg hne, add_zero]
    exact ⟨recordHistogram_added hvalid key key' bounds st, rfl⟩
  | upDownCounter =>
    have hne := hother (by simp [hkind])
    have hadded := recordUpdown_added hvalid key key' bounds st hkind
    rw [if_neg hne] at hadded ⊢
    rw [if_neg hne]
    exact ⟨hadded, rfl⟩

/-- A turn of the loop adds the largest observation to the gauge of the snapshot's metric. -/
theorem exportOne_gauge (hkey : kindOf key.name = .upDownCounter) :
    (sink.exportOne (key'.snapshot bounds st)).added key =
      sink.added key + if key' = key then st.max else 0 := by
  have hname : (key'.snapshot bounds st).name = key'.name := rfl
  have hdims : (key'.snapshot bounds st).dimensions = key'.dimensions := rfl
  have hother : kindOf key'.name ≠ .upDownCounter → key' ≠ key := by
    rintro hkind rfl
    exact hkind hkey
  unfold exportOne
  rw [hname, hdims]
  cases hkind : kindOf key'.name with
  | counter =>
    have hne := hother (by simp [hkind])
    have hadded := recordCounter_added hvalid key key' bounds st hkind
    rw [if_neg hne] at hadded ⊢
    exact hadded
  | histogram =>
    have hne := hother (by simp [hkind])
    rw [if_neg hne, add_zero]
    exact recordHistogram_added hvalid key key' bounds st
  | upDownCounter => exact recordUpdown_added hvalid key key' bounds st hkind

end Snapshots

end OpenTelemetrySink

end OpenTelemetry

end Aiokpl
