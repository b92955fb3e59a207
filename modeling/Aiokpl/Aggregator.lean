import Mathlib.Tactic
import Aiokpl.ReducerRuns
import Aiokpl.Batches
import Aiokpl.ShardMap

/-!
# One Reducer per predicted shard (`aiokpl/aggregator.py`)

The dictionary of Reducers keyed by predicted shard, with the catch-all key
`none`.  Each definition is a stretch of the source without an `await`: reading
the prediction, finding or making the Reducer under the lock, and one operation
of a Reducer under its own lock.  Metrics are left out.
-/

namespace Aiokpl

open Lib Aggregation

namespace Aggregator

/-- The constructor arguments of an `Aggregator`. -/
structure Config where
  aggregationEnabled : Bool := true
  recordMaxBufferedTimeMs : Time := 100
  aggregationMaxCount : Int := 4294967295
  aggregationMaxSize : Int := 51200

/-- `_buffered_time`, in seconds. -/
def Config.bufferedTime (cfg : Config) : Time := cfg.recordMaxBufferedTimeMs / 1000

/-- `_max_count`. -/
def Config.maxCount (cfg : Config) : Int :=
  if cfg.aggregationEnabled then cfg.aggregationMaxCount else 1

/-- The arguments of the Reducer that `_get_or_create_reducer` makes for a shard. -/
def Config.reducer (cfg : Config) (shardKey : Option ShardId) :
    Reducer.Config BufferedRecord AggregatedBatch :=
  { batchFactory := { predictedShard := shardKey }
    countLimit := cfg.maxCount
    sizeLimit := cfg.aggregationMaxSize }

/-- The fields of an `Aggregator`.  `entered` says that `_tg` is set. -/
structure State where
  reducers : Dict (Option ShardId) (Reducer.State AggregatedBatch) := .empty
  closed : Bool := false
  entered : Bool := true

/-- `build_buffered`, with the identity of the object it makes. -/
def buildBuffered (md5 : Bytes → Digest) (u : DigitClasses) (cfg : Config) (now : Time)
    (ident : Nat) (userRecord : UserRecord) : Except Hashing.Error BufferedRecord := do
  let hashKey ← match userRecord.explicitHashKey with
    | some ehk => Hashing.parseExplicitHashKey u ehk
    | none => .ok (Hashing.md5HashKey md5 userRecord.partitionKey)
  return { ident, userRecord, deadline := now + cfg.bufferedTime, hashKey, arrivalTime := now }

/-- The record that `build_buffered` makes, under the hash key that it read. -/
theorem buildBuffered_eq_ok {md5 : Bytes → Digest} {u : DigitClasses} {cfg : Config} {now : Time}
    {ident : Nat} {userRecord : UserRecord} {buffered : BufferedRecord}
    (h : buildBuffered md5 u cfg now ident userRecord = .ok buffered) :
    ∃ hashKey, (match userRecord.explicitHashKey with
      | some ehk => Hashing.parseExplicitHashKey u ehk
      | none => .ok (Hashing.md5HashKey md5 userRecord.partitionKey)) = .ok hashKey ∧
      buffered = { ident, userRecord, deadline := now + cfg.bufferedTime, hashKey,
                   arrivalTime := now } := by
  unfold buildBuffered at h
  cases hkey : userRecord.explicitHashKey with
  | none =>
    rw [hkey] at h
    exact ⟨_, rfl, (Except.ok.inj h).symm⟩
  | some ehk =>
    cases hparse : Hashing.parseExplicitHashKey u ehk with
    | error e =>
      simp only [hkey, hparse] at h
      cases h
    | ok hashKey =>
      simp only [hkey, hparse] at h
      exact ⟨hashKey, hparse, (Except.ok.inj h).symm⟩

/-- The shard `put_buffered` routes to, read from the map before its first `await`. -/
def predicted (m : ShardMap.State) (buffered : BufferedRecord) : Option ShardId :=
  if m.state = .ready then ShardMap.predict m buffered.hashKey else none

/-- `_get_or_create_reducer`; `none` where it raises `RuntimeError`. -/
def getOrCreateReducer (cfg : Config) (shardKey : Option ShardId) (a : State) : Option State :=
  match a.reducers.get? shardKey with
  | some _ => some a
  | none =>
    if a.entered then
      some { a with reducers := a.reducers.set shardKey (Reducer.init (cfg.reducer shardKey)) }
    else none

/-- An operation of the Reducer for `shardKey`, and the batch it closed. -/
def onReducer (cfg : Config) (shardKey : Option ShardId) (op : Reducer.Op BufferedRecord)
    (a : State) : Option (State × Option AggregatedBatch) := do
  let r ← a.reducers.get? shardKey
  let (r, closed) ← Reducer.step (cfg.reducer shardKey) r op
  return ({ a with reducers := a.reducers.set shardKey r }, closed)

/-- What an operation does to its Reducer is all it does to the Aggregator. -/
theorem onReducer_eq_some {cfg : Config} {key : Option ShardId} {op : Reducer.Op BufferedRecord}
    {a : State} {out : State × Option AggregatedBatch} (h : onReducer cfg key op a = some out) :
    ∃ r r' closed, a.reducers.get? key = some r ∧
      Reducer.step (cfg.reducer key) r op = some (r', closed) ∧
      out = ({ a with reducers := a.reducers.set key r' }, closed) := by
  simp only [onReducer, Option.bind_eq_bind, Option.bind_eq_some_iff] at h
  obtain ⟨r, hr, ⟨r', closed⟩, hstep, hout⟩ := h
  exact ⟨r, r', closed, hr, hstep, (Option.some.inj hout).symm⟩

/-- `aclose`: the Reducers are forgotten, and what they hold with them. -/
def aclose (a : State) : State := { a with reducers := .empty, closed := true }

/-- `self._tg = None` in `__aexit__`. -/
def leave (a : State) : State := { a with entered := false }

end Aggregator

end Aiokpl
