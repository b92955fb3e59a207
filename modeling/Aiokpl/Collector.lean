import Mathlib.Tactic
import Aiokpl.ReducerRuns
import Aiokpl.Batches

/-!
# The `PutRecords` collector (`aiokpl/collector.py`)

A single Reducer over aggregated batches, with the limits of a `PutRecords` call
and the per-shard short circuit.
-/

namespace Aiokpl

namespace Collector

/-- The constructor arguments of a `Collector`. -/
structure Config where
  collectionMaxCount : Int := 500
  collectionMaxSize : Int := 5 * 1024 * 1024
  perShardShortCircuitBytes : Int := 256 * 1024

/-- `predicate` in `__aenter__`. -/
def predicate (cfg : Config) (justAdded : AggregatedBatch) (current : PutRecordsBatch) : Bool :=
  decide ((current.perShardBytes justAdded.predictedShard : Int) ≥ cfg.perShardShortCircuitBytes)

/-- The arguments of the Reducer made in `__aenter__`. -/
def Config.reducer (cfg : Config) : Reducer.Config AggregatedBatch PutRecordsBatch :=
  { batchFactory := {}
    countLimit := cfg.collectionMaxCount
    sizeLimit := cfg.collectionMaxSize
    flushPredicate := some (predicate cfg) }

end Collector

end Aiokpl
