import Mathlib.Tactic
import Aiokpl.Lib.Dict
import Aiokpl.Lib.RollingWindow
import Aiokpl.Lib.TransitionSystem
import Aiokpl.Reducer

/-!
# Metrics (`aiokpl/metrics.py`)

Every metric owns a rolling window of buckets, one for each second in which it was
observed; a flush hands what the windows show to the sink.  Values are exact
rationals.  Puts and inspections run between the steps of the upload loop and of
`__aexit__`, and read the clock once for each metric they touch; the export that a
flush waits for is over when the loop sleeps again, or when the exit goes on.
-/

namespace Aiokpl

open Lib

namespace Metrics

/-! ## Windows -/

def windowSeconds : Int := 60

/-- `_Bucket`; also what `stats` returns. -/
structure Bucket where
  count : Nat := 0
  sum : ℚ := 0
  min : WithTop ℚ := ⊤
  max : WithBot ℚ := ⊥
  deriving DecidableEq

def Bucket.add (value : ℚ) (b : Bucket) : Bucket :=
  { count := b.count + 1
    sum := b.sum + value
    min := if (value : WithTop ℚ) < b.min then value else b.min
    max := if (value : WithBot ℚ) > b.max then value else b.max }

/-- One turn of the loop of `stats`. -/
def Bucket.merge (acc b : Bucket) : Bucket :=
  { count := acc.count + b.count
    sum := acc.sum + b.sum
    min := if b.min < acc.min then b.min else acc.min
    max := if b.max > acc.max then b.max else acc.max }

/-- `int(t)`. -/
def toSeconds (t : Time) : Int := if 0 ≤ t then ⌊t⌋ else ⌈t⌉

/-- `_Accumulator`, of a given `window_seconds`: the deque of its buckets. -/
structure Accumulator (window : Int := windowSeconds) where
  buckets : List (Int × Bucket) := []

/-- `now_sec - self._window + 1`. -/
def cutoff (nowSec : Int) (window : Int := windowSeconds) : Int := nowSec - window + 1

variable {window : Int}

def Accumulator.evict (nowSec : Int) (acc : Accumulator window) : Accumulator window :=
  { buckets := RollingWindow.evict (cutoff nowSec window) acc.buckets }

def Accumulator.put (now : Time) (value : ℚ) (acc : Accumulator window) : Accumulator window :=
  let nowSec := toSeconds now
  { buckets := RollingWindow.record {} Bucket.add nowSec value (acc.evict nowSec).buckets }

/-- `stats`, after its eviction. -/
def Accumulator.stats (acc : Accumulator window) : Option Bucket :=
  if acc.buckets = [] then none
  else some ((acc.buckets.map Prod.snd).foldl Bucket.merge {})

def Accumulator.windowBounds (acc : Accumulator window) : Time × Time :=
  match acc.buckets.head?, acc.buckets.getLast? with
  | some first, some last => (first.1, last.1 + 1)
  | _, _ => (0, 0)

/-! ## Metrics and their keys -/

inductive MetricsLevel
  | none
  | summary
  | detailed
  deriving DecidableEq, Repr

structure MetricKey where
  name : String
  stream : Option String := none
  shardId : Option String := none
  errorCode : Option String := none
  deriving DecidableEq, Repr

def MetricKey.dimensions (key : MetricKey) : List (String × String) :=
  (key.stream.toList.map fun v => ("stream", v)) ++
    (key.shardId.toList.map fun v => ("shard", v)) ++
    (key.errorCode.toList.map fun v => ("error_code", v))

structure MetricSnapshot where
  name : String
  count : Nat
  sum : ℚ
  min : WithTop ℚ
  max : WithBot ℚ
  dimensions : List (String × String)
  windowStart : Time
  windowEnd : Time

structure MetricEvent where
  name : String
  value : ℚ
  timestamp : Time
  dimensions : List (String × String)

/-! ## The manager -/

/-- `eventful` is whether the sink is an `EventfulMetricsSink`. -/
structure Config where
  level : MetricsLevel
  uploadIntervalMs : Time := 60000
  eventful : Bool := false

def Config.uploadInterval (cfg : Config) : Time := cfg.uploadIntervalMs / 1000

/-- Where `_upload_loop` stands. -/
inductive Loop
  | sleeping (wakesAt : Time)
  | exporting
  | ended
  deriving DecidableEq, Repr

/-- `__aexit__` has not started, waits for its flush and its task group, or is over. -/
inductive Phase
  | entered
  | exiting
  | exited
  deriving DecidableEq, Repr

/-- A `MetricsManager`, with what its sink has been handed. -/
structure State where
  registry : Dict MetricKey Accumulator := .empty
  loop : Loop
  phase : Phase := .entered
  exports : List (List MetricSnapshot) := []
  recorded : List MetricEvent := []

/-- The key that `put` looks up. -/
def Config.keyOf (cfg : Config) (name : String) (stream shardId errorCode : Option String) :
    MetricKey :=
  match cfg.level with
  | .summary => { name, stream }
  | _ => { name, stream, shardId, errorCode }

/-- `put`; the clock is read once more for the event. -/
def put (cfg : Config) (now stamp : Time) (key : MetricKey) (value : ℚ) (s : State) : State :=
  let metric := (s.registry.get? key).getD {}
  let event : MetricEvent :=
    { name := key.name, value, timestamp := stamp, dimensions := key.dimensions }
  { s with
    registry := s.registry.set key (metric.put now value)
    recorded := if cfg.eventful then s.recorded ++ [event] else s.recorded }

def MetricKey.snapshot (key : MetricKey) (bounds : Time × Time) (st : Bucket) : MetricSnapshot :=
  { name := key.name, count := st.count, sum := st.sum, min := st.min, max := st.max
    dimensions := key.dimensions, windowStart := bounds.1, windowEnd := bounds.2 }

/-- One turn of the loop of `snapshots`. -/
def snapshotOf (key : MetricKey) (acc : Accumulator) : Option MetricSnapshot :=
  acc.stats.map (key.snapshot acc.windowBounds)

/-- What `snapshots` leaves in the registry. -/
def evictAll (clock : MetricKey → Time) (registry : Dict MetricKey Accumulator) :
    Dict MetricKey Accumulator :=
  registry.mapValues fun key acc => acc.evict (toSeconds (clock key))

/-- `snapshot`, of a registry whose windows have been moved. -/
def snapshot (registry : Dict MetricKey Accumulator) : List (MetricKey × Bucket) :=
  registry.entries.filterMap fun e => e.2.stats.map fun st => (e.1, st)

/-- `snapshots`, of a registry whose windows have been moved. -/
def snapshots (registry : Dict MetricKey Accumulator) : List MetricSnapshot :=
  registry.entries.filterMap fun e => snapshotOf e.1 e.2

/-- `flush`, up to the `await` of the export. -/
def flush (cfg : Config) (clock : MetricKey → Time) (s : State) : State :=
  if cfg.level = .none then s
  else
    let registry := evictAll clock s.registry
    let snaps := snapshots registry
    { s with registry, exports := if snaps = [] then s.exports else s.exports ++ [snaps] }

/-! ## The machine -/

/-- What can happen.  `wake` is a turn of the upload loop, up to its export; `asleep` and
    `exportRaises` are how the export ends; `exit` is `__aexit__` up to its export, and
    `exited` its end. -/
inductive Op
  | put (now stamp : Time) (name : String) (value : ℚ) (stream shardId errorCode : Option String)
  | snapshots (clock : MetricKey → Time)
  | flush (clock : MetricKey → Time)
  | wake (now : Time) (clock : MetricKey → Time)
  | asleep (now : Time)
  | exportRaises
  | exit (clock : MetricKey → Time)
  | exited

/-- One step, `none` when it cannot happen in this state. -/
def State.step (cfg : Config) (s : State) : Op → Option State
  | .put now stamp name value stream shardId errorCode =>
    if cfg.level = .none then some s
    else some (Metrics.put cfg now stamp (cfg.keyOf name stream shardId errorCode) value s)
  | .snapshots clock => some { s with registry := evictAll clock s.registry }
  | .flush clock => some (Metrics.flush cfg clock s)
  | .wake now clock =>
    match s.loop with
    | .sleeping wakesAt =>
      if wakesAt ≤ now then some { Metrics.flush cfg clock s with loop := .exporting } else none
    | _ => none
  | .asleep now =>
    match s.loop with
    | .exporting => some { s with loop := .sleeping (now + cfg.uploadInterval) }
    | _ => none
  | .exportRaises =>
    match s.loop with
    | .exporting => some { s with loop := .ended }
    | _ => none
  | .exit clock =>
    match s.phase with
    | .entered => some { Metrics.flush cfg clock s with phase := .exiting }
    | _ => none
  | .exited =>
    match s.phase with
    | .exiting => some { s with phase := .exited, loop := .ended }
    | _ => none

/-- A manager that has been entered. -/
def entered (cfg : Config) (now : Time) : State :=
  { loop := if cfg.level = .none then .ended else .sleeping (now + cfg.uploadInterval) }

end Metrics

end Aiokpl
