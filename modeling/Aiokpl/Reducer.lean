import Mathlib.Tactic
import Mathlib.Algebra.Order.Ring.Rat
import Aiokpl.Lib.StableSort

/-!
# The deadline-driven batcher (`aiokpl/reducer.py`)

The `Batch` protocol, the packing loop and the operations of `Reducer`.  Every
operation is the body of one `async with self._lock` block: the body has no
`await` in it, so it runs without interleaving once the lock is held, and the
timer tasks it starts or cancels are part of the state it transforms.

Times are exact rationals.  `Batch.deadline` answers `none` for the source's
`float("inf")` on an empty batch.
-/

namespace Aiokpl

open Lib

/-- Readings of the monotonic clock and deadlines, in seconds. -/
abbrev Time := ℚ

/-- `Batchable`: what an item must carry. -/
class Batchable (I : Type) where
  deadline : I → Time

/-- `Batch`: the container a `Reducer` manages.  `removeLast` is the state change
    of `remove_last`; the item it returns is not used by the `Reducer`. -/
class Batch (I : outParam Type) (B : Type) where
  add : B → I → B
  removeLast : B → B
  items : B → List I
  count : B → Int
  size : B → Int
  deadline : B → Option Time

namespace Reducer

/-! ## State -/

/-- Where a timer task stands: asleep, awake and waiting for the lock in `_fire`,
    or past the lock with a closed batch in hand. -/
inductive Phase
  | sleeping
  | waiting
  | dispatching
  deriving DecidableEq, Repr

/-- A task started by `_reschedule_locked`, named by its `CancelScope`. -/
structure Timer where
  scope : Nat
  armedAt : Time
  delay : Option Time
  cancelled : Bool
  phase : Phase
  deriving DecidableEq, Repr

/-- The constructor arguments of a `Reducer` that its operations read.  A batch
    factory makes empty containers. -/
structure Config (I B : Type) [Batch I B] where
  batchFactory : B
  countLimit : Int
  sizeLimit : Int
  flushPredicate : Option (I → B → Bool) := none
  fresh : Batch.items batchFactory = [] := by rfl

/-- The fields an operation changes.  `timers` are the timer tasks that have not
    ended; `nextScope` names the next fresh `CancelScope`. -/
structure State (B : Type) where
  active : B
  timerScope : Option Nat
  closed : Bool
  timers : List Timer
  nextScope : Nat
  deriving DecidableEq, Repr

variable {I B : Type} [Batch I B]

/-- `Reducer.__init__`. -/
def init (cfg : Config I B) : State B :=
  { active := cfg.batchFactory, timerScope := none, closed := false, timers := [], nextScope := 0 }

/-! ## Timers -/

/-- `CancelScope.cancel` on the task that runs under `scope`. -/
def Timer.cancelIf (scope : Nat) (t : Timer) : Timer :=
  if t.scope = scope then { t with cancelled := true } else t

/-- `_cancel_timer_locked`. -/
def cancelTimerLocked (r : State B) : State B :=
  match r.timerScope with
  | some scope => { r with timers := r.timers.map (Timer.cancelIf scope), timerScope := none }
  | none => r

/-- `max(0.0, active.deadline - self._clock())`. -/
def delayUntil (deadline : Option Time) (now : Time) : Option Time :=
  deadline.map fun d => max 0 (d - now)

/-- `_reschedule_locked`. -/
def rescheduleLocked (now : Time) (r : State B) : State B :=
  let r := cancelTimerLocked r
  if Batch.count r.active = 0 then r
  else
    let timer : Timer :=
      { scope := r.nextScope, armedAt := now, delay := delayUntil (Batch.deadline r.active) now,
        cancelled := false, phase := .sleeping }
    { r with
      timerScope := some r.nextScope
      timers := r.timers ++ [timer]
      nextScope := r.nextScope + 1 }

/-! ## Packing -/

/-- `closed.count > self._count_limit or closed.size > self._size_limit`. -/
def exceeds (cfg : Config I B) (b : B) : Bool :=
  decide (Batch.count b > cfg.countLimit) || decide (Batch.size b > cfg.sizeLimit)

/-- The `for idx, cand in enumerate(candidates)` loop: what went into `closed` and
    what is `remaining`. -/
def packLoop (cfg : Config I B) : B → List I → B × List I
  | closed, [] => (closed, [])
  | closed, cand :: rest =>
    let closed := Batch.add closed cand
    if exceeds cfg closed then
      -- the oversized single item leaves on its own, otherwise the last add is undone
      if Batch.count closed = 1 then (closed, rest)
      else (Batch.removeLast closed, cand :: rest)
    else packLoop cfg closed rest

/-- A fresh batch filled by `add`. -/
def fill (b : B) (xs : List I) : B := xs.foldl Batch.add b

variable [Batchable I]

/-- `_pack_and_split`. -/
def packAndSplit (cfg : Config I B) (now : Time) (r : State B) : State B × B :=
  let r := cancelTimerLocked r
  let candidates := sortBy Batchable.deadline (Batch.items r.active)
  let (closed, remaining) := packLoop cfg cfg.batchFactory candidates
  let r := { r with active := fill cfg.batchFactory remaining }
  let r := if Batch.count r.active > 0 then rescheduleLocked now r else r
  (r, closed)

/-! ## Operations -/

/-- `predicate_hit or limits_hit` in `add`. -/
def mustClose (cfg : Config I B) (item : I) (active : B) : Bool :=
  (match cfg.flushPredicate with
    | some predicate => predicate item active
    | none => false)
  || decide (Batch.count active ≥ cfg.countLimit) || decide (Batch.size active ≥ cfg.sizeLimit)

/-- `Reducer.add`. -/
def add (cfg : Config I B) (now : Time) (item : I) (r : State B) : State B × Option B :=
  let r := { r with active := Batch.add r.active item }
  if mustClose cfg item r.active then
    let (r, closed) := packAndSplit cfg now r
    (r, some closed)
  else (rescheduleLocked now r, none)

/-- `Reducer.flush`. -/
def flush (cfg : Config I B) (now : Time) (r : State B) : State B × Option B :=
  if Batch.count r.active = 0 then (cancelTimerLocked r, none)
  else
    let (r, closed) := packAndSplit cfg now r
    (r, some closed)

/-- `Reducer.aclose`. -/
def aclose (cfg : Config I B) (r : State B) : State B :=
  let r := cancelTimerLocked { r with closed := true }
  { r with active := cfg.batchFactory }

/-- The task under `scope` ends. -/
def endTimer (scope : Nat) (r : State B) : State B :=
  { r with timers := r.timers.filter fun t => t.scope ≠ scope }

/-- The task under `scope` moves to `phase`. -/
def setPhase (scope : Nat) (phase : Phase) (r : State B) : State B :=
  { r with timers := r.timers.map fun t => if t.scope = scope then { t with phase } else t }

/-- `_timer_task` after its sleep: give up when closed, else go for the lock. -/
def wake (scope : Nat) (r : State B) : State B :=
  if r.closed then endTimer scope r else setPhase scope .waiting r

/-- `_fire(scope)` once it holds the lock. -/
def fire (cfg : Config I B) (now : Time) (scope : Nat) (r : State B) : State B × Option B :=
  if r.closed then (endTimer scope r, none)
  else if r.timerScope ≠ some scope then (endTimer scope r, none)
  else
    let r := { r with timerScope := none }
    if Batch.count r.active = 0 then (endTimer scope r, none)
    else
      let (r, closed) := packAndSplit cfg now r
      (setPhase scope .dispatching r, some closed)

end Reducer

end Aiokpl
