import Mathlib.Tactic
import Mathlib.Data.Prod.Lex
import Aiokpl.Lib.StableSort
import Aiokpl.Batches
import Aiokpl.Hashing

/-!
# The cached shard map (`aiokpl/shard_map.py`)

The snapshot of the shard table with its two lookups, the paginated fetch that
builds one, and the state machine `INVALID → UPDATING → READY` around it.  The
lock is only held over bodies without an `await`, so every operation below is
atomic; a refresh loop is a task that waits for a page, for its backoff, or to
install what it fetched.
-/

namespace Aiokpl

open Lib

inductive ShardMapState
  | invalid
  | updating
  | ready
  deriving DecidableEq, Repr

/-- `Shard`.  `_build_shard` refuses a range that starts after its end. -/
structure Shard where
  shardId : ShardId
  rawShardId : String
  startingHashKey : Nat
  endingHashKey : Nat
  ordered : startingHashKey ≤ endingHashKey := by decide
  deriving DecidableEq

/-- `_Snapshot`.  The two tuples are parallel and sorted by ending. -/
structure Snapshot where
  endings : List Nat := []
  shardIds : List ShardId := []
  shards : Dict ShardId Shard := .empty
  aligned : endings.length = shardIds.length := by rfl
  sorted : endings.Pairwise (· ≤ ·) := by decide
  deriving DecidableEq

/-! ## Lookups -/

/-- `bisect.bisect_left` on a sorted tuple. -/
def bisectLeft (endings : List Nat) (hashKey : Nat) : Nat :=
  (endings.takeWhile (· < hashKey)).length

/-- `predict` on a snapshot, once the state is known to be READY. -/
def Snapshot.predict (snap : Snapshot) (hashKey : Nat) : Option ShardId :=
  snap.shardIds[bisectLeft snap.endings hashKey]?

/-- `hashrange`. -/
def Snapshot.hashrange (snap : Snapshot) (shardId : ShardId) : Option (Nat × Nat) :=
  (snap.shards.get? shardId).map fun shard => (shard.startingHashKey, shard.endingHashKey)

/-! ## Fetching -/

/-- One entry of a `ListShards` response; `none` where a key is missing. -/
structure RawShard where
  shardId : Option String
  startingHashKey : Option String
  endingHashKey : Option String
  deriving DecidableEq, Repr

/-- A `ListShards` response. -/
structure ListShardsPage where
  shards : List RawShard := []
  nextToken : Option String := none
  deriving DecidableEq, Repr

/-- `_parse_shard_id`: the pattern `^shardId-(\d+)$`, whose `$` also matches before a
    final newline.  `none` is `ValueError`. -/
def parseShardId (u : DigitClasses) (raw : String) : Option ShardId :=
  let digits := raw.toList.drop "shardId-".length
  let digits := if digits.getLast? = some '\n' then digits.dropLast else digits
  if "shardId-".toList.isPrefixOf raw.toList ∧ digits ≠ [] ∧
      digits.all fun c => (u.decimal c).isSome then
    Hashing.parseInt u digits
  else none

/-- `_parse_hash_key`; `none` is `ValueError`. -/
def parseHashKey (u : DigitClasses) (s : String) : Option Nat :=
  if s = "" ∨ ¬ s.toList.all fun c => '0' ≤ c && c ≤ '9' then none
  else (Hashing.parseInt u s.toList).filter (· ≤ Hashing.uint128Max)

/-- `_build_shard`; `none` where it raises. -/
def buildShard (u : DigitClasses) (raw : RawShard) : Option Shard := do
  let rawId ← raw.shardId
  let shardId ← parseShardId u rawId
  let starting ← raw.startingHashKey
  let startingHashKey ← parseHashKey u starting
  let ending ← raw.endingHashKey
  let endingHashKey ← parseHashKey u ending
  if h : startingHashKey ≤ endingHashKey then
    some { shardId, rawShardId := rawId, startingHashKey, endingHashKey, ordered := h }
  else none

/-- The local variables of `_fetch_all_pages`. -/
structure Fetched where
  endings : List (Nat × ShardId) := []
  shards : Dict ShardId Shard := .empty
  deriving DecidableEq

def Fetched.add (f : Fetched) (shard : Shard) : Fetched :=
  { endings := f.endings ++ [(shard.endingHashKey, shard.shardId)]
    shards := f.shards.set shard.shardId shard }

/-- The `for raw in response.get("Shards", ())` loop; `none` where it raises. -/
def Fetched.addPage (u : DigitClasses) (f : Fetched) (page : ListShardsPage) : Option Fetched :=
  page.shards.foldlM (fun f raw => (buildShard u raw).map f.add) f

/-- `endings.sort()`, on pairs. -/
def sortEndings (endings : List (Nat × ShardId)) : List (Nat × ShardId) :=
  sortBy (fun e => toLex e) endings

theorem sortEndings_sorted (endings : List (Nat × ShardId)) :
    ((sortEndings endings).map Prod.fst).Pairwise (· ≤ ·) := by
  rw [List.pairwise_map]
  refine (sortBy_sorted _ endings).imp fun {a b} hle => ?_
  rcases Prod.Lex.toLex_le_toLex.mp hle with hlt | heq
  · exact hlt.le
  · exact heq.1.le

/-- The snapshot `_fetch_all_pages` returns. -/
def Fetched.snapshot (f : Fetched) : Snapshot where
  endings := (sortEndings f.endings).map Prod.fst
  shardIds := (sortEndings f.endings).map Prod.snd
  shards := f.shards
  aligned := by simp
  sorted := sortEndings_sorted f.endings

/-! ## The state machine -/

namespace ShardMap

/-- The constructor arguments the operations read. -/
structure Config where
  minBackoff : Time := 1
  maxBackoff : Time := 30
  closedShardTtl : Time := 60

/-- Where a refresh loop waits: to start, for the page after those already read, for
    its backoff, or to install what it fetched. -/
inductive RefreshPhase
  | starting
  | fetching (soFar : Fetched)
  | backingOff
  | installing (fetched : Snapshot)
  deriving DecidableEq

/-- A task of `_refresh_loop`, named by its `CancelScope`. -/
structure RefreshTask where
  scope : Nat
  cancelled : Bool := false
  phase : RefreshPhase := .starting
  deriving DecidableEq

/-- A task of `_cleanup_task`. -/
structure CleanupTask where
  scope : Nat
  cancelled : Bool := false
  deriving DecidableEq

/-- The fields of a `ShardMap` and its tasks.  `refreshDone` is the current event:
    its number and whether it is set. -/
structure State where
  state : ShardMapState := .invalid
  snapshot : Snapshot := {}
  closedAt : Dict ShardId Time := .empty
  updatedAt : Option Time := none
  backoff : Time
  refreshDone : Nat × Bool := (0, false)
  refreshInFlight : Bool := false
  cleanupScope : Option Nat := none
  refreshScope : Option Nat := none
  closed : Bool := false
  entered : Bool := false
  refreshes : List RefreshTask := []
  cleanups : List CleanupTask := []
  nextScope : Nat := 0

/-- `ShardMap.__init__`. -/
def init (cfg : Config) : State := { backoff := cfg.minBackoff }

/-- `predict`. -/
def predict (m : State) (hashKey : Nat) : Option ShardId :=
  if m.state = .ready then m.snapshot.predict hashKey else none

/-- `hashrange`. -/
def hashrange (m : State) (shardId : ShardId) : Option (Nat × Nat) := m.snapshot.hashrange shardId

/-- `__aenter__`. -/
def enter (m : State) : State := { m with entered := true }

/-- `_spawn_refresh`, and whether it raised `RuntimeError`. -/
def spawnRefresh (cfg : Config) (m : State) : State × Bool :=
  if m.state = .updating then (m, false)
  else
    let m := { m with
      state := .updating
      backoff := cfg.minBackoff
      refreshDone := (m.refreshDone.1 + 1, false)
      refreshInFlight := true }
    if ¬ m.entered then (m, true)
    else
      ({ m with
        refreshScope := some m.nextScope
        refreshes := m.refreshes ++ [{ scope := m.nextScope }]
        nextScope := m.nextScope + 1 }, false)

/-- `invalidate`. -/
def invalidate (cfg : Config) (seenAt : Time) (predictedShard : Option ShardId) (m : State) :
    State × Bool :=
  if m.closed then (m, false)
  else if m.updatedAt.any (seenAt ≤ ·) then (m, false)
  else if predictedShard.any fun s => (m.snapshot.shards.get? s).isNone then (m, false)
  else spawnRefresh cfg m

/-- `CancelScope.cancel` on the refresh and cleanup tasks under `scope`. -/
def cancelScope (scope : Nat) (m : State) : State :=
  { m with
    refreshes := m.refreshes.map fun t =>
      if t.scope = scope then { t with cancelled := true } else t
    cleanups := m.cleanups.map fun t =>
      if t.scope = scope then { t with cancelled := true } else t }

/-- `aclose`. -/
def aclose (m : State) : State :=
  let m := { m with closed := true }
  let m := match m.cleanupScope with
    | some scope => { cancelScope scope m with cleanupScope := none }
    | none => m
  let m := match m.refreshScope with
    | some scope => { cancelScope scope m with refreshScope := none }
    | none => m
  { m with refreshDone := (m.refreshDone.1, true) }

/-- The refresh task under `scope` moves to `phase`. -/
def setRefresh (scope : Nat) (phase : RefreshPhase) (m : State) : State :=
  { m with refreshes := m.refreshes.map fun t => if t.scope = scope then { t with phase } else t }

/-- The `finally` of `_refresh_loop`, and the end of the task. -/
def endRefresh (scope : Nat) (m : State) : State :=
  { m with
    refreshInFlight := false
    refreshDone := (m.refreshDone.1, true)
    refreshes := m.refreshes.filter fun t => t.scope ≠ scope }

/-- The `except Exception` branch: back off, twice as long the next time. -/
def fetchFailed (cfg : Config) (scope : Nat) (m : State) : State :=
  setRefresh scope .backingOff { m with backoff := min (m.backoff * 2) cfg.maxBackoff }

/-- The fetch under `scope` gets a response, or `none` for an exception. -/
def fetchReply (u : DigitClasses) (cfg : Config) (scope : Nat) (soFar : Fetched)
    (reply : Option ListShardsPage) (m : State) : State :=
  match reply with
  | none => fetchFailed cfg scope m
  | some page =>
    match soFar.addPage u page with
    | none => fetchFailed cfg scope m
    | some fetched =>
      if page.nextToken.any (· ≠ "") then setRefresh scope (.fetching fetched) m
      else setRefresh scope (.installing fetched.snapshot) m

/-- The `while not self._closed` test, when the task starts and after each backoff. -/
def backoffOver (scope : Nat) (m : State) : State :=
  if m.closed then endRefresh scope m else setRefresh scope (.fetching {}) m

/-- One turn of the merge loop of `_install_snapshot`. -/
def mergeClosed (ttl now : Time) (fetched : Dict ShardId Shard)
    (acc : Dict ShardId Time × Dict ShardId Shard) (entry : ShardId × Shard) :
    Dict ShardId Time × Dict ShardId Shard :=
  let (closedAt, merged) := acc
  let (sid, shard) := entry
  if (fetched.get? sid).isSome then (closedAt.erase sid, merged)
  else
    let closedTime := (closedAt.get? sid).getD now
    let closedAt := closedAt.set sid closedTime
    if closedTime + ttl > now then (closedAt, merged.set sid shard) else (closedAt, merged)

/-- `_schedule_cleanup`. -/
def scheduleCleanup (m : State) : State :=
  if m.closed then m
  else
    let m := match m.cleanupScope with
      | some scope => cancelScope scope m
      | none => m
    if ¬ m.entered then m
    else
      { m with
        cleanupScope := some m.nextScope
        cleanups := m.cleanups ++ [{ scope := m.nextScope }]
        nextScope := m.nextScope + 1 }

/-- `_install_snapshot`, then the end of the refresh loop. -/
def install (cfg : Config) (now : Time) (scope : Nat) (fetched : Snapshot) (m : State) : State :=
  let (closedAt, merged) :=
    m.snapshot.shards.entries.foldl (mergeClosed cfg.closedShardTtl now fetched.shards)
      (m.closedAt, fetched.shards)
  let m := scheduleCleanup { m with
    snapshot := { fetched with shards := merged }
    closedAt
    state := .ready
    updatedAt := some now
    backoff := cfg.minBackoff }
  endRefresh scope m

/-- `_cleanup`. -/
def cleanup (cfg : Config) (now : Time) (m : State) : State :=
  let m := { m with cleanupScope := none }
  if m.closed ∨ m.state ≠ .ready then m
  else
    let expired := (m.closedAt.entries.filter fun e => e.2 + cfg.closedShardTtl ≤ now).map Prod.fst
    if expired = [] then m
    else
      { m with
        snapshot := { m.snapshot with shards := expired.foldl Dict.erase m.snapshot.shards }
        closedAt := expired.foldl Dict.erase m.closedAt }

/-- The cleanup task under `scope` ends. -/
def endCleanup (scope : Nat) (m : State) : State :=
  { m with cleanups := m.cleanups.filter fun t => t.scope ≠ scope }

/-! ## Steps -/

/-- What can happen to a shard map. -/
inductive Op
  | enter
  | start
  | invalidate (seenAt : Time) (predictedShard : Option ShardId)
  | begin (scope : Nat)
  | fetchReply (scope : Nat) (reply : Option ListShardsPage)
  | backoffOver (scope : Nat)
  | install (now : Time) (scope : Nat)
  | refreshCancelled (scope : Nat)
  | cleanup (now : Time) (scope : Nat)
  | cleanupCancelled (scope : Nat)
  | aclose

/-- The refresh task under `scope`. -/
def refreshAt (m : State) (scope : Nat) : Option RefreshTask :=
  m.refreshes.find? fun t => t.scope = scope

/-- The cleanup task under `scope`. -/
def cleanupAt (m : State) (scope : Nat) : Option CleanupTask :=
  m.cleanups.find? fun t => t.scope = scope

/-- One operation, `none` when it cannot happen in this state.  `start` is the
    refresh it spawns; it then only waits.  An `invalidate` that waits for the lock
    after its tests is one that does nothing, and a `start`.  Cancelling a task does
    not stop it where it has not yet waited, nor once it has the lock. -/
def step (u : DigitClasses) (cfg : Config) (m : State) : Op → Option State
  | .enter => some (enter m)
  | .start => some (spawnRefresh cfg m).1
  | .invalidate seenAt predictedShard => some (invalidate cfg seenAt predictedShard m).1
  | .begin scope =>
    match refreshAt m scope with
    | some { phase := .starting, .. } => some (backoffOver scope m)
    | _ => none
  | .fetchReply scope reply =>
    match refreshAt m scope with
    | some { phase := .fetching soFar, cancelled := false, .. } =>
      some (fetchReply u cfg scope soFar reply m)
    | _ => none
  | .backoffOver scope =>
    match refreshAt m scope with
    | some { phase := .backingOff, cancelled := false, .. } => some (backoffOver scope m)
    | _ => none
  | .install now scope =>
    match refreshAt m scope with
    | some { phase := .installing fetched, .. } =>
      some (install cfg now scope fetched m)
    | _ => none
  | .refreshCancelled scope =>
    match refreshAt m scope with
    | some { cancelled := true, .. } => some (endRefresh scope m)
    | _ => none
  | .cleanup now scope =>
    match cleanupAt m scope with
    | some { cancelled := false, .. } => some (endCleanup scope (cleanup cfg now m))
    | _ => none
  | .cleanupCancelled scope =>
    match cleanupAt m scope with
    | some { cancelled := true, .. } => some (endCleanup scope m)
    | _ => none
  | .aclose => some (aclose m)

/-- The state after `ShardMap.__init__`. -/
def start (cfg : Config) (m : State) : Prop := m = init cfg

end ShardMap

end Aiokpl
