import Aiokpl.RetrierRefresh
import Aiokpl.ShardMapListing

/-!
# Handling outcomes while the shard map is refreshed

Any number of `Retrier.handle` calls run between the steps of the map, each waiting at
every callback.  `invalidate` is meant to let a divergence pass that was seen before the
snapshot was installed, but it is told the time of the call, not that of the outcome, and so
an outcome from before the snapshot starts another refresh.
-/

namespace Aiokpl

open Lib

namespace ShardMap

/-- The tests of `invalidate`, before it waits for the lock. -/
def invalidates (seenAt : Time) (predictedShard : Option ShardId) (m : State) : Bool :=
  !m.closed && !m.updatedAt.any (seenAt ≤ ·) &&
    !predictedShard.any fun s => (m.snapshot.shards.get? s).isNone

theorem invalidate_eq (cfg : Config) (seenAt : Time) (predictedShard : Option ShardId) (m : State) :
    (invalidate cfg seenAt predictedShard m).1 =
      if invalidates seenAt predictedShard m then (spawnRefresh cfg m).1 else m := by
  unfold invalidate invalidates
  by_cases hclosed : m.closed = true
  · simp [hclosed]
  · by_cases hseen : m.updatedAt.any (seenAt ≤ ·) = true
    · simp [hclosed, hseen]
    · by_cases hunknown : predictedShard.any (fun s => (m.snapshot.shards.get? s).isNone) = true
      · simp [hclosed, hseen, hunknown]
      · simp [hclosed, hseen, hunknown]

/-- Every run of an entered map is one of its histories. -/
theorem exists_history {u : DigitClasses} {cfg : Config} {m : State}
    (h : Reachable (fun m => m = enter (init cfg)) (step u cfg) anyStep m) :
    ∃ history, Reachable (History.start cfg) (History.step u cfg) anyStep history ∧
      history.map = m := by
  induction h with
  | start hstart => exact ⟨_, .start rfl, hstart.symm⟩
  | @next m m' op _ _ hstep ih =>
    rcases ih with ⟨history, hreach, rfl⟩
    have hnext : (history.step u cfg op).map History.map = some m' := by
      unfold History.step
      rw [hstep]
      rfl
    rcases Option.map_eq_some_iff.mp hnext with ⟨history', hhistory, hmap⟩
    exact ⟨history', hreach.next trivial hhistory, hmap⟩

theorem reachable_entered {u : DigitClasses} {cfg : Config} {m : State}
    (h : Reachable (fun m => m = enter (init cfg)) (step u cfg) anyStep m) : m.entered = true := by
  rcases exists_history h with ⟨history, hreach, rfl⟩
  exact (reachable_coherent hreach).entered

end ShardMap

namespace RetrierInterleavings

open Retrier

variable {u : DigitClasses} {cfg : Retrier.Config} {mapCfg : ShardMap.Config}

/-! ## The machine -/

/-- A `handle` call under way: the slots it has not come to, the calls it has still to make
    for the slot it is at, and whether it waits for the lock of the map. -/
structure Handling where
  outcome : SendOutcome
  k : Nat := 0
  n : Nat := 0
  slots : List PerRecordOutcome
  calls : List Call := []
  waiting : Bool := false

/-- `handle` is called. -/
def Handling.begin (cfg : Retrier.Config) (env : Env) (outcome : SendOutcome) : Handling :=
  match outcome.requestError with
  | some (code, message) =>
    { outcome, slots := [], calls := handleRequestError cfg env outcome code message }
  | none => { outcome, slots := outcome.perRecord }

/-- `_handle_per_record` is called for the next slot.  What it raises ends the handling. -/
def Handling.take (u : DigitClasses) (cfg : Retrier.Config) (env : Env) (h : Handling) : Handling :=
  match h.slots with
  | [] => h
  | perRecord :: rest =>
    match handlePerRecord u cfg env h.outcome h.k h.n perRecord with
    | .error _ => { h with slots := [] }
    | .ok calls =>
      { h with k := h.k + 1, n := h.n + perRecord.batch.items.length, slots := rest, calls }

/-- The next call of a handling that does not wait, and those after it. -/
def Handling.next (h : Handling) : Option (Call × List Call) :=
  if h.waiting then none
  else
    match h.calls with
    | [] => none
    | call :: rest => some (call, rest)

/-- The outcome started at or before the installation of the snapshot. -/
def Stale (m : ShardMap.State) (outcome : SendOutcome) : Prop :=
  m.updatedAt.any (outcome.startedAt ≤ ·) = true

instance (m : ShardMap.State) (outcome : SendOutcome) : Decidable (Stale m outcome) :=
  inferInstanceAs (Decidable (_ = true))

instance (m m' : ShardMap.State) : Decidable (RefreshStarted m m') :=
  inferInstanceAs (Decidable (_ ∧ _))

/-- The map, the handlings under way and the last reading of the clock, with the stale
    outcomes for which a refresh was started. -/
structure Run where
  map : ShardMap.State
  handlings : List Handling := []
  clock : Time := 0
  redundant : List SendOutcome := []

/-- The map changes on behalf of an outcome. -/
def Run.effect (run : Run) (outcome : SendOutcome) (map : ShardMap.State) : Run :=
  { run with
    map
    redundant :=
      if RefreshStarted run.map map ∧ Stale run.map outcome then run.redundant ++ [outcome]
      else run.redundant }

/-- The i-th handling goes on. -/
def Run.advance (run : Run) (i : Nat) (h : Handling) (clock : Time) : Run :=
  { run with handlings := run.handlings.set i h, clock }

/-- The reading of the clock that a step of the map takes. -/
def mapReading : ShardMap.Op → Option Time
  | .install now _ => some now
  | .cleanup now _ => some now
  | _ => none

/-- The reading of the clock that a call passes on. -/
def callReading : Call → Option Time
  | .invalidate seenAt _ => some seenAt
  | _ => none

/-- What can happen: a step of the map that no handling asks for; a `handle` call; the next
    slot; the next call, the lock being free; the tests of an `invalidate` that then waits for
    the lock; and the refresh it asks for when it has the lock. -/
inductive Op
  | map (op : ShardMap.Op)
  | begin (env : Env) (outcome : SendOutcome)
  | take (i : Nat) (env : Env)
  | call (i : Nat)
  | queue (i : Nat)
  | locked (i : Nat)

/-- One step, `none` when it cannot happen.  The clock does not go back. -/
def Run.step (u : DigitClasses) (cfg : Retrier.Config) (mapCfg : ShardMap.Config) (run : Run) :
    Op → Option Run
  | .map op =>
    if (mapReading op).any (· < run.clock) then none
    else
      (ShardMap.step u mapCfg run.map op).map fun map =>
        { run with map, clock := (mapReading op).getD run.clock }
  | .begin env outcome =>
    some { run with handlings := run.handlings ++ [Handling.begin cfg env outcome] }
  | .take i env => do
    let h ← run.handlings[i]?
    if h.waiting ∨ h.calls ≠ [] then none
    else
      some (run.advance i
        (h.take u cfg { env with hashrange := fun _ => ShardMap.hashrange run.map }) run.clock)
  | .call i => do
    let h ← run.handlings[i]?
    let (call, rest) ← h.next
    if (callReading call).any (· < run.clock) then none
    else
      some ((run.effect h.outcome (applyCall mapCfg run.map call)).advance i
        { h with calls := rest } ((callReading call).getD run.clock))
  | .queue i => do
    let h ← run.handlings[i]?
    match h.next with
    | some (.invalidate seenAt shard, rest) =>
      if seenAt < run.clock then none
      else
        some (run.advance i
          { h with calls := rest, waiting := ShardMap.invalidates seenAt shard run.map } seenAt)
    | _ => none
  | .locked i => do
    let h ← run.handlings[i]?
    if h.waiting then
      some ((run.effect h.outcome (ShardMap.spawnRefresh mapCfg run.map).1).advance i
        { h with waiting := false } run.clock)
    else none

/-- A map that has been entered, and nothing handled yet. -/
def Run.start (mapCfg : ShardMap.Config) (run : Run) : Prop :=
  run = { map := ShardMap.enter (ShardMap.init mapCfg) }

/-! ## The condition -/

/-- The call starts no refresh for a stale outcome: where it invalidates, the map is closed
    or being refreshed, or the clock has not moved since the installation, or the snapshot
    does not know the shard. -/
def Spared (m : ShardMap.State) (outcome : SendOutcome) : Call → Prop
  | .invalidate seenAt shard => Stale m outcome →
      m.closed = true ∨ m.state = .updating ∨ m.updatedAt.any (seenAt ≤ ·) = true ∨
        (shard.any fun s => (m.snapshot.shards.get? s).isNone) = true
  | _ => True

instance (m : ShardMap.State) (outcome : SendOutcome) (call : Call) :
    Decidable (Spared m outcome call) := by
  cases call <;> unfold Spared <;> infer_instance

/-- No handling of a stale outcome gets to `_spawn_refresh` while the map is READY. -/
def sparesMap (run : Run) : Op → Prop
  | .call i => ∀ h ∈ run.handlings[i]?, ∀ next ∈ h.next, Spared run.map h.outcome next.1
  | .locked i => ∀ h ∈ run.handlings[i]?, Stale run.map h.outcome → run.map.state = .updating
  | _ => True

instance (run : Run) (op : Op) : Decidable (sparesMap run op) := by
  cases op <;> unfold sparesMap <;> infer_instance

/-! ## What a step asks of the map -/

theorem refreshStarted_spawn_iff {m : ShardMap.State} (hentered : m.entered = true) :
    RefreshStarted m (ShardMap.spawnRefresh mapCfg m).1 ↔ m.state ≠ .updating := by
  by_cases hstate : m.state = .updating
  · have hsame : (ShardMap.spawnRefresh mapCfg m).1 = m := by
      rw [ShardMap.spawnRefresh, if_pos hstate]
    rw [hsame]
    refine iff_of_false ?_ (not_not.mpr hstate)
    rintro ⟨_, hlength⟩
    exact Nat.succ_ne_self _ hlength.symm
  · refine iff_of_true ⟨ShardMap.spawnRefresh_state m, ?_⟩ hstate
    simp [ShardMap.spawnRefresh, hstate, hentered]

theorem not_refreshStarted_self (m : ShardMap.State) : ¬ RefreshStarted m m := by
  rintro ⟨_, hlength⟩
  exact Nat.succ_ne_self _ hlength.symm

/-- A call starts a refresh if it invalidates an open map that is not being refreshed, after
    the installation, for a shard of the snapshot. -/
theorem refreshStarted_call_iff {m : ShardMap.State} (hentered : m.entered = true)
    (outcome : SendOutcome) (call : Call) :
    (RefreshStarted m (applyCall mapCfg m call) ∧ Stale m outcome) ↔ ¬ Spared m outcome call := by
  cases call with
  | onFinish buffered result =>
    refine iff_of_false ?_ (not_not.mpr trivial)
    exact fun h => not_refreshStarted_self m h.1
  | onRetry buffered =>
    refine iff_of_false ?_ (not_not.mpr trivial)
    exact fun h => not_refreshStarted_self m h.1
  | invalidate seenAt shard =>
    have hstarted : RefreshStarted m (applyCall mapCfg m (.invalidate seenAt shard)) ↔
        ShardMap.invalidates seenAt shard m = true ∧ m.state ≠ .updating := by
      rw [applyCall, ShardMap.invalidate_eq]
      split
      · rename_i htests
        rw [refreshStarted_spawn_iff hentered]
        exact (and_iff_right htests).symm
      · rename_i htests
        exact iff_of_false (not_refreshStarted_self m) fun h => htests h.1
    rw [hstarted, Spared, ShardMap.invalidates, Bool.and_eq_true, Bool.and_eq_true,
      Bool.not_eq_true', Bool.not_eq_true', Bool.not_eq_true']
    constructor
    · rintro ⟨⟨⟨⟨hopen, hseen⟩, hknown⟩, hstate⟩, hstale⟩ hspared
      rcases hspared hstale with hclosed | hupdating | hearly | hunknown
      · rw [hopen] at hclosed
        cases hclosed
      · exact hstate hupdating
      · rw [hseen] at hearly
        cases hearly
      · rw [hknown] at hunknown
        cases hunknown
    · intro hnot
      rw [Classical.not_imp, not_or, not_or, not_or, Bool.not_eq_true, Bool.not_eq_true,
        Bool.not_eq_true] at hnot
      rcases hnot with ⟨hstale, hopen, hstate, hseen, hknown⟩
      exact ⟨⟨⟨⟨hopen, hseen⟩, hknown⟩, hstate⟩, hstale⟩

/-! ## What a step does -/

/-- The ways a step can go. -/
inductive StepTo (u : DigitClasses) (cfg : Retrier.Config) (mapCfg : ShardMap.Config) (run : Run) :
    Op → Run → Prop
  | map {op : ShardMap.Op} {map : ShardMap.State} {clock : Time} :
      ShardMap.step u mapCfg run.map op = some map →
      StepTo u cfg mapCfg run (.map op) { run with map, clock }
  | begin {env : Env} {outcome : SendOutcome} :
      StepTo u cfg mapCfg run (.begin env outcome)
        { run with handlings := run.handlings ++ [Handling.begin cfg env outcome] }
  | take {i : Nat} {env : Env} {h : Handling} {clock : Time} :
      run.handlings[i]? = some h →
      StepTo u cfg mapCfg run (.take i env) (run.advance i
        (h.take u cfg { env with hashrange := fun _ => ShardMap.hashrange run.map }) clock)
  | call {i : Nat} {h : Handling} {call : Call} {rest : List Call} {clock : Time} :
      run.handlings[i]? = some h → h.next = some (call, rest) →
      StepTo u cfg mapCfg run (.call i)
        ((run.effect h.outcome (applyCall mapCfg run.map call)).advance i { h with calls := rest }
          clock)
  | queue {i : Nat} {h : Handling} {call : Call} {rest : List Call} {waiting : Bool}
      {clock : Time} :
      run.handlings[i]? = some h → h.next = some (call, rest) →
      StepTo u cfg mapCfg run (.queue i) (run.advance i { h with calls := rest, waiting } clock)
  | locked {i : Nat} {h : Handling} {clock : Time} :
      run.handlings[i]? = some h →
      StepTo u cfg mapCfg run (.locked i)
        ((run.effect h.outcome (ShardMap.spawnRefresh mapCfg run.map).1).advance i
          { h with waiting := false } clock)

theorem step_to {run run' : Run} {op : Op} (h : run.step u cfg mapCfg op = some run') :
    StepTo u cfg mapCfg run op run' := by
  cases op with
  | map op =>
    rw [Run.step, Option.ite_none_left_eq_some] at h
    rcases Option.map_eq_some_iff.mp h.2 with ⟨m, hm, rfl⟩
    exact .map hm
  | begin env outcome =>
    obtain rfl := Option.some.inj h
    exact .begin
  | take i env =>
    rcases Option.bind_eq_some_iff.mp h with ⟨handling, hget, hrest⟩
    rw [Option.ite_none_left_eq_some] at hrest
    obtain rfl := Option.some.inj hrest.2
    exact .take hget
  | call i =>
    rcases Option.bind_eq_some_iff.mp h with ⟨handling, hget, hrest⟩
    rcases Option.bind_eq_some_iff.mp hrest with ⟨⟨call, rest⟩, hnext, hlast⟩
    rw [Option.ite_none_left_eq_some] at hlast
    obtain rfl := Option.some.inj hlast.2
    exact .call hget hnext
  | queue i =>
    rcases Option.bind_eq_some_iff.mp h with ⟨handling, hget, hrest⟩
    split at hrest
    · rename_i hnext
      rw [Option.ite_none_left_eq_some] at hrest
      obtain rfl := Option.some.inj hrest.2
      exact .queue hget hnext
    · cases hrest
  | locked i =>
    rcases Option.bind_eq_some_iff.mp h with ⟨handling, hget, hrest⟩
    rw [Option.ite_none_right_eq_some] at hrest
    obtain rfl := Option.some.inj hrest.2
    exact .locked hget

/-! ## Invariants -/

theorem applyCall_step (m : ShardMap.State) (call : Call) :
    applyCall mapCfg m call = m ∨
      ∃ op, ShardMap.step u mapCfg m op = some (applyCall mapCfg m call) := by
  cases call with
  | onFinish buffered result => exact Or.inl rfl
  | onRetry buffered => exact Or.inl rfl
  | invalidate seenAt shard => exact Or.inr ⟨.invalidate seenAt shard, rfl⟩

/-- What the handlings do to the map, the map can do by itself. -/
theorem Run.map_reachable {ok : Run → Op → Prop} {run : Run}
    (h : Reachable (Run.start mapCfg) (Run.step u cfg mapCfg) ok run) :
    Reachable (fun m => m = ShardMap.enter (ShardMap.init mapCfg)) (ShardMap.step u mapCfg) anyStep
      run.map := by
  apply h.invariant
  · rintro _ rfl
    exact .start rfl
  · intro run op run' ih _ hstep
    cases step_to hstep with
    | map hmap => exact ih.next trivial hmap
    | begin => exact ih
    | take _ => exact ih
    | @call i handling call rest clock _ _ =>
      change Reachable _ _ _ (applyCall mapCfg run.map call)
      rcases applyCall_step (u := u) run.map call with hsame | ⟨op, hop⟩
      · rw [hsame]
        exact ih
      · exact ih.next trivial hop
    | queue _ _ => exact ih
    | locked _ =>
      have hspawn : ShardMap.step u mapCfg run.map .start =
        some (ShardMap.spawnRefresh mapCfg run.map).1 := rfl
      exact ih.next trivial hspawn

/-- In a state of a run, a step leaves the log empty exactly when it spares the map. -/
theorem step_redundant_iff {run run' : Run} {op : Op} (hentered : run.map.entered = true)
    (hnone : run.redundant = []) (h : run.step u cfg mapCfg op = some run') :
    run'.redundant = [] ↔ sparesMap run op := by
  have hlog : ∀ outcome m, (run.effect outcome m).redundant = [] ↔
      ¬ (RefreshStarted run.map m ∧ Stale run.map outcome) := by
    intro outcome m
    rw [Run.effect]
    dsimp only
    split
    · rename_i hredundant
      refine iff_of_false ?_ (not_not.mpr hredundant)
      exact List.append_ne_nil_of_right_ne_nil _ (List.cons_ne_nil _ _)
    · rename_i hspared
      exact iff_of_true hnone hspared
  cases step_to h with
  | map _ => exact iff_of_true hnone trivial
  | begin => exact iff_of_true hnone trivial
  | take _ => exact iff_of_true hnone trivial
  | queue _ _ => exact iff_of_true hnone trivial
  | @call i handling call rest clock hget hnext =>
    change (run.effect handling.outcome _).redundant = [] ↔ _
    rw [hlog, refreshStarted_call_iff hentered, not_not, sparesMap]
    constructor
    · intro hspared handling' hget' next hnext'
      rw [hget] at hget'
      obtain rfl := Option.some.inj hget'
      rw [hnext] at hnext'
      obtain rfl := Option.some.inj hnext'
      exact hspared
    · intro hall
      exact hall handling hget (call, rest) hnext
  | @locked i handling clock hget =>
    change (run.effect handling.outcome _).redundant = [] ↔ _
    rw [hlog, refreshStarted_spawn_iff hentered, sparesMap]
    constructor
    · intro hspared handling' hget' hstale
      rw [hget] at hget'
      obtain rfl := Option.some.inj hget'
      by_contra hready
      exact hspared ⟨hready, hstale⟩
    · rintro hall ⟨hready, hstale⟩
      exact hready (hall handling hget hstale)

/-! ## The calls are of mismatching slots -/

/-- An invalidation that a slot asks for is of the shard it landed on, not of the one
    predicted. -/
theorem misrouted_of_invalidate {env : Env} {outcome : SendOutcome} {k n : Nat}
    {perRecord : PerRecordOutcome} {calls : List Call} {seenAt : Time} {shard : Option ShardId}
    (hcalls : handlePerRecord u cfg env outcome k n perRecord = .ok calls)
    (hmem : .invalidate seenAt shard ∈ calls) :
    ∃ actual, shard = some actual ∧ Misrouted u perRecord actual := by
  have hfinish : .invalidate seenAt shard ∉
      perRecord.batch.items.map (finishSuccess outcome · perRecord) := by
    intro h
    rcases List.mem_map.mp h with ⟨b, _, hb⟩
    cases hb
  by_cases hsuccess : perRecord.success = true
  · simp only [handlePerRecord, hsuccess, if_true, handleSuccess, bind, Except.bind, pure,
      Except.pure] at hcalls
    cases hactual : parseActualShardId u perRecord.shardId with
    | error e =>
      rw [hactual] at hcalls
      cases hcalls
    | ok actual =>
      rw [hactual] at hcalls
      dsimp only at hcalls
      split at hcalls
      · rename_i predicted actualInt hpredicted
        split at hcalls
        · obtain rfl := Except.ok.inj hcalls
          exact absurd hmem hfinish
        · rename_i hne
          refine ⟨actualInt, ?_, hsuccess, hactual, predicted, hpredicted, hne⟩
          have hjudge := judgeEach_ne_invalidate env (judgeMismatch_ne_invalidate cfg outcome
            perRecord (env.hashrange k actualInt)) n perRecord.batch.items
          split at hcalls
          · obtain rfl := Except.ok.inj hcalls
            cases hmem
          · rename_i first rest hall
            obtain rfl := Except.ok.inj hcalls
            rw [hall] at hjudge
            rcases List.mem_cons.mp hmem with hfirst | hlater
            · exact absurd hfirst.symm (hjudge first List.mem_cons_self seenAt shard)
            · rcases List.mem_cons.mp hlater with hsame | hrest
              · cases hsame
                rfl
              · exact absurd rfl (hjudge _ (List.mem_cons_of_mem _ hrest) seenAt shard)
      · obtain rfl := Except.ok.inj hcalls
        exact absurd hmem hfinish
  · simp only [handlePerRecord, hsuccess, if_false, Bool.false_eq_true] at hcalls
    obtain rfl := Except.ok.inj hcalls
    exact absurd rfl (judgeEach_ne_invalidate env
      (fun b now => judgeFailure_ne_invalidate cfg outcome b _ _ now) n _ _ hmem seenAt shard)

/-- What a handling has still to do comes from the slots of its outcome. -/
structure Handling.Faithful (u : DigitClasses) (h : Handling) : Prop where
  slots : ∀ perRecord ∈ h.slots, perRecord ∈ h.outcome.perRecord
  calls : ∀ seenAt shard, Call.invalidate seenAt shard ∈ h.calls →
    ∃ perRecord ∈ h.outcome.perRecord, ∃ actual, shard = some actual ∧ Misrouted u perRecord actual

theorem Handling.begin_faithful (env : Env) (outcome : SendOutcome) :
    (Handling.begin cfg env outcome).Faithful u := by
  unfold Handling.begin
  split
  · refine ⟨fun perRecord hmem => absurd hmem List.not_mem_nil, fun seenAt shard hmem => ?_⟩
    exact absurd rfl (judgeEach_ne_invalidate env
      (fun b now => judgeFailure_ne_invalidate cfg outcome b _ _ now) 0 _ _ hmem seenAt shard)
  · exact ⟨fun perRecord hmem => hmem, fun seenAt shard hmem => absurd hmem List.not_mem_nil⟩

theorem Handling.Faithful.take {h : Handling} (hinv : h.Faithful u) (env : Env) :
    (h.take u cfg env).Faithful u := by
  unfold Handling.take
  split
  · exact hinv
  · rename_i perRecord rest hslots
    have hhead : perRecord ∈ h.slots := hslots ▸ List.mem_cons_self
    have hrest : ∀ s ∈ rest, s ∈ h.slots := fun s hs => hslots ▸ List.mem_cons_of_mem _ hs
    split
    · exact ⟨fun s hs => absurd hs List.not_mem_nil, hinv.calls⟩
    · rename_i calls hcalls
      refine ⟨fun s hs => hinv.slots s (hrest s hs), fun seenAt shard hmem => ?_⟩
      exact ⟨perRecord, hinv.slots _ hhead, misrouted_of_invalidate hcalls hmem⟩

theorem Handling.Faithful.drop {h : Handling} (hinv : h.Faithful u) {call : Call}
    {rest : List Call} (hnext : h.next = some (call, rest)) (waiting : Bool) :
    Handling.Faithful u { h with calls := rest, waiting } := by
  refine ⟨hinv.slots, fun seenAt shard hmem => hinv.calls seenAt shard ?_⟩
  rw [Handling.next, Option.ite_none_left_eq_some] at hnext
  cases hcalls : h.calls with
  | nil =>
    rw [hcalls] at hnext
    cases hnext.2
  | cons call' rest' =>
    rw [hcalls] at hnext
    cases hnext.2
    exact List.mem_cons_of_mem _ hmem

theorem set_faithful {handlings : List Handling} (hinv : ∀ h ∈ handlings, h.Faithful u) (i : Nat)
    {h : Handling} (hh : h.Faithful u) : ∀ h' ∈ handlings.set i h, h'.Faithful u := by
  intro h' hmem
  rcases List.mem_or_eq_of_mem_set hmem with hold | rfl
  · exact hinv h' hold
  · exact hh

theorem Run.faithful {ok : Run → Op → Prop} {run : Run}
    (h : Reachable (Run.start mapCfg) (Run.step u cfg mapCfg) ok run) :
    ∀ handling ∈ run.handlings, handling.Faithful u := by
  apply h.invariant
  · rintro _ rfl handling hmem
    cases hmem
  · intro run op run' ih _ hstep
    cases step_to hstep with
    | map _ => exact ih
    | begin =>
      intro handling hmem
      rcases List.mem_append.mp hmem with hold | hnew
      · exact ih handling hold
      · rw [List.mem_singleton.mp hnew]
        exact Handling.begin_faithful _ _
    | take hget => exact set_faithful ih _ ((ih _ (List.mem_of_getElem? hget)).take _)
    | call hget hnext =>
      exact set_faithful ih _ ((ih _ (List.mem_of_getElem? hget)).drop hnext _)
    | queue hget hnext =>
      exact set_faithful ih _ ((ih _ (List.mem_of_getElem? hget)).drop hnext _)
    | @locked i handling clock hget =>
      have hold := ih handling (List.mem_of_getElem? hget)
      exact set_faithful ih i ⟨hold.slots, hold.calls⟩

/-- **No redundant refresh.**  In every run whose handlings all spare the map, no refresh is
    started for an outcome that started at or before the installation of the snapshot.
    Every invalidation of a run is of a slot that landed elsewhere than predicted, and from
    every state of such a run a step starts such a refresh exactly when it does not spare
    the map. -/
theorem no_redundant_refresh_iff {run : Run}
    (h : Reachable (Run.start mapCfg) (Run.step u cfg mapCfg) sparesMap run) :
    run.redundant = [] ∧
      (∀ handling ∈ run.handlings, ∀ seenAt shard, .invalidate seenAt shard ∈ handling.calls →
        ∃ perRecord ∈ handling.outcome.perRecord, ∃ actual,
          shard = some actual ∧ Misrouted u perRecord actual) ∧
      ∀ op run', run.step u cfg mapCfg op = some run' →
        (run'.redundant = [] ↔ sparesMap run op) := by
  have hnone : run.redundant = [] := by
    induction h with
    | start hstart =>
      obtain rfl := hstart
      rfl
    | next hreach hspares hstep ih =>
      exact (step_redundant_iff (ShardMap.reachable_entered (Run.map_reachable hreach)) ih
        hstep).mpr hspares
  refine ⟨hnone, fun handling hmem => (Run.faithful h handling hmem).calls, fun op run' hstep => ?_⟩
  exact step_redundant_iff (ShardMap.reachable_entered (Run.map_reachable h)) hnone hstep

/-! ## A child that the snapshot already knows -/

/-- The halves are installed at 1 and, the lower one split, the three shards at 10. -/
def splitRefresh : List Op :=
  [.map .start, .map (.begin 0), .map (.fetchReply 0 (some halvesPage)), .map (.install 1 0),
    .map (.invalidate 6 none), .map (.begin 2)] ++
    (ShardMap.splitPages.map fun page => .map (.fetchReply 2 (some page))) ++ [.map (.install 10 2)]

/-- A record predicted for the lower half, sent at 5, that landed on a child of it. -/
def sentBeforeSplit : SendOutcome := { landedOn "shardId-2" with startedAt := 5, endedAt := 9 }

/-- Handled while a further refresh is under way, the outcome asks for no other. -/
theorem no_redundant_refresh_iff_updating :
    ∃ run, Reachable (Run.start {}) (Run.step .asciiOnly {} {}) sparesMap run ∧
      Stale run.map sentBeforeSplit ∧ run.map.state = .updating ∧ run.map.refreshes.length = 1 ∧
      run.redundant = [] := by
  have hrun : (exec (Run.step .asciiOnly {} {}) sparesMap
      { map := ShardMap.enter (ShardMap.init {}) } (splitRefresh ++ [.map (.invalidate 15 none),
        .begin lateEnv sentBeforeSplit, .take 0 lateEnv, .call 0, .call 0])).map
      (fun run => (decide (Stale run.map sentBeforeSplit),
        (run.map.state, run.map.refreshes.length))) = some (true, (.updating, 1)) := by
    decide +kernel
  rcases Option.map_eq_some_iff.mp hrun with ⟨run, hexec, hout⟩
  rcases Prod.mk.inj hout with ⟨hstale, hmap⟩
  rcases Prod.mk.inj hmap with ⟨hstate, hone⟩
  have hreach : Reachable (Run.start {}) (Run.step .asciiOnly {} {}) sparesMap run :=
    Reachable.exec (.start rfl) hexec
  exact ⟨run, hreach, of_decide_eq_true hstale, hstate, hone, (no_redundant_refresh_iff hreach).1⟩

/-- Handled at 20 on the map that is READY since 10, it starts a third refresh. -/
theorem not_every_refresh_needed :
    ¬ ∀ (u : DigitClasses) (cfg : Retrier.Config) (mapCfg : ShardMap.Config) (run : Run),
      Reachable (Run.start mapCfg) (Run.step u cfg mapCfg) anyStep run → run.redundant = [] := by
  intro hneeded
  have hrun : (exec (Run.step .asciiOnly {} {}) anyStep
      { map := ShardMap.enter (ShardMap.init {}) } (splitRefresh ++ [
        .begin lateEnv sentBeforeSplit, .take 0 lateEnv, .call 0, .call 0])).map
      (fun run => run.redundant.length) = some 1 := by
    decide +kernel
  rcases Option.map_eq_some_iff.mp hrun with ⟨run, hexec, hlength⟩
  have hnone := hneeded .asciiOnly {} {} run (Reachable.exec (.start rfl) hexec)
  rw [hnone] at hlength
  cases hlength

end RetrierInterleavings

end Aiokpl
