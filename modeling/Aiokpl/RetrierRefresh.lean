import Mathlib.Tactic
import Aiokpl.ShardMapRuns
import Aiokpl.Retrier

/-!
# Does a misrouted record refresh the shard map?

The Retrier composed with the map it consults: ranges are looked up in the map,
and its `invalidate` calls act on it.  `_handle_success` passes the *actual*
shard to `invalidate`, which ignores a shard that is no key of the snapshot.
So a refresh starts exactly when one of the shards that records really landed
on is already in the cached table.
-/

namespace Aiokpl

open Lib

namespace ShardMap

/-! ## `invalidate` on an open map -/

variable {cfg : Config}

/-- The early returns of `invalidate`: on an open map, and past `updated_at`, a
    refresh is started just for a shard of the snapshot. -/
theorem invalidate_state {m : State} {seenAt : Time} {shard : ShardId} (hopen : m.closed = false)
    (hlater : ∀ t, m.updatedAt = some t → t < seenAt) :
    (invalidate cfg seenAt (some shard) m).1 =
      if (m.snapshot.shards.get? shard).isSome then (spawnRefresh cfg m).1 else m := by
  have hnot : ¬ m.updatedAt.any (fun t => decide (seenAt ≤ t)) = true := by
    cases hupdated : m.updatedAt with
    | none => simp
    | some t => simpa using hlater t hupdated
  unfold invalidate
  rw [if_neg (by simp [hopen]), if_neg hnot]
  cases hget : m.snapshot.shards.get? shard <;> simp [hget]

end ShardMap

namespace Retrier

/-! ## The composition -/

/-- The effect of the Retrier's calls on the shard map. -/
def applyCall (mapCfg : ShardMap.Config) (m : ShardMap.State) : Call → ShardMap.State
  | .invalidate seenAt shard => (ShardMap.invalidate mapCfg seenAt shard m).1
  | _ => m

/-- The loop of `handle` over the slots, on the map it consults and invalidates. -/
def handleSlotsOn (u : DigitClasses) (cfg : Config) (mapCfg : ShardMap.Config) (env : Env)
    (outcome : SendOutcome) : (k n : Nat) → List PerRecordOutcome → ShardMap.State → ShardMap.State
  | _, _, [], m => m
  | k, n, perRecord :: rest, m =>
    match handlePerRecord u cfg { env with hashrange := fun _ => ShardMap.hashrange m } outcome k n
        perRecord with
    | .error _ => m
    | .ok calls =>
      handleSlotsOn u cfg mapCfg env outcome (k + 1) (n + perRecord.batch.items.length) rest
        (calls.foldl (applyCall mapCfg) m)

/-- `Retrier.handle` on the shard map. -/
def handleOn (u : DigitClasses) (cfg : Config) (mapCfg : ShardMap.Config) (env : Env)
    (outcome : SendOutcome) (m : ShardMap.State) : ShardMap.State :=
  match outcome.requestError with
  | some (code, message) =>
    (handleRequestError cfg env outcome code message).foldl (applyCall mapCfg) m
  | none => handleSlotsOn u cfg mapCfg env outcome 0 0 outcome.perRecord m

/-- The slot reports success on another shard than was predicted for its batch. -/
def Misrouted (u : DigitClasses) (perRecord : PerRecordOutcome) (actual : ShardId) : Prop :=
  perRecord.success = true ∧ parseActualShardId u perRecord.shardId = .ok (some actual) ∧
    ∃ predicted, perRecord.batch.predictedShard = some predicted ∧ predicted ≠ actual

/-- `handle` gets past this slot. -/
def passes (u : DigitClasses) (perRecord : PerRecordOutcome) : Bool :=
  !perRecord.success ||
    match parseActualShardId u perRecord.shardId with
    | .ok _ => true
    | .error _ => false

/-- Calls that leave the map alone. -/
theorem foldl_applyCall_of_callbacks (mapCfg : ShardMap.Config) (m : ShardMap.State) :
    ∀ calls : List Call, (∀ call ∈ calls, ∀ t s, call ≠ .invalidate t s) →
      calls.foldl (applyCall mapCfg) m = m
  | [], _ => rfl
  | call :: calls, h => by
    have hsame : applyCall mapCfg m call = m := by
      cases call with
      | invalidate t s => exact absurd rfl (h _ (by simp) t s)
      | _ => rfl
    rw [List.foldl_cons, hsame]
    exact foldl_applyCall_of_callbacks mapCfg m calls fun call' h' => h call' (by simp [h'])

theorem retryNotExpired_ne_invalidate (cfg : Config) (outcome : SendOutcome) (b : BufferedRecord)
    (code message : String) (now t : Time) (s : Option ShardId) :
    retryNotExpired cfg outcome b code message now ≠ .invalidate t s := by
  unfold retryNotExpired
  dsimp only
  split <;> simp

theorem judgeFailure_ne_invalidate (cfg : Config) (outcome : SendOutcome) (b : BufferedRecord)
    (code message : String) (now t : Time) (s : Option ShardId) :
    judgeFailure cfg outcome b code message now ≠ .invalidate t s := by
  unfold judgeFailure
  split
  · simp [fail]
  · exact retryNotExpired_ne_invalidate cfg outcome b code message now t s

theorem judgeMismatch_ne_invalidate (cfg : Config) (outcome : SendOutcome)
    (perRecord : PerRecordOutcome) (range : Option (Nat × Nat)) (b : BufferedRecord)
    (now t : Time) (s : Option ShardId) :
    judgeMismatch cfg outcome perRecord range b now ≠ .invalidate t s := by
  unfold judgeMismatch
  split
  · simp [finishSuccess]
  · exact retryNotExpired_ne_invalidate cfg outcome b _ _ now t s

theorem judgeEach_ne_invalidate (env : Env) {judge : BufferedRecord → Time → Call}
    (h : ∀ b now t s, judge b now ≠ .invalidate t s) :
    ∀ (n : Nat) (bs : List BufferedRecord), ∀ call ∈ judgeEach env judge n bs,
      ∀ t s, call ≠ .invalidate t s
  | _, [], call, hcall => by simp [judgeEach] at hcall
  | n, b :: bs, call, hcall => by
    rcases List.mem_cons.mp hcall with rfl | htail
    · exact h b _
    · exact judgeEach_ne_invalidate env h (n + 1) bs call htail

/-- **What one slot does to the map.**  It invalidates the actual shard once when
    it is misrouted and has a record in it, and else leaves the map alone. -/
theorem handlePerRecord_map (u : DigitClasses) (cfg : Config) (mapCfg : ShardMap.Config)
    (env : Env) (outcome : SendOutcome) (k n : Nat) {perRecord : PerRecordOutcome}
    (hpass : passes u perRecord = true) (m : ShardMap.State) :
    ∃ calls, handlePerRecord u cfg env outcome k n perRecord = .ok calls ∧
      ((∃ actual, Misrouted u perRecord actual ∧ perRecord.batch.items ≠ [] ∧
          calls.foldl (applyCall mapCfg) m =
            (ShardMap.invalidate mapCfg (env.seenAt k) (some actual) m).1) ∨
        ((∀ actual, Misrouted u perRecord actual → perRecord.batch.items = []) ∧
          calls.foldl (applyCall mapCfg) m = m)) := by
  by_cases hsuccess : perRecord.success = true
  · simp only [handlePerRecord, hsuccess, if_true]
    cases hactual : parseActualShardId u perRecord.shardId with
    | error e => simp [passes, hsuccess, hactual] at hpass
    | ok actual =>
      have hfinish : ∀ call ∈ perRecord.batch.items.map (finishSuccess outcome · perRecord),
          ∀ t s, call ≠ .invalidate t s := by
        intro call hcall t s
        obtain ⟨b, _, rfl⟩ := List.mem_map.mp hcall
        simp [finishSuccess]
      simp only [handleSuccess, hactual, bind, Except.bind, pure, Except.pure]
      rcases hpredicted : perRecord.batch.predictedShard with _ | predicted
      · refine ⟨_, rfl, Or.inr ⟨?_, foldl_applyCall_of_callbacks mapCfg m _ hfinish⟩⟩
        rintro a ⟨_, _, p, hp, _⟩
        simp [hpredicted] at hp
      rcases actual with _ | actual
      · refine ⟨_, rfl, Or.inr ⟨?_, foldl_applyCall_of_callbacks mapCfg m _ hfinish⟩⟩
        rintro a ⟨_, ha, _⟩
        simp [hactual] at ha
      by_cases heq : predicted = actual
      · simp only [heq, if_true]
        refine ⟨_, rfl, Or.inr ⟨?_, foldl_applyCall_of_callbacks mapCfg m _ hfinish⟩⟩
        rintro a ⟨_, ha, p, hp, hne⟩
        simp only [hactual, Except.ok.injEq, Option.some.injEq] at ha
        simp only [hpredicted, Option.some.injEq] at hp
        exact absurd (hp.symm.trans (heq.trans ha)) hne
      · simp only [heq, if_false]
        have hjudge := judgeEach_ne_invalidate env
          (judgeMismatch_ne_invalidate cfg outcome perRecord (env.hashrange k actual)) n
          perRecord.batch.items
        cases hitems : perRecord.batch.items with
        | nil => exact ⟨[], by simp [judgeEach], Or.inr ⟨by simp, rfl⟩⟩
        | cons b bs =>
          rw [hitems] at hjudge
          refine ⟨_, rfl, Or.inl ⟨actual, ⟨hsuccess, hactual, predicted, hpredicted, heq⟩,
            by simp, ?_⟩⟩
          simp only [judgeEach] at hjudge ⊢
          -- the first record's call, the invalidation, and the calls of the others
          rw [List.foldl_cons, List.foldl_cons]
          have hfirst := foldl_applyCall_of_callbacks mapCfg m [_] (fun call hcall =>
            hjudge call (List.mem_cons.mpr (Or.inl (List.mem_singleton.mp hcall))))
          rw [List.foldl_cons, List.foldl_nil] at hfirst
          rw [hfirst]
          exact foldl_applyCall_of_callbacks mapCfg _ _ fun call hcall =>
            hjudge call (List.mem_cons_of_mem _ hcall)
  · simp only [handlePerRecord, hsuccess, if_false, Bool.false_eq_true]
    refine ⟨_, rfl, Or.inr ⟨fun a ha => absurd ha.1 hsuccess, ?_⟩⟩
    exact foldl_applyCall_of_callbacks mapCfg m _ (judgeEach_ne_invalidate env
      (fun b now => judgeFailure_ne_invalidate cfg outcome b _ _ now) n _)

/-- A refresh has been started between `m` and `m'`. -/
def RefreshStarted (m m' : ShardMap.State) : Prop :=
  m'.state = .updating ∧ m'.refreshes.length = m.refreshes.length + 1

/-- The slot lands on a shard the cached snapshot knows, and has a record in it. -/
def Refreshes (u : DigitClasses) (m : ShardMap.State) (perRecord : PerRecordOutcome) : Prop :=
  ∃ actual, Misrouted u perRecord actual ∧ perRecord.batch.items ≠ [] ∧
    (m.snapshot.shards.get? actual).isSome

/-- While a refresh is under way, `invalidate` changes nothing. -/
theorem invalidate_of_updating {mapCfg : ShardMap.Config} {m : ShardMap.State}
    (h : m.state = .updating) (seenAt : Time) (shard : Option ShardId) :
    (ShardMap.invalidate mapCfg seenAt shard m).1 = m := by
  have hspawn : ShardMap.spawnRefresh mapCfg m = (m, false) := by
    rw [ShardMap.spawnRefresh, if_pos h]
  unfold ShardMap.invalidate
  split
  · rfl
  · split
    · rfl
    · split
      · rfl
      · rw [hspawn]

theorem handleSlotsOn_of_updating (u : DigitClasses) (cfg : Config) (mapCfg : ShardMap.Config)
    (env : Env) (outcome : SendOutcome) {m : ShardMap.State} (h : m.state = .updating) :
    ∀ (k n : Nat) (slots : List PerRecordOutcome),
      handleSlotsOn u cfg mapCfg env outcome k n slots m = m
  | _, _, [] => rfl
  | k, n, perRecord :: rest => by
    unfold handleSlotsOn
    split
    · rfl
    · rename_i calls _
      have hsame : ∀ calls : List Call, calls.foldl (applyCall mapCfg) m = m := by
        intro calls
        induction calls with
        | nil => rfl
        | cons call calls ih =>
          have hcall : applyCall mapCfg m call = m := by
            cases call with
            | invalidate t s => exact invalidate_of_updating h t s
            | _ => rfl
          rw [List.foldl_cons, hcall, ih]
      rw [hsame]
      exact handleSlotsOn_of_updating u cfg mapCfg env outcome h _ _ rest

/-- The slots of an outcome start a refresh with the first that lands on a known
    shard. -/
theorem handleSlotsOn_ready (u : DigitClasses) (cfg : Config) (mapCfg : ShardMap.Config)
    (env : Env) (outcome : SendOutcome) {m : ShardMap.State} (hopen : m.closed = false)
    (hlater : ∀ k t, m.updatedAt = some t → t < env.seenAt k) :
    ∀ (k n : Nat) (slots : List PerRecordOutcome),
      ((∃ perRecord ∈ slots.takeWhile (passes u), Refreshes u m perRecord) ∧
        handleSlotsOn u cfg mapCfg env outcome k n slots m = (ShardMap.spawnRefresh mapCfg m).1) ∨
      ((¬ ∃ perRecord ∈ slots.takeWhile (passes u), Refreshes u m perRecord) ∧
        handleSlotsOn u cfg mapCfg env outcome k n slots m = m)
  | _, _, [] => Or.inr ⟨by simp, rfl⟩
  | k, n, perRecord :: rest => by
    by_cases hpass : passes u perRecord = true
    · obtain ⟨calls, hcalls, hmap⟩ := handlePerRecord_map u cfg mapCfg
        { env with hashrange := fun _ => ShardMap.hashrange m } outcome k n hpass m
      simp only [handleSlotsOn, hcalls, List.takeWhile_cons, hpass, if_true, List.mem_cons,
        exists_eq_or_imp]
      have hskip (hquiet : ¬ Refreshes u m perRecord)
        (hsame : calls.foldl (applyCall mapCfg) m = m) :
          ((Refreshes u m perRecord ∨
              ∃ perRecord ∈ rest.takeWhile (passes u), Refreshes u m perRecord) ∧
            handleSlotsOn u cfg mapCfg env outcome (k + 1) (n + perRecord.batch.items.length) rest
              (calls.foldl (applyCall mapCfg) m) = (ShardMap.spawnRefresh mapCfg m).1) ∨
          ((¬ (Refreshes u m perRecord ∨
              ∃ perRecord ∈ rest.takeWhile (passes u), Refreshes u m perRecord)) ∧
            handleSlotsOn u cfg mapCfg env outcome (k + 1) (n + perRecord.batch.items.length) rest
              (calls.foldl (applyCall mapCfg) m) = m) := by
        rw [hsame]
        rcases handleSlotsOn_ready u cfg mapCfg env outcome hopen hlater (k + 1)
          (n + perRecord.batch.items.length) rest with ⟨hsome, hend⟩ | ⟨hnone, hend⟩
        · exact Or.inl ⟨Or.inr hsome, hend⟩
        · exact Or.inr ⟨not_or.mpr ⟨hquiet, hnone⟩, hend⟩
      rcases hmap with ⟨actual, hmis, hitems, hfold⟩ | ⟨hnone, hfold⟩
      · rw [ShardMap.invalidate_state hopen (hlater k)] at hfold
        by_cases hknown : (m.snapshot.shards.get? actual).isSome = true
        · refine Or.inl ⟨Or.inl ⟨actual, hmis, hitems, hknown⟩, ?_⟩
          rw [hfold, if_pos hknown]
          exact handleSlotsOn_of_updating u cfg mapCfg env outcome
            (ShardMap.spawnRefresh_state m) _ _ rest
        · refine hskip ?_ (by rw [hfold, if_neg hknown])
          rintro ⟨actual', hmis', _, hknown'⟩
          have hsame : actual' = actual := by
            simpa using hmis'.2.1.symm.trans hmis.2.1
          exact hknown (hsame ▸ hknown')
      · exact hskip (fun ⟨actual, hmis, hitems, _⟩ => hitems (hnone actual hmis)) hfold
    · have herror : ∃ e, handlePerRecord u cfg
          { env with hashrange := fun _ => ShardMap.hashrange m }
          outcome k n perRecord = .error e := by
        simp only [passes, Bool.or_eq_true, Bool.not_eq_true', not_or, Bool.not_eq_false] at hpass
        obtain ⟨hsuccess, hparse⟩ := hpass
        cases hactual : parseActualShardId u perRecord.shardId with
        | ok actual => simp [hactual] at hparse
        | error e =>
          exact ⟨e, by simp [handlePerRecord, hsuccess, handleSuccess, hactual, bind, Except.bind]⟩
      obtain ⟨e, he⟩ := herror
      exact Or.inr ⟨by simp [hpass], by simp only [handleSlotsOn, he]⟩

/-- **A misrouted record refreshes a map that knows its shard, and only then.**  On
    every reachable map that is READY, entered and open, with the clock past
    `updated_at`, handling an outcome starts a refresh exactly when one of the
    slots it gets to landed its records on a shard of the cached snapshot. -/
theorem refresh_started_iff_known (u : DigitClasses) (cfg : Config) (mapCfg : ShardMap.Config)
    {m : ShardMap.State} (hreach : Reachable (ShardMap.start mapCfg) (ShardMap.step u mapCfg)
      anyStep m) (hready : m.state = .ready) (hentered : m.entered = true)
    (hopen : m.closed = false) :
    ∃ t, m.updatedAt = some t ∧ ∀ (env : Env) (outcome : SendOutcome),
      outcome.requestError = none → (∀ k, t < env.seenAt k) →
      (RefreshStarted m (handleOn u cfg mapCfg env outcome m) ↔
        ∃ perRecord ∈ outcome.perRecord.takeWhile (passes u), Refreshes u m perRecord) := by
  obtain ⟨t, ht⟩ := ShardMap.reachable_installed hreach hready
  refine ⟨t, ht, fun env outcome hnone hclock => ?_⟩
  have hlater : ∀ k t', m.updatedAt = some t' → t' < env.seenAt k := by
    intro k t' ht'
    rw [ht] at ht'
    exact Option.some.inj ht' ▸ hclock k
  have hhandle : handleOn u cfg mapCfg env outcome m =
      handleSlotsOn u cfg mapCfg env outcome 0 0 outcome.perRecord m := by
    simp only [handleOn, hnone]
  rw [hhandle]
  rcases handleSlotsOn_ready u cfg mapCfg env outcome hopen hlater 0 0 outcome.perRecord with
    ⟨hsome, hend⟩ | ⟨hquiet, hend⟩
  · refine ⟨fun _ => hsome, fun _ => ?_⟩
    rw [hend]
    refine ⟨ShardMap.spawnRefresh_state m, ?_⟩
    simp [ShardMap.spawnRefresh, hready, hentered]
  · refine ⟨fun hstarted => ?_, fun h => absurd h hquiet⟩
    rw [hend, RefreshStarted, hready] at hstarted
    simp at hstarted

/-! ### Two open shards, and a child the map has not seen -/

/-- Enter, start, fetch the two shards and install them at 10. -/
def firstRefresh : List ShardMap.Op :=
  [.enter, .start, .begin 0, .fetchReply 0 (some halvesPage), .install 10 0]

/-- The map after its first refresh. -/
def halvesMap : ShardMap.State :=
  (exec (ShardMap.step .asciiOnly {}) anyStep (ShardMap.init {}) firstRefresh).getD
    (ShardMap.init {})

theorem halvesMap_reachable :
    Reachable (ShardMap.start {}) (ShardMap.step .asciiOnly {}) anyStep halvesMap := by
  have hrun : exec (ShardMap.step .asciiOnly {}) anyStep (ShardMap.init {}) firstRefresh =
      some halvesMap := by
    rfl
  exact Reachable.exec (.start rfl) hrun

def lateEnv : Env := { clock := fun _ => 20, seenAt := fun _ => 20, hashrange := fun _ _ => none }

/-- One record, predicted for shard 0, that came back from the shard `shardId`. -/
def landedOn (shardId : String) : SendOutcome :=
  { streamName := "s", startedAt := 15, endedAt := 20, requestError := none, batchItems := [],
    perRecord :=
      [{ batch := AggregatedBatch.add { predictedShard := some 0 }
           { ident := 0, userRecord := { partitionKey := "pk", data := [] }, deadline := 16,
             hashKey := 5, arrivalTime := 15 },
         success := true, shardId := some shardId, sequenceNumber := some "1", errorCode := none,
         errorMessage := none }] }

theorem landedOn_misrouted {shardId : String} {actual : ShardId} (hne : 0 ≠ actual)
    (h : parseActualShardId .asciiOnly (some shardId) = .ok (some actual)) :
    ∀ perRecord ∈ (landedOn shardId).perRecord, Misrouted .asciiOnly perRecord actual := by
  intro perRecord hmem
  rw [List.mem_singleton.mp hmem]
  exact ⟨rfl, h, 0, rfl, hne⟩

theorem refresh_started_iff_known_halves :
    RefreshStarted halvesMap
      (handleOn .asciiOnly {} {} lateEnv (landedOn "shardId-1") halvesMap) := by
  obtain ⟨t, ht, hiff⟩ := refresh_started_iff_known .asciiOnly {} {} halvesMap_reachable rfl rfl rfl
  obtain rfl : t = 10 := Option.some.inj (ht.symm.trans rfl)
  refine (hiff lateEnv (landedOn "shardId-1") rfl fun _ => ?_).mpr
    ⟨_, List.mem_singleton.mpr rfl, 1, ?_, by decide, by decide⟩
  · change (10 : Time) < 20
    norm_num
  · exact landedOn_misrouted (by decide) rfl _ (List.mem_singleton.mpr rfl)

/-- Shard 0 was split and the record landed on its child, shard 2, which the map
    has never seen: no refresh is started. -/
theorem unseen_child_starts_no_refresh :
    Reachable (ShardMap.start {}) (ShardMap.step .asciiOnly {}) anyStep halvesMap ∧
      halvesMap.state = .ready ∧ halvesMap.entered = true ∧ halvesMap.closed = false ∧
      (halvesMap.snapshot.shards.get? 0).isSome ∧
      (∀ perRecord ∈ (landedOn "shardId-2").perRecord, Misrouted .asciiOnly perRecord 2) ∧
      (∃ t, halvesMap.updatedAt = some t ∧ ∀ k, t < lateEnv.seenAt k) ∧
      (handleOn .asciiOnly {} {} lateEnv (landedOn "shardId-2") halvesMap).state = .ready := by
  refine ⟨halvesMap_reachable, rfl, rfl, rfl, by decide, landedOn_misrouted (by decide) rfl,
    ⟨10, rfl, fun _ => ?_⟩, by decide +kernel⟩
  change (10 : Time) < 20
  norm_num

end Retrier

end Aiokpl
