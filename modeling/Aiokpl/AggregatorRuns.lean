import Mathlib.Tactic
import Aiokpl.ShardMapRuns
import Aiokpl.Aggregator

/-!
# What an Aggregator may put into one batch

Runs of an Aggregator together with the shard map it reads.  The batches of a
predicted shard hold keys of that shard only, whatever the map does meanwhile.
The catch-all Reducer is made with the count limit of all the others, so two
records without a prediction can meet in one batch; they do not as long as each
finds that Reducer's batch empty, or does not fit in with what is there.
-/

namespace Aiokpl

open Lib Aggregation

namespace Aggregator

/-! ## The machine -/

/-- A call of `put_buffered` that has read its prediction; `found` once it holds the
    Reducer. -/
structure Routed where
  buffered : BufferedRecord
  shardKey : Option ShardId
  found : Bool := false

/-- An Aggregator, its shard map, the calls under way and the batches handed to
    `on_batch_ready`. -/
structure Run where
  map : ShardMap.State
  aggregator : State := {}
  routed : List Routed := []
  emitted : List AggregatedBatch := []

/-- What the steps read: the digest, the interpreter's digit classes and the two
    configurations. -/
structure System where
  md5 : Bytes → Digest
  u : DigitClasses
  cfg : Config
  mapCfg : ShardMap.Config

/-- The steps of a Reducer that come from `flush` or from its timer tasks. -/
def progresses : Reducer.Op BufferedRecord → Bool
  | .add _ _ => false
  | .aclose => false
  | _ => true

/-- `putBuffered` is a record that comes back from the Retrier; `abandon` is the
    cancellation of a call that waits for a lock. -/
inductive Op
  | map (op : ShardMap.Op)
  | put (now : Time) (ident : Nat) (userRecord : UserRecord)
  | putBuffered (buffered : BufferedRecord)
  | lookup (i : Nat)
  | add (now : Time) (i : Nat)
  | abandon (i : Nat)
  | reducer (shardKey : Option ShardId) (op : Reducer.Op BufferedRecord)

/-- `put_buffered` up to its first `await`. -/
def Run.route (buffered : BufferedRecord) (run : Run) : Run :=
  { run with routed := run.routed ++ [{ buffered, shardKey := predicted run.map buffered }] }

/-- Hand over the batch an operation closed, if it closed one. -/
def Run.emit (run : Run) (out : State × Option AggregatedBatch) : Run :=
  { run with aggregator := out.1, emitted := run.emitted ++ out.2.toList }

/-- One step, `none` when it cannot happen in this state. -/
def Run.step (sys : System) (run : Run) : Op → Option Run
  | .map op => (ShardMap.step sys.u sys.mapCfg run.map op).map fun map => { run with map }
  | .put now ident userRecord =>
    match buildBuffered sys.md5 sys.u sys.cfg now ident userRecord with
    | .ok buffered => some (run.route buffered)
    | .error _ => some run
  | .putBuffered buffered => some (run.route buffered)
  | .lookup i =>
    match run.routed[i]? with
    | some { buffered, shardKey, found := false } =>
      (getOrCreateReducer sys.cfg shardKey run.aggregator).map fun aggregator =>
        { run with
          aggregator
          routed := run.routed.set i { buffered, shardKey, found := true } }
    | _ => none
  | .add now i =>
    match run.routed[i]? with
    | some { buffered, shardKey, found := true } =>
      (onReducer sys.cfg shardKey (.add now buffered) run.aggregator).map
        ({ run with routed := run.routed.eraseIdx i }.emit)
    | _ => none
  | .abandon i =>
    if i < run.routed.length then some { run with routed := run.routed.eraseIdx i } else none
  | .reducer shardKey op =>
    if progresses op then (onReducer sys.cfg shardKey op run.aggregator).map run.emit else none

/-- A new Aggregator on a new shard map. -/
def Run.start (sys : System) (run : Run) : Prop := run = { map := ShardMap.init sys.mapCfg }

/-- The ways a step can go.  The operations of a Reducer hand on what it leaves and what
    it closes. -/
inductive Run.Turn (sys : System) (run : Run) : Op → Run → Prop
  | maps {op : ShardMap.Op} {map : ShardMap.State} :
      ShardMap.step sys.u sys.mapCfg run.map op = some map →
      Turn sys run (.map op) { run with map }
  | puts {now : Time} {ident : Nat} {userRecord : UserRecord} {buffered : BufferedRecord} :
      buildBuffered sys.md5 sys.u sys.cfg now ident userRecord = .ok buffered →
      Turn sys run (.put now ident userRecord) (run.route buffered)
  | rejects {now : Time} {ident : Nat} {userRecord : UserRecord} {e : Hashing.Error} :
      buildBuffered sys.md5 sys.u sys.cfg now ident userRecord = .error e →
      Turn sys run (.put now ident userRecord) run
  | reputs (buffered : BufferedRecord) : Turn sys run (.putBuffered buffered) (run.route buffered)
  | finds {i : Nat} {buffered : BufferedRecord} {shardKey : Option ShardId}
      {r : Reducer.State AggregatedBatch} :
      run.routed[i]? = some { buffered, shardKey } →
      run.aggregator.reducers.get? shardKey = some r →
      Turn sys run (.lookup i)
        { run with routed := run.routed.set i { buffered, shardKey, found := true } }
  | creates {i : Nat} {buffered : BufferedRecord} {shardKey : Option ShardId} :
      run.routed[i]? = some { buffered, shardKey } →
      run.aggregator.reducers.get? shardKey = none → run.aggregator.entered = true →
      Turn sys run (.lookup i)
        { run with
          aggregator := { run.aggregator with
            reducers :=
              run.aggregator.reducers.set shardKey (Reducer.init (sys.cfg.reducer shardKey)) }
          routed := run.routed.set i { buffered, shardKey, found := true } }
  | adds {now : Time} {i : Nat} {buffered : BufferedRecord} {shardKey : Option ShardId}
      {r r' : Reducer.State AggregatedBatch} {closed : Option AggregatedBatch} :
      run.routed[i]? = some { buffered, shardKey, found := true } →
      run.aggregator.reducers.get? shardKey = some r →
      Reducer.step (sys.cfg.reducer shardKey) r (.add now buffered) = some (r', closed) →
      Turn sys run (.add now i) (({ run with routed := run.routed.eraseIdx i } : Run).emit
        ({ run.aggregator with reducers := run.aggregator.reducers.set shardKey r' }, closed))
  | abandons {i : Nat} : i < run.routed.length →
      Turn sys run (.abandon i) { run with routed := run.routed.eraseIdx i }
  | progresses {key : Option ShardId} {op : Reducer.Op BufferedRecord}
      {r r' : Reducer.State AggregatedBatch} {closed : Option AggregatedBatch} :
      progresses op = true → run.aggregator.reducers.get? key = some r →
      Reducer.step (sys.cfg.reducer key) r op = some (r', closed) →
      Turn sys run (.reducer key op)
        (run.emit ({ run.aggregator with reducers := run.aggregator.reducers.set key r' }, closed))

theorem Run.step_turn {sys : System} {run run' : Run} {op : Op}
    (hstep : run.step sys op = some run') : run.Turn sys op run' := by
  cases op with
  | map op =>
    obtain ⟨m, hm, rfl⟩ := Option.map_eq_some_iff.mp hstep
    exact .maps hm
  | put now ident userRecord =>
    simp only [Run.step] at hstep
    split at hstep
    · rename_i hbuilt
      obtain rfl := Option.some.inj hstep
      exact .puts hbuilt
    · rename_i hfails
      obtain rfl := Option.some.inj hstep
      exact .rejects hfails
  | putBuffered buffered =>
    obtain rfl := Option.some.inj hstep
    exact .reputs buffered
  | lookup i =>
    simp only [Run.step] at hstep
    split at hstep
    · rename_i buffered shardKey hw
      obtain ⟨a, ha, rfl⟩ := Option.map_eq_some_iff.mp hstep
      simp only [getOrCreateReducer] at ha
      split at ha
      · rename_i hfound
        obtain rfl := Option.some.inj ha
        exact .finds hw hfound
      · rename_i hnone
        rw [Option.ite_none_right_eq_some, Option.some.injEq] at ha
        obtain ⟨hentered, rfl⟩ := ha
        exact .creates hw hnone hentered
    · cases hstep
  | add now i =>
    simp only [Run.step] at hstep
    split at hstep
    · rename_i hw
      obtain ⟨out, hout, rfl⟩ := Option.map_eq_some_iff.mp hstep
      obtain ⟨r, r', closed, hget, hadd, rfl⟩ := onReducer_eq_some hout
      exact .adds hw hget hadd
    · cases hstep
  | abandon i =>
    simp only [Run.step, Option.ite_none_right_eq_some, Option.some.injEq] at hstep
    obtain ⟨hlt, rfl⟩ := hstep
    exact .abandons hlt
  | reducer key op =>
    simp only [Run.step, Option.ite_none_right_eq_some] at hstep
    obtain ⟨hprogress, hstep⟩ := hstep
    obtain ⟨out, hout, rfl⟩ := Option.map_eq_some_iff.mp hstep
    obtain ⟨r, r', closed, hget, hrstep, rfl⟩ := onReducer_eq_some hout
    exact .progresses hprogress hget hrstep

/-! ## The side condition -/

/-- The record finds no record in the catch-all Reducer, or none it fits in with. -/
def Alone (cfg : Config) (a : State) (buffered : BufferedRecord) : Prop :=
  ∀ r, a.reducers.get? none = some r →
    r.active.items = [] ∨ ¬ Reducer.Fits (cfg.reducer none) (r.active.items ++ [buffered])

/-- The map lists no other shards than these. -/
def overShards (shards : List Shard) (run : Run) : Op → Prop
  | .map op => ShardMap.Fetches shards run.map op
  | _ => True

/-- Moreover, a record without a prediction is added only where it stays alone. -/
def keepsApart (sys : System) (shards : List Shard) (run : Run) : Op → Prop
  | .add _ i => ∀ w, run.routed[i]? = some w → w.shardKey = none →
      Alone sys.cfg run.aggregator w.buffered
  | op => overShards shards run op

/-! ## What a Reducer of the Aggregator holds -/

/-- The items may share a batch of the Reducer for this key. -/
def Homed (shards : List Shard) : Option ShardId → List BufferedRecord → Prop
  | some p, items => ∀ x ∈ items, ∃ s ∈ shards, s.shardId = p ∧ s.Holds x.hashKey
  | none, items => items.length ≤ 1

theorem sizeEstimate_pair_comm (a b : BufferedRecord) :
    (Totals.of [a, b]).sizeEstimate = (Totals.of [b, a]).sizeEstimate := by
  simp only [Totals.of, List.foldl_cons, List.foldl_nil, Totals.count]
  by_cases hpk : a.userRecord.partitionKey = b.userRecord.partitionKey
  · cases ha : a.userRecord.explicitHashKey <;> cases hb : b.userRecord.explicitHashKey
    · simp [hpk]; ring
    · simp [hpk]; ring
    · simp [hpk]; ring
    · rename_i ka kb
      by_cases hehk : ka = kb
      · simp [hpk, hehk]; ring
      · simp [hpk, hehk, Ne.symm hehk]; ring
  · cases ha : a.userRecord.explicitHashKey <;> cases hb : b.userRecord.explicitHashKey
    · simp [hpk, Ne.symm hpk]; ring
    · simp [hpk, Ne.symm hpk]; ring
    · simp [hpk, Ne.symm hpk]; ring
    · rename_i ka kb
      by_cases hehk : ka = kb
      · simp [hpk, Ne.symm hpk, hehk]; ring
      · simp [hpk, Ne.symm hpk, hehk, Ne.symm hehk]; ring

theorem size_fill (cfg : Config) (key : Option ShardId) (xs : List BufferedRecord) :
    (Reducer.fill (cfg.reducer key).batchFactory xs).size = (Totals.of xs).sizeEstimate := by
  have hitems : (Reducer.fill (cfg.reducer key).batchFactory xs).items = xs :=
    AggregatedBatch.items_foldl_add xs _
  rw [AggregatedBatch.size, AggregatedBatch.totals_eq, hitems]

/-- Whether two records fit together does not depend on their order. -/
theorem fits_pair_comm (cfg : Config) (key : Option ShardId) (a b : BufferedRecord) :
    Reducer.Fits (cfg.reducer key) [a, b] ↔ Reducer.Fits (cfg.reducer key) [b, a] := by
  have hsize := sizeEstimate_pair_comm a b
  rw [← size_fill cfg key, ← size_fill cfg key] at hsize
  simp only [Reducer.Fits, Reducer.exceeds, Batch.count, Batch.size, hsize]
  rfl

theorem sortBy_pair (a b : BufferedRecord) :
    sortBy Batchable.deadline [a, b] = [a, b] ∨ sortBy Batchable.deadline [a, b] = [b, a] := by
  by_cases h : a.deadline ≤ b.deadline
  · exact Or.inl (by simp [sortBy, Batchable.deadline, h])
  · exact Or.inr (by simp [sortBy, Batchable.deadline, h])

/-- An operation that packs or keeps leaves items that may share a batch in batches
    of the same kind. -/
theorem Homed.packs {shards : List Shard} {cfg : Config} {key : Option ShardId}
    {before : List BufferedRecord} {out : Reducer.State AggregatedBatch × Option AggregatedBatch}
    (h : Homed shards key before) (hout : Reducer.PacksOrKeeps (cfg.reducer key) before out) :
    Homed shards key out.1.active.items ∧
      ∀ closed ∈ out.2, closed.items ≠ [] ∧ Homed shards key closed.items := by
  obtain ⟨r, closing⟩ := out
  cases closing with
  | none =>
    have hkeep : r.active.items = before := hout
    exact ⟨hkeep ▸ h, by simp⟩
  | some closed =>
    have hcut : Reducer.WellPacked (cfg.reducer key) before closed r.active.items := hout
    have hperm : (closed.items ++ r.active.items).Perm before := hcut.perm
    have hboth : Homed shards key closed.items ∧ Homed shards key r.active.items := by
      cases key with
      | some p =>
        exact ⟨fun x hx => h x (hperm.subset (by simp [hx])),
          fun x hx => h x (hperm.subset (by simp [hx]))⟩
      | none =>
        have hlen := hperm.length_eq
        rw [List.length_append] at hlen
        have hle : before.length ≤ 1 := h
        exact ⟨show closed.items.length ≤ 1 by omega, show r.active.items.length ≤ 1 by omega⟩
    refine ⟨hboth.2, fun closed' hmem => ?_⟩
    rw [Option.mem_some_iff] at hmem
    subst hmem
    exact ⟨hcut.nonempty, hboth.1⟩

theorem mustClose_of_exceeds {cfg : Config} {key : Option ShardId} {item : BufferedRecord}
    {active : AggregatedBatch} (h : Reducer.exceeds (cfg.reducer key) active = true) :
    Reducer.mustClose (cfg.reducer key) item active = true := by
  simp only [Reducer.exceeds, Bool.or_eq_true, decide_eq_true_eq] at h
  simp only [Reducer.mustClose, Bool.or_eq_true, decide_eq_true_eq]
  omega

/-- Two records that do not fit together leave the catch-all Reducer one by one. -/
theorem add_apart {shards : List Shard} {cfg : Config} {now : Time}
    {r : Reducer.State AggregatedBatch} {a b : BufferedRecord} (hitems : r.active.items = [a])
    (hbig : ¬ Reducer.Fits (cfg.reducer none) [a, b]) :
    Homed shards none (Reducer.add (cfg.reducer none) now b r).1.active.items ∧
      ∀ closed ∈ (Reducer.add (cfg.reducer none) now b r).2,
        closed.items ≠ [] ∧ Homed shards none closed.items := by
  have hbefore : Batch.items (Batch.add r.active b) = [a, b] := by
    rw [BatchLaws.items_add]
    exact congrArg (· ++ [b]) hitems
  have hclose : Reducer.mustClose (cfg.reducer none) b (Batch.add r.active b) = true := by
    refine mustClose_of_exceeds ?_
    rw [← Bool.not_eq_false, Reducer.exceeds_eq_false_iff, hbefore]
    exact hbig
  have hpacks := Reducer.add_packsOrKeeps (cfg.reducer none) now b r
  simp only [Reducer.add, hclose, if_true] at hpacks ⊢
  rw [hbefore] at hpacks
  set packed :=
    Reducer.packAndSplit (cfg.reducer none) now { r with active := Batch.add r.active b }
  have hcut : Reducer.WellPacked (cfg.reducer none) [a, b] packed.2 packed.1.active.items := hpacks
  have hperm : (packed.2.items ++ packed.1.active.items).Perm [a, b] := hcut.perm
  have hlen : packed.2.items.length + packed.1.active.items.length = 2 := by
    simpa using hperm.length_eq
  have hne : packed.2.items ≠ [] := hcut.nonempty
  have hpos := List.length_pos_iff.mpr hne
  -- both in one batch would mean that they fit
  have hnotboth : packed.2.items.length ≠ 2 := by
    intro htwo
    have hleft : packed.1.active.items = [] := List.eq_nil_of_length_eq_zero (by omega)
    have hall : packed.2.items = sortBy Batchable.deadline [a, b] := by
      have hsplit := hcut.split
      rw [hleft, List.append_nil] at hsplit
      exact hsplit
    rcases hcut.within with hfits | ⟨x, hx⟩
    · have hfits' : Reducer.Fits (cfg.reducer none) packed.2.items := hfits
      rw [hall] at hfits'
      rcases sortBy_pair a b with h | h
      · exact hbig (h ▸ hfits')
      · exact hbig ((fits_pair_comm cfg none a b).mpr (h ▸ hfits'))
    · have hx' : packed.2.items = [x] := hx
      simp [hx'] at htwo
  refine ⟨show packed.1.active.items.length ≤ 1 by omega, fun closed hmem => ?_⟩
  rw [Option.mem_some_iff] at hmem
  subst hmem
  exact ⟨hcut.nonempty, show packed.2.items.length ≤ 1 by omega⟩

/-! ## The invariant -/

/-- The invariant of a run over `shards`. -/
structure Run.Homes (shards : List Shard) (run : Run) : Prop where
  shows : ShardMap.Shows shards run.map
  routed : ∀ w ∈ run.routed, ∀ p, w.shardKey = some p →
    ∃ s ∈ shards, s.shardId = p ∧ s.Holds w.buffered.hashKey
  active : ∀ key r, run.aggregator.reducers.get? key = some r →
    r.active.predictedShard = key ∧ Homed shards key r.active.items
  emitted : ∀ b ∈ run.emitted, b.items ≠ [] ∧ Homed shards b.predictedShard b.items

theorem predicted_holds {shards : List Shard} (hp : Partition shards) {m : ShardMap.State}
    (hshows : ShardMap.Shows shards m) {buffered : BufferedRecord} {p : ShardId}
    (h : predicted m buffered = some p) :
    ∃ s ∈ shards, s.shardId = p ∧ s.Holds buffered.hashKey := by
  unfold predicted ShardMap.predict at h
  split at h
  · rename_i hready
    exact (predict_eq_some_iff hp (hshows hready)).mp h
  · simp at h

/-- Handing over what a Reducer closed, and keeping what it left. -/
theorem Run.emit_homes {shards : List Shard} {run : Run} (h : run.Homes shards) {cfg : Config}
    {key : Option ShardId} {op : Reducer.Op BufferedRecord} {r r' : Reducer.State AggregatedBatch}
    {closed : Option AggregatedBatch} (hget : run.aggregator.reducers.get? key = some r)
    (hstep : Reducer.step (cfg.reducer key) r op = some (r', closed))
    (hhomed : Homed shards key r'.active.items ∧
      ∀ b ∈ closed, b.items ≠ [] ∧ Homed shards key b.items) :
    (run.emit ({ run.aggregator with reducers := run.aggregator.reducers.set key r' },
      closed)).Homes shards := by
  obtain ⟨hactive, hclosed⟩ := Reducer.step_tagged AggregatedBatch.predictedShard
    AggregatedBatch.predictedShard_add AggregatedBatch.predictedShard_removeLast
    (h.active key r hget).1 hstep
  refine ⟨h.shows, h.routed, fun key' r'' hr'' => ?_, fun b hb => ?_⟩
  · simp only [Run.emit, Dict.get?_set] at hr''
    split at hr''
    · rename_i hkey
      obtain rfl := Option.some.inj hr''
      exact hkey ▸ ⟨hactive, hhomed.1⟩
    · exact h.active key' r'' hr''
  · rcases List.mem_append.mp hb with hold | hnew
    · exact h.emitted b hold
    · have hmem : b ∈ closed := Option.mem_toList.mp hnew
      have hshard : b.predictedShard = key := hclosed b hmem
      exact hshard ▸ hhomed.2 b hmem

theorem Run.route_homes {shards : List Shard} (hp : Partition shards) {run : Run}
    (h : run.Homes shards) (buffered : BufferedRecord) : (run.route buffered).Homes shards := by
  refine ⟨h.shows, fun w hw p hkey => ?_, h.active, h.emitted⟩
  rcases List.mem_append.mp hw with hold | hnew
  · exact h.routed w hold p hkey
  · rw [List.mem_singleton] at hnew
    subst hnew
    exact predicted_holds hp h.shows hkey

/-- Calls may end. -/
theorem Run.Homes.forget {shards : List Shard} {run : Run} (h : run.Homes shards) (i : Nat) :
    ({ run with routed := run.routed.eraseIdx i } : Run).Homes shards :=
  ⟨h.shows, fun w hw => h.routed w (List.mem_of_mem_eraseIdx hw), h.active, h.emitted⟩

/-- **What an `add` leaves and closes may share a batch**: keys of its shard, or one
    record alone. -/
theorem Run.add_homed {sys : System} {shards : List Shard} {run : Run} (h : run.Homes shards)
    {now : Time} {i : Nat} {w : Routed} (hw : run.routed[i]? = some w)
    (hok : keepsApart sys shards run (.add now i)) {r : Reducer.State AggregatedBatch}
    (hget : run.aggregator.reducers.get? w.shardKey = some r) :
    Homed shards w.shardKey
        (Reducer.add (sys.cfg.reducer w.shardKey) now w.buffered r).1.active.items ∧
      ∀ b ∈ (Reducer.add (sys.cfg.reducer w.shardKey) now w.buffered r).2,
        b.items ≠ [] ∧ Homed shards w.shardKey b.items := by
  have hhome := (h.active _ _ hget).2
  have hpacks := Reducer.add_packsOrKeeps (sys.cfg.reducer w.shardKey) now w.buffered r
  rw [BatchLaws.items_add] at hpacks
  cases hkey : w.shardKey with
  | some p =>
    rw [hkey] at hpacks hhome
    refine Homed.packs (fun x hx => ?_) hpacks
    rcases List.mem_append.mp hx with hold | hnew
    · exact hhome x hold
    · rw [List.mem_singleton] at hnew
      exact hnew ▸ h.routed w (List.mem_of_getElem? hw) p hkey
  | none =>
    rw [hkey] at hpacks hhome hget
    have hitems : Batch.items r.active = r.active.items := rfl
    rcases hok w hw hkey r hget with hempty | hbig
    · refine Homed.packs ?_ hpacks
      rw [hitems, hempty]
      exact le_rfl
    · -- with at most one record there, not fitting in means that there is one
      match hcase : r.active.items, hhome with
      | [], _ =>
        refine Homed.packs ?_ hpacks
        rw [hitems, hcase]
        exact le_rfl
      | [a], _ =>
        rw [hcase] at hbig
        exact add_apart hcase hbig
      | a :: b :: rest, hlen => simp [Homed] at hlen

/-- Every step of a guarded run keeps the invariant. -/
theorem Run.step_homes {sys : System} {shards : List Shard} (hp : Partition shards)
    {run run' : Run} {op : Op} (h : run.Homes shards) (hok : keepsApart sys shards run op)
    (hstep : run.step sys op = some run') : run'.Homes shards := by
  have hset : ∀ {i : Nat} {buffered : BufferedRecord} {shardKey : Option ShardId},
      run.routed[i]? = some { buffered, shardKey } →
      ∀ w ∈ run.routed.set i { buffered, shardKey, found := true }, ∀ p, w.shardKey = some p →
        ∃ s ∈ shards, s.shardId = p ∧ s.Holds w.buffered.hashKey := by
    intro i buffered shardKey hw w hmem p hkey
    rcases List.mem_or_eq_of_mem_set hmem with hold | rfl
    · exact h.routed w hold p hkey
    · exact h.routed _ (List.mem_of_getElem? hw) p hkey
  cases Run.step_turn hstep with
  | maps hm => exact ⟨ShardMap.step_shows h.shows hok hm, h.routed, h.active, h.emitted⟩
  | puts => exact Run.route_homes hp h _
  | rejects => exact h
  | reputs buffered => exact Run.route_homes hp h buffered
  | finds hw => exact ⟨h.shows, hset hw, h.active, h.emitted⟩
  | @creates i buffered shardKey hw =>
    refine ⟨h.shows, hset hw, fun key r hr => ?_, h.emitted⟩
    simp only [Dict.get?_set] at hr
    split at hr
    · rename_i hkey
      obtain rfl := Option.some.inj hr
      subst hkey
      refine ⟨rfl, ?_⟩
      cases key <;> simp [Homed, Reducer.init, Config.reducer]
    · exact h.active key r hr
  | @adds now i buffered shardKey r r' closed hw hget hadd =>
    have hhomed := Run.add_homed h hw hok hget
    rw [Option.some.inj hadd] at hhomed
    exact Run.emit_homes (h.forget i) hget hadd hhomed
  | @abandons i => exact h.forget i
  | @progresses key op r r' closed hprogress hget hrstep =>
    refine Run.emit_homes h hget hrstep (Homed.packs ?_ (Reducer.step_packsOrKeeps ?_ hrstep))
    · have hnone : op.adds = [] := by
        cases op <;> simp_all [Aggregator.progresses, Reducer.Op.adds]
      rw [Reducer.Op.items_before, hnone, List.append_nil]
      exact (h.active key r hget).2
    · rintro rfl
      simp [Aggregator.progresses] at hprogress

theorem Run.reachable_homes {sys : System} {shards : List Shard} (hp : Partition shards)
    {run : Run} (h : Reachable (Run.start sys) (Run.step sys) (keepsApart sys shards) run) :
    run.Homes shards := by
  refine h.invariant ?_ fun _ _ _ hinv hok hstep => Run.step_homes hp hinv hok hstep
  rintro _ rfl
  exact ⟨fun hready => by simp [ShardMap.init] at hready, by simp, by simp, by simp⟩

/-- **Every batch is routable.**  In a run over shards that split the key space, in
    which a record without a prediction is added only where it stays alone, the
    records of a batch of two or more all belong to the shard that its explicit
    hash key routes it to, and a batch without a predicted shard is a single
    record. -/
theorem emitted_routable {sys : System} {shards : List Shard} (hp : Partition shards) {run : Run}
    (h : Reachable (Run.start sys) (Run.step sys) (keepsApart sys shards) run) :
    ∀ b ∈ run.emitted,
      (2 ≤ b.items.length → ∃ s ∈ shards, b.predictedShard = some s.shardId ∧
        (∀ x ∈ b.items, s.Holds x.hashKey) ∧
        ∃ hashKey, b.routingExplicitHashKey = some (toString hashKey) ∧ s.Holds hashKey) ∧
      (b.predictedShard = none → ∃ x, b.items = [x]) := by
  intro b hb
  obtain ⟨hne, hhome⟩ := (Run.reachable_homes hp h).emitted b hb
  obtain ⟨x, rest, hitems⟩ := List.exists_cons_of_ne_nil hne
  cases hkey : b.predictedShard with
  | none =>
    rw [hkey] at hhome
    have hlen : b.items.length ≤ 1 := hhome
    refine ⟨fun htwo => by omega, fun _ => ⟨x, ?_⟩⟩
    rw [hitems] at hlen ⊢
    simpa using hlen
  | some p =>
    rw [hkey] at hhome
    refine ⟨fun htwo => ?_, by simp⟩
    obtain ⟨s, hs, rfl, hholds⟩ := hhome x (by simp [hitems])
    have hall : ∀ y ∈ b.items, s.Holds y.hashKey := by
      intro y hy
      obtain ⟨t, ht, hid, hholds'⟩ := hhome y hy
      exact hp.eq_of_shardId ht hs hid ▸ hholds'
    refine ⟨s, hs, rfl, hall, x.hashKey, ?_, hholds⟩
    have hmany : b.items.length > 1 := htwo
    rw [AggregatedBatch.routingExplicitHashKey, if_pos hmany, hitems]
    rfl

/-! ### The side condition is sharp -/

theorem pair_leaves {cfg : Config} {a b : BufferedRecord}
    (hfits : Reducer.Fits (cfg.reducer none) [a, b]) {closed : AggregatedBatch}
    {left : List BufferedRecord}
    (hcut : Reducer.WellPacked (cfg.reducer none) [a, b] closed left) :
    closed.items.Perm [a, b] := by
  have hall : closed.items = sortBy Batchable.deadline [a, b] := by
    refine hcut.all ?_
    rcases sortBy_pair a b with h | h
    · rwa [h]
    · rwa [h, ← fits_pair_comm cfg none a b]
  exact hall ▸ sortBy_perm _ _

/-- A record that is added to one it fits in with leaves together with it, at the
    latest at the next flush. -/
theorem fitting_pair_leaves_together (cfg : Config) (now now' : Time)
    {r : Reducer.State AggregatedBatch} {a b : BufferedRecord} (hitems : r.active.items = [a])
    (hfits : Reducer.Fits (cfg.reducer none) [a, b]) :
    ∃ closed : AggregatedBatch, closed.items.Perm [a, b] ∧
      ((Reducer.add (cfg.reducer none) now b r).2 = some closed ∨
        (Reducer.flush (cfg.reducer none) now'
          (Reducer.add (cfg.reducer none) now b r).1).2 = some closed) := by
  have hbefore : Batch.items (Batch.add r.active b) = [a, b] := by
    rw [BatchLaws.items_add]
    exact congrArg (· ++ [b]) hitems
  have hadd := Reducer.add_packsOrKeeps (cfg.reducer none) now b r
  rw [hbefore] at hadd
  cases hclosed : (Reducer.add (cfg.reducer none) now b r).2 with
  | some closed =>
    simp only [Reducer.PacksOrKeeps, hclosed] at hadd
    exact ⟨closed, pair_leaves hfits hadd, Or.inl rfl⟩
  | none =>
    simp only [Reducer.PacksOrKeeps, hclosed] at hadd
    have hflush := Reducer.flush_packsOrKeeps (cfg.reducer none) now'
      (Reducer.add (cfg.reducer none) now b r).1
    rw [hadd] at hflush
    have hcount : Batch.count (Reducer.add (cfg.reducer none) now b r).1.active ≠ 0 := by
      rw [CountsItems.count_eq, hadd]
      simp
    obtain ⟨closed, hsome⟩ : ∃ closed, (Reducer.flush (cfg.reducer none) now'
        (Reducer.add (cfg.reducer none) now b r).1).2 = some closed := by
      simp [Reducer.flush, hcount]
    simp only [Reducer.PacksOrKeeps, hsome] at hflush
    exact ⟨closed, pair_leaves hfits hflush, Or.inr hsome⟩

/-! ### Runs over two halves of the key space -/

def demo : System :=
  { md5 := fun _ => .zero, u := .asciiOnly, cfg := {}, mapCfg := {} }

def withKey (explicitHashKey : String) : UserRecord :=
  { partitionKey := "pk", data := [], explicitHashKey := some explicitHashKey }

/-- Take the i-th record into its Reducer. -/
def settle (now : Time) (i : Nat) : List Op := [.lookup i, .add now i]

/-- A sufficient check of the side condition, for replaying runs. -/
def staysApart (sys : System) (shards : List Shard) (run : Run) : Op → Bool
  | .map (.install _ scope) =>
    match ShardMap.refreshAt run.map scope with
    | some { phase := .installing fetched, .. } =>
      decide (fetched.endings = (sortEndings (rows shards)).map Prod.fst ∧
        fetched.shardIds = (sortEndings (rows shards)).map Prod.snd)
    | _ => true
  | .add _ i =>
    match run.routed[i]? with
    | some { buffered, shardKey := none, .. } =>
      match run.aggregator.reducers.get? none with
      | some r => decide (r.active.items = [] ∨
          ¬ Reducer.Fits (sys.cfg.reducer none) (r.active.items ++ [buffered]))
      | none => true
    | _ => true
  | _ => true

theorem keepsApart_of_staysApart {sys : System} {shards : List Shard} {run : Run} {op : Op}
    (h : staysApart sys shards run op = true) : keepsApart sys shards run op := by
  cases op with
  | map op =>
    cases op with
    | install now scope =>
      intro task fetched hat hphase
      obtain ⟨scope', cancelled, phase⟩ := task
      dsimp only at hphase
      subst hphase
      simp only [staysApart, hat, decide_eq_true_eq] at h
      exact ⟨shards, .rfl, h⟩
    | _ => trivial
  | add now i =>
    rintro ⟨buffered, shardKey, found⟩ hw rfl r hr
    simpa [staysApart, hw, hr] using h
  | _ => trivial

/-- A record alone before the map is READY, and two of one shard afterwards. -/
theorem emitted_routable_lowerHalf :
    ∃ run, Reachable (Run.start demo) (Run.step demo) (keepsApart demo [lowerHalf, upperHalf]) run ∧
      run.emitted.map (fun b => (b.predictedShard, b.items.map BufferedRecord.hashKey)) =
        [(none, [5]), (some 0, [0, 1])] ∧
      ∀ b ∈ run.emitted,
        (2 ≤ b.items.length → ∃ s ∈ [lowerHalf, upperHalf], b.predictedShard = some s.shardId ∧
          (∀ x ∈ b.items, s.Holds x.hashKey) ∧
          ∃ hashKey, b.routingExplicitHashKey = some (toString hashKey) ∧ s.Holds hashKey) ∧
        (b.predictedShard = none → ∃ x, b.items = [x]) := by
  have hrun :
      (exec (Run.step demo) (fun run op => staysApart demo [lowerHalf, upperHalf] run op = true)
      { map := ShardMap.init demo.mapCfg }
      [[.put 0 0 (withKey "5")], settle 0 0, [.reducer none (.flush 0)],
        [.map .enter, .map .start, .map (.begin 0), .map (.fetchReply 0 (some halvesPage)),
          .map (.install 10 0)],
        [.put 20 1 (withKey "0"), .put 20 2 (withKey "1")], settle 20 0, settle 20 0,
        [.reducer (some 0) (.flush 20)]].flatten).map
      (fun run => run.emitted.map fun b => (b.predictedShard, b.items.map BufferedRecord.hashKey)) =
        some [(none, [5]), (some 0, [0, 1])] := by
    decide +kernel
  obtain ⟨run, hexec, hemitted⟩ := Option.map_eq_some_iff.mp hrun
  have hchecked : Reachable (Run.start demo) (Run.step demo)
      (fun run op => staysApart demo [lowerHalf, upperHalf] run op = true) run :=
    Reachable.exec (.start rfl) hexec
  have hreach := hchecked.mono fun _ _ h => keepsApart_of_staysApart h
  exact ⟨run, hreach, hemitted, emitted_routable halves_partition hreach⟩

/-- The step leaves the map alone. -/
def leavesMap : Op → Bool
  | .map _ => false
  | _ => true

theorem overShards_of_leavesMap {shards : List Shard} {run : Run} {op : Op}
    (h : leavesMap op = true) : overShards shards run op := by
  cases op with
  | map op => simp [leavesMap] at h
  | _ => trivial

/-- Before the map is READY, records of two shards leave in one batch. -/
theorem unpredicted_records_share_batch :
    Partition [lowerHalf, upperHalf] ∧ demo.cfg.aggregationEnabled = true ∧
      ∃ run, Reachable (Run.start demo) (Run.step demo) (overShards [lowerHalf, upperHalf]) run ∧
        ∃ b ∈ run.emitted, b.predictedShard = none ∧ b.items.length = 2 ∧
          ¬ ∃ s ∈ [lowerHalf, upperHalf], ∀ x ∈ b.items, s.Holds x.hashKey := by
  have hrun : (exec (Run.step demo) (fun _ op => leavesMap op = true)
      { map := ShardMap.init demo.mapCfg }
      ([.put 0 0 (withKey "0"), .put 0 1 (withKey "340282366920938463463374607431768211455")] ++
        settle 0 0 ++ settle 0 0 ++ [.reducer none (.flush 0)])).map
      (fun run => run.emitted.map fun b => (b.predictedShard, b.items.map BufferedRecord.hashKey)) =
        some [(none, [0, 340282366920938463463374607431768211455])] := by
    decide +kernel
  obtain ⟨run, hexec, hemitted⟩ := Option.map_eq_some_iff.mp hrun
  have hleaves : Reachable (Run.start demo) (Run.step demo) (fun _ op => leavesMap op = true) run :=
    Reachable.exec (.start rfl) hexec
  refine ⟨halves_partition, rfl, run, hleaves.mono fun _ _ h => overShards_of_leavesMap h, ?_⟩
  obtain ⟨b, rest, hb⟩ : ∃ b rest, run.emitted = b :: rest :=
    List.exists_cons_of_ne_nil (by rintro h; simp [h] at hemitted)
  rw [hb] at hemitted ⊢
  simp only [List.map_cons, List.cons.injEq, Prod.mk.injEq] at hemitted
  obtain ⟨⟨hshard, hkeys⟩, _⟩ := hemitted
  refine ⟨b, by simp, hshard, by simpa using congrArg List.length hkeys, ?_⟩
  rintro ⟨s, hs, hall⟩
  have hholds : ∀ k ∈ b.items.map BufferedRecord.hashKey, s.Holds k := by
    intro k hk
    obtain ⟨x, hx, rfl⟩ := List.mem_map.mp hk
    exact hall x hx
  rw [hkeys] at hholds
  rcases List.mem_cons.mp hs with rfl | hs
  · exact absurd (hholds 340282366920938463463374607431768211455 (by simp)).2 (by decide)
  · rw [List.mem_singleton.mp hs] at hholds
    exact absurd (hholds 0 (by simp)).1 (by decide)

end Aggregator

end Aiokpl
