import Aiokpl.AggregatorRuns
import Aiokpl.Sender

/-!
# Where the service sends what an Aggregator emits

The service reads one of two numbers out of a `PutRecords` entry: the decimal of its
explicit hash key, or else the digest of its partition key.  An Aggregator predicts
from the number it computed for the record, and then writes an entry by one of two
rules.  The histories below keep, next to a run, the map under which each record was
routed.
-/

namespace Aiokpl

open Lib Aggregation

/-! ## The service -/

namespace Service

/-- The hash key of an entry. -/
def hashKey (md5 : Bytes → Digest) (entry : Sender.Entry) : Nat :=
  match entry.explicitHashKey with
  | some ehk => Nat.ofDigitChars 10 ehk.toList 0
  | none => Hashing.md5HashKey md5 entry.partitionKey

/-- The shard whose range contains it. -/
def route (md5 : Bytes → Digest) (shards : List Shard) (entry : Sender.Entry) : Option ShardId :=
  (shards.find? fun s => s.Holds (hashKey md5 entry)).map Shard.shardId

theorem route_eq {md5 : Bytes → Digest} {shards : List Shard} (hp : Partition shards) {s : Shard}
    (hs : s ∈ shards) {entry : Sender.Entry} (h : s.Holds (hashKey md5 entry)) :
    route md5 shards entry = some s.shardId := by
  unfold route
  cases hfind : shards.find? fun s => decide (s.Holds (hashKey md5 entry)) with
  | none =>
    have hmiss := List.find?_eq_none.mp hfind s hs
    exact absurd (decide_eq_true h) hmiss
  | some t =>
    have ht : t ∈ shards := List.mem_of_find?_eq_some hfind
    have hfound := List.find?_some hfind
    have hholds : t.Holds (hashKey md5 entry) := of_decide_eq_true hfound
    rw [hp.eq_of_holds ht hs hholds h]
    rfl

end Service

namespace Aggregator

/-! ## Histories -/

/-- A run and, for each record that was routed, the map at that moment. -/
structure History where
  run : Run
  routings : List (ShardMap.State × BufferedRecord) := []

/-- The record that the step routes. -/
def Op.routes (sys : System) : Op → Option BufferedRecord
  | .put now ident userRecord =>
    (buildBuffered sys.md5 sys.u sys.cfg now ident userRecord).toOption
  | .putBuffered buffered => some buffered
  | _ => none

def History.step (sys : System) (h : History) (op : Op) : Option History :=
  (h.run.step sys op).map fun run =>
    { run, routings := h.routings ++ (op.routes sys).toList.map fun x => (h.run.map, x) }

def History.start (sys : System) (h : History) : Prop :=
  h = { run := { map := ShardMap.init sys.mapCfg } }

/-- `build_buffered` computed the hash key of the record. -/
def Built (sys : System) (x : BufferedRecord) : Prop :=
  ∃ now ident made, buildBuffered sys.md5 sys.u sys.cfg now ident x.userRecord = .ok made ∧
    x.hashKey = made.hashKey

/-- The records that come back were built here. -/
def bringsBack (sys : System) (_ : History) : Op → Prop
  | .putBuffered buffered => Built sys buffered
  | _ => True

/-- The record was routed to this shard at some time. -/
def History.Via (h : History) (key : Option ShardId) (x : BufferedRecord) : Prop :=
  ∃ m, (m, x) ∈ h.routings ∧ predicted m x = key

/-- Whenever the record was routed to this shard, the map had the table of these
    shards. -/
def History.RoutedUnder (h : History) (shards : List Shard) (key : Option ShardId)
    (x : BufferedRecord) : Prop :=
  ∀ m, (m, x) ∈ h.routings → predicted m x = key → Tabulates m.snapshot shards

/-! ## A law of records and their Reducers -/

section All

variable {P : Option ShardId → BufferedRecord → Prop} {sys : System} {run run' : Run}

/-- Every record that is routed, buffered or emitted meets `P` with the key of its
    Reducer. -/
structure Run.All (P : Option ShardId → BufferedRecord → Prop) (run : Run) : Prop where
  routed : ∀ w ∈ run.routed, P w.shardKey w.buffered
  active : ∀ key r, run.aggregator.reducers.get? key = some r →
    r.active.predictedShard = key ∧ ∀ x ∈ r.active.items, P key x
  emitted : ∀ b ∈ run.emitted, b.items ≠ [] ∧ ∀ x ∈ b.items, P b.predictedShard x

theorem Run.All.forget (h : run.All P) (i : Nat) :
    ({ run with routed := run.routed.eraseIdx i } : Run).All P :=
  ⟨fun w hw => h.routed w (List.mem_of_mem_eraseIdx hw), h.active, h.emitted⟩

theorem Run.All.route (h : run.All P) {buffered : BufferedRecord}
    (hnew : P (predicted run.map buffered) buffered) : (run.route buffered).All P := by
  refine ⟨?_, h.active, h.emitted⟩
  intro w hw
  rcases List.mem_append.mp hw with hold | hadded
  · exact h.routed w hold
  · rw [List.mem_singleton] at hadded
    subst hadded
    exact hnew

/-- An operation of a Reducer hands over or keeps records that were in it or are added. -/
theorem Run.All.emit (h : run.All P) {cfg : Config} {key : Option ShardId}
    {op : Reducer.Op BufferedRecord} {r r' : Reducer.State AggregatedBatch}
    {closed : Option AggregatedBatch} (hget : run.aggregator.reducers.get? key = some r)
    (hop : op ≠ .aclose) (hadds : ∀ x ∈ op.adds, P key x)
    (hstep : Reducer.step (cfg.reducer key) r op = some (r', closed)) :
    (run.emit ({ run.aggregator with reducers := run.aggregator.reducers.set key r' },
      closed)).All P := by
  obtain ⟨hkey, hitems⟩ := h.active key r hget
  obtain ⟨hactive, hclosed⟩ := Reducer.step_tagged AggregatedBatch.predictedShard
    AggregatedBatch.predictedShard_add AggregatedBatch.predictedShard_removeLast hkey hstep
  have hperm := Reducer.step_items_perm hop hstep
  have hall : ∀ x ∈ closed.toList.flatMap AggregatedBatch.items ++ r'.active.items, P key x := by
    intro x hx
    rcases List.mem_append.mp (hperm.subset hx) with hold | hadded
    · exact hitems x hold
    · exact hadds x hadded
  constructor
  · exact h.routed
  · intro key' r'' hr''
    simp only [Run.emit, Dict.get?_set] at hr''
    split at hr''
    · rename_i hsame
      obtain rfl := Option.some.inj hr''
      subst hsame
      exact ⟨hactive, fun x hx => hall x (List.mem_append_right _ hx)⟩
    · exact h.active key' r'' hr''
  · intro b hb
    rcases List.mem_append.mp hb with hold | hnew
    · exact h.emitted b hold
    · have hmem : b ∈ closed := Option.mem_toList.mp hnew
      have hshard : b.predictedShard = key := hclosed b hmem
      have hpacks := Reducer.step_packsOrKeeps hop hstep
      rw [Option.mem_def.mp hmem] at hpacks
      have hcut : Reducer.WellPacked (cfg.reducer key) (op.before r) b r'.active.items := hpacks
      refine ⟨hcut.nonempty, ?_⟩
      intro x hx
      rw [hshard]
      exact hall x (List.mem_append_left _ (List.mem_flatMap.mpr ⟨b, hnew, hx⟩))

/-- A step keeps the law when the record it routes meets it. -/
theorem Run.step_all {op : Op} (h : run.All P)
    (hnew : ∀ x ∈ op.routes sys, P (predicted run.map x) x)
    (hstep : run.step sys op = some run') : run'.All P := by
  have hset : ∀ {i : Nat} {buffered : BufferedRecord} {shardKey : Option ShardId},
      run.routed[i]? = some { buffered, shardKey } →
      ∀ w ∈ run.routed.set i { buffered, shardKey, found := true }, P w.shardKey w.buffered := by
    intro i buffered shardKey hw w hmem
    rcases List.mem_or_eq_of_mem_set hmem with hold | rfl
    · exact h.routed w hold
    · exact h.routed { buffered, shardKey } (List.mem_of_getElem? hw)
  cases Run.step_turn hstep with
  | maps => exact ⟨h.routed, h.active, h.emitted⟩
  | puts hbuilt =>
    apply h.route
    apply hnew
    simp [Op.routes, hbuilt, Except.toOption]
  | rejects => exact h
  | reputs buffered => exact h.route (hnew buffered rfl)
  | finds hw => exact ⟨hset hw, h.active, h.emitted⟩
  | creates hw =>
    refine ⟨hset hw, ?_, h.emitted⟩
    intro key r hr
    simp only [Dict.get?_set] at hr
    split at hr
    · rename_i hkey
      obtain rfl := Option.some.inj hr
      subst hkey
      refine ⟨rfl, ?_⟩
      intro x hx
      exact absurd hx List.not_mem_nil
    · exact h.active key r hr
  | @adds now i _ _ _ _ _ hw hget hadd =>
    apply (h.forget i).emit hget _ _ hadd
    · rintro ⟨⟩
    · intro x hx
      rw [Reducer.Op.adds, List.mem_singleton] at hx
      subst hx
      exact h.routed _ (List.mem_of_getElem? hw)
  | @abandons i => exact h.forget i
  | @progresses key op _ _ _ hprogress hget hrstep =>
    apply h.emit hget _ _ hrstep
    · rintro rfl
      cases hprogress
    · intro x hx
      cases op with
      | add now item => cases hprogress
      | _ => exact absurd hx List.not_mem_nil

theorem Run.All.mono {Q : Option ShardId → BufferedRecord → Prop} (h : run.All P)
    (hweak : ∀ key x, P key x → Q key x) : run.All Q := by
  refine ⟨fun w hw => hweak _ _ (h.routed w hw), ?_, ?_⟩
  · intro key r hr
    obtain ⟨hkey, hitems⟩ := h.active key r hr
    exact ⟨hkey, fun x hx => hweak _ _ (hitems x hx)⟩
  · intro b hb
    obtain ⟨hne, hitems⟩ := h.emitted b hb
    exact ⟨hne, fun x hx => hweak _ _ (hitems x hx)⟩

end All

theorem built_of_put {sys : System} {now : Time} {ident : Nat} {userRecord : UserRecord}
    {made : BufferedRecord}
    (h : buildBuffered sys.md5 sys.u sys.cfg now ident userRecord = .ok made) : Built sys made := by
  obtain ⟨hashKey, _, rfl⟩ := buildBuffered_eq_ok h
  exact ⟨now, ident, _, h, rfl⟩

/-- Every record was built here, and its Reducer is that of one of its routings. -/
theorem History.reachable_all {sys : System} {h : History}
    (hreach : Reachable (History.start sys) (History.step sys) (bringsBack sys) h) :
    h.run.All fun key x => h.Via key x ∧ Built sys x := by
  apply hreach.invariant
  · rintro _ rfl
    refine ⟨?_, ?_, ?_⟩
    · intro w hw
      exact absurd hw List.not_mem_nil
    · intro key r hr
      cases hr
    · intro b hb
      exact absurd hb List.not_mem_nil
  · intro h op h' hinv hback hstep
    obtain ⟨run, hrun, rfl⟩ := Option.map_eq_some_iff.mp hstep
    have hold : h.run.All fun key x => History.Via { run, routings := h.routings ++
        ((op.routes sys).toList.map fun x => (h.run.map, x)) } key x ∧ Built sys x := by
      apply hinv.mono
      rintro key x ⟨⟨m, hm, hkey⟩, hbuilt⟩
      exact ⟨⟨m, List.mem_append_left _ hm, hkey⟩, hbuilt⟩
    apply Run.step_all hold _ hrun
    intro x hx
    constructor
    · refine ⟨h.run.map, List.mem_append_right _ ?_, rfl⟩
      exact List.mem_map.mpr ⟨x, Option.mem_toList.mpr hx, rfl⟩
    · cases op with
      | put now ident userRecord =>
        simp only [Op.routes] at hx
        cases hbuilt : buildBuffered sys.md5 sys.u sys.cfg now ident userRecord with
        | error e =>
          rw [hbuilt] at hx
          cases hx
        | ok made =>
          rw [hbuilt] at hx
          obtain rfl := Option.some.inj hx
          exact built_of_put hbuilt
      | putBuffered buffered =>
        obtain rfl := Option.some.inj hx
        exact hback
      | _ => cases hx

/-! ## The entry -/

/-- The hash key of a record is the number the service would read for it alone. -/
theorem Built.hashKey_eq {sys : System} {x : BufferedRecord} (h : Built sys x) :
    x.hashKey = match x.userRecord.explicitHashKey with
      | some ehk => Nat.ofDigitChars 10 ehk.toList 0
      | none => Hashing.md5HashKey sys.md5 x.userRecord.partitionKey := by
  obtain ⟨now, ident, made, hmade, hkey⟩ := h
  obtain ⟨hashKey, hread, rfl⟩ := buildBuffered_eq_ok hmade
  rw [hkey]
  cases hehk : x.userRecord.explicitHashKey with
  | none =>
    rw [hehk] at hread
    exact (Except.ok.inj hread).symm
  | some ehk =>
    rw [hehk] at hread
    exact Hashing.parseExplicitHashKey_decimal hread

/-- The service reads the hash key of the first record. -/
theorem buildEntry_hashKey {sys : System} {b : AggregatedBatch} {x : BufferedRecord}
    {rest : List BufferedRecord} (hitems : b.items = x :: rest) (hbuilt : Built sys x) :
    ∃ entry, Sender.buildEntry sys.md5 b = .ok entry ∧
      Service.hashKey sys.md5 entry = x.hashKey := by
  cases rest with
  | nil =>
    refine ⟨{ data := x.userRecord.data, partitionKey := x.userRecord.partitionKey,
              explicitHashKey := x.userRecord.explicitHashKey }, ?_, hbuilt.hashKey_eq.symm⟩
    simp [Sender.buildEntry, AggregatedBatch.toBlob, AggregatedBatch.routingPartitionKey,
      AggregatedBatch.routingExplicitHashKey, hitems, encodeAggregated, bind, Except.bind, pure,
      Except.pure]
  | cons y rest =>
    obtain ⟨data, hdata⟩ : ∃ data, b.toBlob sys.md5 = .ok data := by
      simp [AggregatedBatch.toBlob, hitems, encodeAggregated]
    refine ⟨{ data, partitionKey := "a", explicitHashKey := some (toString x.hashKey) }, ?_,
      Hashing.ofDigitChars_toString x.hashKey⟩
    simp [Sender.buildEntry, hdata, AggregatedBatch.routingPartitionKey,
      AggregatedBatch.routingExplicitHashKey, hitems, bind, Except.bind, pure, Except.pure]

/-- **The service agrees with the prediction.**  A batch with a predicted shard, all of
    whose records were routed under the table of the service's shards, is sent to the
    shard that was predicted. -/
theorem emitted_reaches_predicted {sys : System} {shards : List Shard} (hp : Partition shards)
    {h : History} (hreach : Reachable (History.start sys) (History.step sys) (bringsBack sys) h)
    {b : AggregatedBatch} (hb : b ∈ h.run.emitted) {p : ShardId}
    (hshard : b.predictedShard = some p)
    (hrouted : ∀ x ∈ b.items, h.RoutedUnder shards b.predictedShard x) :
    ∃ entry, Sender.buildEntry sys.md5 b = .ok entry ∧
      Service.route sys.md5 shards entry = some p := by
  obtain ⟨hne, hitems⟩ := (History.reachable_all hreach).emitted b hb
  obtain ⟨x, rest, hx⟩ := List.exists_cons_of_ne_nil hne
  have hmem : x ∈ b.items := by
    rw [hx]
    exact List.mem_cons_self
  obtain ⟨⟨m, hm, hpredicted⟩, hbuilt⟩ := hitems x hmem
  have htable : Tabulates m.snapshot shards := hrouted x hmem m hm hpredicted
  obtain ⟨s, hs, rfl, hholds⟩ := predicted_holds hp (fun _ => htable) (hpredicted.trans hshard)
  obtain ⟨entry, hentry, hkey⟩ := buildEntry_hashKey hx hbuilt
  refine ⟨entry, hentry, Service.route_eq hp hs ?_⟩
  rw [hkey]
  exact hholds

/-! ### Two records of the lower half -/

/-- The map had the table of the two halves. -/
def showsHalves (m : ShardMap.State) : Bool :=
  decide (m.snapshot.endings = (sortEndings (rows [lowerHalf, upperHalf])).map Prod.fst ∧
    m.snapshot.shardIds = (sortEndings (rows [lowerHalf, upperHalf])).map Prod.snd)

/-- The step brings no record back. -/
def onlyNew : Op → Bool
  | .putBuffered _ => false
  | _ => true

theorem bringsBack_of_onlyNew {sys : System} {h : History} {op : Op} (hnew : onlyNew op = true) :
    bringsBack sys h op := by
  cases op with
  | putBuffered buffered => cases hnew
  | _ => trivial

/-- The second record is due first, and its hash key goes into the entry. -/
theorem emitted_reaches_lowerHalf :
    ∃ h, Reachable (History.start demo) (History.step demo) (bringsBack demo) h ∧
      ∃ b ∈ h.run.emitted, b.items.map BufferedRecord.hashKey = [1, 0] ∧
        ∃ entry, Sender.buildEntry demo.md5 b = .ok entry ∧
          Service.route demo.md5 [lowerHalf, upperHalf] entry = some 0 := by
  have hrun : (exec (History.step demo) (fun _ op => onlyNew op = true)
      { run := { map := ShardMap.init demo.mapCfg } }
      ([.map .enter, .map .start, .map (.begin 0), .map (.fetchReply 0 (some halvesPage)),
          .map (.install 10 0)] ++
        [.put 21 1 (withKey "0"), .put 20 2 (withKey "1")] ++ settle 21 0 ++ settle 21 0 ++
        [.reducer (some 0) (.flush 21)])).map
      (fun h => (h.run.emitted.map fun b => (b.predictedShard, b.items.map BufferedRecord.hashKey),
        h.routings.all fun r => showsHalves r.1)) = some ([(some 0, [1, 0])], true) := by
    decide +kernel
  obtain ⟨h, hexec, hout⟩ := Option.map_eq_some_iff.mp hrun
  obtain ⟨hemitted, hshows⟩ := Prod.mk.inj hout
  have hnew :
      Reachable (History.start demo) (History.step demo) (fun _ op => onlyNew op = true) h :=
    Reachable.exec (.start rfl) hexec
  have hreach : Reachable (History.start demo) (History.step demo) (bringsBack demo) h :=
    hnew.mono fun _ _ hop => bringsBack_of_onlyNew hop
  obtain ⟨b, hb⟩ : ∃ b, h.run.emitted = [b] := by
    have hlen := congrArg List.length hemitted
    rw [List.length_map] at hlen
    exact List.length_eq_one_iff.mp hlen
  rw [hb] at hemitted
  obtain ⟨hshard, hkeys⟩ := Prod.mk.inj (List.cons.inj hemitted).1
  have hmem : b ∈ h.run.emitted := by
    rw [hb]
    exact List.mem_singleton_self b
  refine ⟨h, hreach, b, hmem, hkeys, ?_⟩
  apply emitted_reaches_predicted halves_partition hreach hmem hshard
  intro x _ m hm _
  have htable := List.all_eq_true.mp hshows _ hm
  exact ⟨[lowerHalf, upperHalf], .rfl, of_decide_eq_true htable⟩

end Aggregator

end Aiokpl
