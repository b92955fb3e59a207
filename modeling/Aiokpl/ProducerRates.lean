import Aiokpl.LimiterShards
import Aiokpl.ProducerStageLaws
import Aiokpl.ProducerTeardown

/-!
# The rates of a producer

What the tasks of a producer do to the Limiter of a stream is a run of that Limiter:
whatever else happens, each shard of each stream keeps to its rates.  What reaches the
Collector has been let through by the Limiter, or was forced by a flush.

The main result is `every_shard_keeps_its_rates`: in every window of time the tokens of a
shard are spent within its capacity and its growth, and no batch enters a Collector that
the Limiter has not let through.  Clocks and rates are exact rationals, and rates are not
negative; on doubles the bounds hold up to rounding only.  A run that an exception in a
background task has ended keeps what it has let through by then.
-/

namespace Aiokpl

open Lib Aggregation

namespace Producer

/-! ## The Limiter of a stream -/

/-- The Limiter of a stream is empty until there is one. -/
def Shared.limiterOf (s : Shared) (stream : String) : Limiter.State :=
  ((s.pipelines.get? stream).map Pipeline.limiter).getD {}

/-- What a frame does to the Limiter of its stream. -/
def Work.limiterMove (sys : System) (input : Input) : Work →
    Option (String × (Limiter.State → Limiter.State))
  | .limiterPut stream batch =>
    some (stream, fun l => (Limiter.put sys.cfg.limiter input.put batch l).1)
  | .drainTick stream => some (stream, fun l => (Limiter.drainAll input.drain l).1)
  | .flushLimiter stream =>
    some (stream, fun l => (Limiter.flush (fun key => (input.drain key).now) l).1)
  | .closeLimiter stream => some (stream, Limiter.aclose)
  | _ => none

/-- The Limiter of a stream after a frame. -/
def Work.limiterAfter (sys : System) (input : Input) (s : Shared) (stream : String) (w : Work) :
    Limiter.State :=
  match w.limiterMove sys input with
  | some (stream', move) =>
    if stream = stream' then move (s.limiterOf stream) else s.limiterOf stream
  | none => s.limiterOf stream

section Limiters

variable {sys : System} {input : Input} {id : Nat} {s s' : Shared} {w : Work} {push : List Work}
  {spawn : Option Task}

theorem limiterOf_of_get? {stream : String} {p : Pipeline}
    (hp : s.pipelines.get? stream = some p) : s.limiterOf stream = p.limiter := by
  rw [Shared.limiterOf, hp]
  rfl

theorem limiterOf_setPipeline (s : Shared) (stream : String) (p : Pipeline) (stream' : String) :
    (s.setPipeline stream p).limiterOf stream' =
      if stream' = stream then p.limiter else s.limiterOf stream' := by
  rw [Shared.limiterOf, Shared.setPipeline, Dict.get?_set]
  split <;> rfl

/-- A pipeline that keeps its Limiter. -/
theorem limiterOf_keep {stream : String} {p p' : Pipeline} (hp : s.pipelines.get? stream = some p)
    (hsame : p'.limiter = p.limiter) : (s.setPipeline stream p').limiterOf = s.limiterOf := by
  funext stream'
  rw [limiterOf_setPipeline]
  split
  · rename_i heq
    rw [hsame, heq, limiterOf_of_get? hp]
  · rfl

theorem limiterOf_entering {stream : String} (hnone : s.pipelines.get? stream = none)
    (sys : System) : (entering sys s stream).limiterOf = s.limiterOf := by
  funext stream'
  have hset : (entering sys s stream).limiterOf stream' =
      if stream' = stream then {} else s.limiterOf stream' := limiterOf_setPipeline _ _ _ _
  rw [hset]
  split
  · rename_i heq
    rw [heq, Shared.limiterOf, hnone]
    rfl
  · rfl

theorem limiterOf_submit {call : PutCall} {p : Pipeline}
    (hp : s.pipelines.get? call.stream = some p)
    (h : submit sys input call p s = .next s' push spawn) : s'.limiterOf = s.limiterOf := by
  unfold submit at h
  split at h
  · cases h
  · obtain ⟨rfl, _, _⟩ := (Ran.next.injEq ..).mp h
    exact limiterOf_keep hp rfl

theorem limiterOf_finish (stream : String) (buffered : BufferedRecord) (s : Shared) :
    (finish stream buffered s).limiterOf = s.limiterOf := by
  cases hp : s.pipelines.get? stream with
  | none =>
    simp only [finish, hp]
    rfl
  | some p =>
    rw [finish_eq hp]
    exact limiterOf_keep hp rfl

/-- **What a frame does to the Limiters**, if it raises nothing. -/
theorem exec_limiterOf (hbuild : ∀ call, w = .buildPipeline call →
    s.pipelines.get? call.stream = none)
    (h : exec sys input id s w = some (.next s' push spawn)) (stream : String) :
    s'.limiterOf stream = w.limiterAfter sys input s stream := by
  cases exec_runs h with
  | limiterPut hp | drainTick hp | flushLimiter hp | closeLimiter hp =>
    refine (limiterOf_setPipeline ..).trans ?_
    rw [Work.limiterAfter, Work.limiterMove]
    dsimp only
    split
    · rename_i heq
      rw [heq, limiterOf_of_get? hp]
    · rfl
  | getPipeline _ hp hsubmit => exact congrFun (limiterOf_submit hp hsubmit) stream
  | @buildPipeline call _ _ _ hsubmit =>
    have hsame := limiterOf_submit (entering_stream sys s call.stream) hsubmit
    rw [limiterOf_entering (hbuild call rfl)] at hsame
    exact congrFun hsame stream
  | getReducer hp | reducerAdd hp | flushReducer hp | leaveAggregator hp =>
    refine congrFun (limiterOf_keep hp ?_) stream
    rfl
  | @closeCollector _ p hp =>
    have hkeep := limiterOf_keep hp (show ({ p with
      collector := Reducer.aclose sys.cfg.collector.reducer p.collector } : Pipeline).limiter =
        p.limiter from rfl)
    exact congrFun hkeep stream
  | @closeAggregator _ p hp =>
    have hkeep := limiterOf_keep hp (show ({ p with
      aggregator := Aggregator.aclose p.aggregator } : Pipeline).limiter = p.limiter from rfl)
    exact congrFun hkeep stream
  | limiterAdmit hp hbatch | flushCollector hp hbatch =>
    obtain ⟨rfl, _⟩ := collectorBatch_next hbatch
    refine congrFun (limiterOf_keep hp ?_) stream
    rfl
  | onFinish stream' buffered => exact congrFun (limiterOf_finish stream' buffered s) stream
  | _ => rfl

/-- A frame that raises leaves the Limiters as they are. -/
theorem exec_raises_limiterOf
    (hbuild : ∀ call, w = .buildPipeline call → s.pipelines.get? call.stream = none)
    {left : List Work} (h : exec sys input id s w = some (.raises s' left)) :
    s'.limiterOf = s.limiterOf := by
  cases exec_raising h with
  | getPipeline _ _ hsubmit =>
    obtain ⟨rfl, _⟩ := submit_raises hsubmit
    rfl
  | @buildPipeline call _ _ hsubmit =>
    obtain ⟨rfl, _⟩ := submit_raises hsubmit
    exact limiterOf_entering (hbuild call rfl) sys
  | limiterAdmit hp hbatch | flushCollector hp hbatch =>
    obtain ⟨rfl, _⟩ := collectorBatch_raises hbatch
    refine limiterOf_keep hp ?_
    rfl
  | buildFails | getReducer | inFlight | handleRaises => rfl

theorem limiterOf_goOn (id : Nat) (kind : TaskKind) (work : List Work) (s : State) :
    (s.goOn sys id kind work).shared.limiterOf = s.shared.limiterOf := by
  by_cases hempty : work = []
  · subst hempty
    cases kind with
    | reducerTimer stream shardKey scope =>
      have hend : (s.goOn sys id (.reducerTimer stream shardKey scope) []).shared =
          endReducerTimer sys.cfg.aggregator stream shardKey scope s.shared := rfl
      rw [hend, endReducerTimer]
      split
      · rfl
      · rename_i p hp
        split
        · rfl
        · refine limiterOf_keep hp ?_
          rfl
    | _ => rfl
  · rw [goOn_of_ne hempty]

theorem limiterOf_congr (h : s'.pipelines = s.pipelines) : s'.limiterOf = s.limiterOf := by
  funext stream
  rw [Shared.limiterOf, Shared.limiterOf, h]

/-- **What a step does to the Limiters** is what the frame does that it runs. -/
theorem step_limiterOf {s s' : State} {op : Op} (hs : Sound s) (hstep : s.step sys op = some s') :
    (s.ran sys op = none → s'.shared.limiterOf = s.shared.limiterOf) ∧
      ∀ input w, s.ran sys op = some (input, w) → ∀ stream,
        s'.shared.limiterOf stream = w.limiterAfter sys input s.shared stream := by
  have hquiet : ∀ {s'' : Shared}, s.ran sys op = none → s''.limiterOf = s.shared.limiterOf →
      (s.ran sys op = none → s''.limiterOf = s.shared.limiterOf) ∧
        ∀ input w, s.ran sys op = some (input, w) → ∀ stream,
          s''.limiterOf stream = w.limiterAfter sys input s.shared stream := by
    intro s'' hran hsame
    refine ⟨fun _ => hsame, ?_⟩
    intro input w hsome
    rw [hran] at hsome
    cases hsome
  cases (step_turn hstep).2 with
  | @ran id input kind w rest push shared spawn hfound _ hexec =>
    have hran := ran_next hfound hexec
    refine ⟨fun hnone => ?_, fun input' w' hsome stream => ?_⟩
    · rw [hran] at hnone
      cases hnone
    · rw [hran] at hsome
      obtain ⟨rfl, rfl⟩ := Prod.mk.inj (Option.some.inj hsome)
      rw [shared_spawn, limiterOf_goOn]
      exact exec_limiterOf (fun _ hw => (hs.building hfound hw).2) hexec stream
  | @raised id input kind w rest left shared hfound _ hexec =>
    apply hquiet (ran_raises hfound hexec)
    have hkept := exec_raises_limiterOf (fun _ hw => (hs.building hfound hw).2) hexec
    rw [← hkept]
    exact limiterOf_congr (fail_calls id kind (w :: rest) (left ++ rest) _).2.2.2.2
  | @cancelled id kind w rest =>
    apply hquiet rfl
    exact limiterOf_congr (fail_calls id kind (w :: rest) (w :: rest) s).2.2.2.2
  | reducerTimer _ hp =>
    apply hquiet rfl
    rw [shared_spawn]
    refine limiterOf_keep hp ?_
    rfl
  | collectorTimer _ _ hp _ hbatch =>
    apply hquiet rfl
    obtain ⟨rfl, _⟩ := collectorBatch_next hbatch
    rw [shared_spawn]
    refine limiterOf_keep hp ?_
    rfl
  | answered =>
    apply hquiet rfl
    rw [resolve_eq]
    rfl
  | entered | flushes | exits =>
    apply hquiet rfl
    rw [shared_spawn]
  | overrun _ _ hp _ hbatch =>
    apply hquiet rfl
    obtain ⟨rfl, _⟩ := collectorBatch_raises hbatch
    refine limiterOf_keep hp ?_
    rfl
  | refused | stopped => exact hquiet rfl rfl

end Limiters

/-! ## What the Limiters let through -/

/-- What a frame lets through on the tokens of a shard. -/
def Work.tolls (sys : System) (input : Input) (s : Shared) : Work → List (String × Limiter.Toll)
  | .limiterPut stream batch =>
    (Limiter.putTolls sys.cfg.limiter input.put batch (s.limiterOf stream)).map fun toll =>
      (stream, toll)
  | .drainTick stream =>
    (Limiter.tickTolls input.drain (s.limiterOf stream)).map fun toll => (stream, toll)
  | _ => []

/-- What a frame lets through without tokens. -/
def Work.forces (input : Input) (s : Shared) : Work → List (String × AggregatedBatch)
  | .flushLimiter stream =>
    ((Limiter.flush (fun key => (input.drain key).now) (s.limiterOf stream)).2.flatMap
      Limiter.Drained.admitted).map fun b => (stream, b)
  | _ => []

/-- What a frame puts into the Collector. -/
def Work.admits : Work → List (String × AggregatedBatch)
  | .limiterAdmit stream batch => [(stream, batch)]
  | _ => []

/-- The batch of a toll, on its stream. -/
def tollBatch (toll : String × Limiter.Toll) : String × AggregatedBatch := (toll.1, toll.2.2.batch)

/-- A producer with the latest reading of its clock, what its Limiters have let through on
    tokens and by flushes, and what its Collectors have taken in. -/
structure Tolled where
  producer : State
  clock : Time
  passed : List (String × Limiter.Toll) := []
  forced : List (String × AggregatedBatch) := []
  collected : List (String × AggregatedBatch) := []

def Tolled.note (sys : System) (input : Input) (w : Work) (r : Tolled) : Tolled :=
  { r with
    passed := r.passed ++ w.tolls sys input r.producer.shared
    forced := r.forced ++ w.forces input r.producer.shared
    collected := r.collected ++ w.admits }

/-- A step, with a time that is no earlier than any reading in it. -/
def Tolled.step (sys : System) (r : Tolled) (op : Op × Time) : Option Tolled :=
  (r.producer.step sys op.1).map fun producer =>
    let noted := match r.producer.ran sys op.1 with
      | none => r
      | some (input, w) => r.note sys input w
    { noted with producer, clock := op.2 }

def Tolled.start (sys : System) (r : Tolled) : Prop :=
  ∃ now, r =
    { producer := { shared := { permits := sys.cfg.maxOutstandingRecords } }, clock := now }

/-- The readings of a frame that takes tokens lie between two times. -/
def Work.onTime (input : Input) (clock finish : Time) : Work → Prop
  | .limiterPut _ _ => clock ≤ input.put.created ∧ input.put.created ≤ input.put.now ∧
      input.put.toReadings.Ordered clock finish
  | .drainTick _ => ∀ key, (input.drain key).Ordered clock finish
  | _ => True

/-- The clock never goes back. -/
def Tolled.onTime (sys : System) (r : Tolled) (op : Op × Time) : Prop :=
  r.clock ≤ op.2 ∧ ∀ input w, r.producer.ran sys op.1 = some (input, w) →
    w.onTime input r.clock op.2

section Tolls

variable {sys : System} {input : Input} {id : Nat} {s s' : Shared} {w : Work} {push : List Work}
  {spawn : Option Task}

/-- Frames that put nothing into a Collector. -/
theorem load_admits {x : String × AggregatedBatch} {work : List Work}
    (h : ∀ v ∈ work, v.admits = []) : load (fun v => v.admits.count x) work = 0 := by
  apply List.sum_eq_zero
  intro n hn
  obtain ⟨v, hv, rfl⟩ := List.mem_map.mp hn
  simp only [h v hv, List.count_nil]

theorem load_admits_map {α : Type} {x : String × AggregatedBatch} {frame : α → Work}
    (h : ∀ a, (frame a).admits = []) (xs : List α) :
    load (fun v => v.admits.count x) (xs.map frame) = 0 := by
  apply load_admits
  intro v hv
  obtain ⟨a, _, rfl⟩ := List.mem_map.mp hv
  exact h a

/-- What a drain admits goes to the Collector. -/
theorem load_admits_dispatch (x : String × AggregatedBatch) (stream : String)
    (drained : Limiter.Drained) : load (fun v => v.admits.count x) (dispatch stream drained) =
      (drained.admitted.map fun b => (stream, b)).count x := by
  rw [dispatch, load_append, load_admits_map (fun _ => rfl), zero_add]
  induction drained.admitted with
  | nil => rfl
  | cons b bs ih =>
    rw [List.map_cons, load_cons, ih, List.map_cons, List.count_cons, Work.admits,
      List.count_singleton, Nat.add_comm]

theorem load_admits_dispatchAll (x : String × AggregatedBatch) (stream : String)
    (drained : List Limiter.Drained) :
    load (fun v => v.admits.count x) (drained.flatMap (dispatch stream)) =
      ((drained.flatMap Limiter.Drained.admitted).map fun b => (stream, b)).count x := by
  induction drained with
  | nil => rfl
  | cons d ds ih =>
    rw [List.flatMap_cons, load_append, load_admits_dispatch, ih, List.flatMap_cons,
      List.map_append, List.count_append]

theorem load_admits_collectorBatch {x : String × AggregatedBatch} {stream : String}
    {closed : Option PutRecordsBatch} (h : collectorBatch stream closed s = .next s' push spawn) :
    load (fun v => v.admits.count x) push +
      load (fun v => v.admits.count x) (spawn.toList.flatMap Task.work) = 0 := by
  cases closed with
  | none =>
    obtain ⟨_, rfl, rfl⟩ := (Ran.next.injEq ..).mp h
    rfl
  | some batch =>
    simp only [collectorBatch] at h
    split at h
    · obtain ⟨_, rfl, rfl⟩ := (Ran.next.injEq ..).mp h
      rfl
    · cases h

theorem load_admits_submit {x : String × AggregatedBatch} {call : PutCall} {p : Pipeline}
    (h : submit sys input call p s = .next s' push spawn) :
    load (fun v => v.admits.count x) push +
      load (fun v => v.admits.count x) (spawn.toList.flatMap Task.work) = 0 := by
  unfold submit at h
  split at h
  · cases h
  · obtain ⟨_, rfl, rfl⟩ := (Ran.next.injEq ..).mp h
    rfl

/-- **What a frame sends to the Collector** is what it lets through. -/
theorem exec_admits (h : exec sys input id s w = some (.next s' push spawn))
    (x : String × AggregatedBatch) :
    load (fun v => v.admits.count x) push +
        load (fun v => v.admits.count x) (spawn.toList.flatMap Task.work) =
      ((w.tolls sys input s).map tollBatch).count x + (w.forces input s).count x := by
  cases exec_runs h with
  | @limiterPut stream batch p hp =>
    have hspawn : load (fun v => v.admits.count x)
        ((if (Limiter.put sys.cfg.limiter input.put batch p.limiter).2.2 then
          some ({ kind := .drain stream, work := [.drainTick stream] } : Task)
            else none).toList.flatMap Task.work) = 0 := by
      split <;> rfl
    have hbatches : ((Work.limiterPut stream batch).tolls sys input s).map tollBatch =
        (Limiter.put sys.cfg.limiter input.put batch p.limiter).2.1.admitted.map fun b =>
          (stream, b) := by
      rw [Work.tolls, limiterOf_of_get? hp, ← Limiter.putTolls_batches, List.map_map, List.map_map]
      rfl
    rw [load_admits_dispatch, hspawn, hbatches]
    rfl
  | @drainTick stream p hp =>
    have hbatches : ((Work.drainTick stream).tolls sys input s).map tollBatch =
        ((Limiter.drainAll input.drain p.limiter).2.flatMap Limiter.Drained.admitted).map fun b =>
          (stream, b) := by
      rw [Work.tolls, limiterOf_of_get? hp, ← Limiter.tickTolls_batches, List.map_map, List.map_map]
      rfl
    rw [load_append, load_admits_dispatchAll, hbatches]
    rfl
  | @flushLimiter stream p hp =>
    rw [load_admits_dispatchAll, Work.forces, limiterOf_of_get? hp]
    exact (Nat.zero_add _).symm
  | getPipeline _ _ hsubmit | buildPipeline hsubmit => exact load_admits_submit hsubmit
  | limiterAdmit _ hbatch | flushCollector _ hbatch => exact load_admits_collectorBatch hbatch
  | reducerAdd | reducerForgotten | flushReducer =>
    exact load_admits_map (fun _ => rfl) _
  | limiterExpired | flushAggregator => exact load_admits_map (fun _ => rfl) _
  | inFlight =>
    rw [handling, load_append, load_admits_map fun _ => rfl, load_admits_map fun _ => rfl]
    rfl
  | flushPipelines =>
    exact load_admits (forall_flushPipelines (fun _ _ => ⟨rfl, rfl, rfl⟩) rfl)
  | @leaveContext context =>
    cases context <;> rfl
  | _ => rfl

/-- **What a step sends to the Collectors.** -/
theorem step_admits {s s' : State} {op : Op} (hs : Sound s) (hstep : s.step sys op = some s')
    (x : String × AggregatedBatch) :
    (s.ran sys op = none →
        s'.weigh (fun v => v.admits.count x) ≤ s.weigh fun v => v.admits.count x) ∧
      ∀ input w, s.ran sys op = some (input, w) →
        s'.weigh (fun v => v.admits.count x) + w.admits.count x =
          s.weigh (fun v => v.admits.count x) +
            (((w.tolls sys input s.shared).map tollBatch).count x +
              (w.forces input s.shared).count x) := by
  have hquiet : ∀ {weight : ℕ}, s.ran sys op = none →
      weight ≤ s.weigh (fun v => v.admits.count x) →
      (s.ran sys op = none → weight ≤ s.weigh fun v => v.admits.count x) ∧
        ∀ input w, s.ran sys op = some (input, w) → weight + w.admits.count x =
          s.weigh (fun v => v.admits.count x) +
            (((w.tolls sys input s.shared).map tollBatch).count x +
              (w.forces input s.shared).count x) := by
    intro weight hran hle
    refine ⟨fun _ => hle, ?_⟩
    intro input w hsome
    rw [hran] at hsome
    cases hsome
  have hfresh := (hs.fresh s.nextTask le_rfl).1
  cases (step_turn hstep).2 with
  | @ran id input kind w rest push shared spawn hfound _ hexec =>
    refine ⟨fun hnone => ?_, fun input' w' hsome => ?_⟩
    · rw [ran_next hfound hexec] at hnone
      cases hnone
    · rw [ran_next hfound hexec] at hsome
      obtain ⟨rfl, rfl⟩ := Prod.mk.inj (Option.some.inj hsome)
      rw [weigh_ran sys hs hfound, ← exec_admits hexec x]
      exact Nat.add_assoc ..
  | @raised id input kind w rest left shared hfound _ hexec =>
    apply hquiet (ran_raises hfound hexec)
    have hfail := weigh_fail (s := { s with shared }) hfound (fun v => v.admits.count x)
      (left ++ rest)
    have hsame : State.weigh (fun v => v.admits.count x) { s with shared } =
        s.weigh fun v => v.admits.count x := rfl
    omega
  | @cancelled id kind w rest hfound hkind =>
    apply hquiet rfl
    have hfail := weigh_fail hfound (fun v => v.admits.count x) (w :: rest)
    omega
  | entered | flushes =>
    apply hquiet rfl
    rw [weigh_spawn hfresh]
    exact le_rfl
  | exits =>
    apply hquiet rfl
    have hspawned := weigh_spawn (s := { s with exiting := true }) hfresh
      (fun v => v.admits.count x)
      (some { kind := .exit, work := [.flushPipelines, .unwind] })
    exact hspawned.le
  | @reducerTimer stream shardKey op p aggregator closed _ hp =>
    apply hquiet rfl
    have hspawned := weigh_spawn (s := { s with
      shared := s.shared.setPipeline stream { p with aggregator } }) hfresh
      (fun v => v.admits.count x) (timerTask stream shardKey op closed)
    have htask : load (fun v => v.admits.count x)
        ((timerTask stream shardKey op closed).toList.flatMap Task.work) = 0 := by
      unfold timerTask
      split <;> rfl
    rw [htask] at hspawned
    exact hspawned.le
  | @collectorTimer stream op p collector closed shared push spawn _ _ hp _ hbatch =>
    apply hquiet rfl
    have hspawned := weigh_spawn (s := { s with shared }) hfresh (fun v => v.admits.count x) spawn
    have hnone := load_admits_collectorBatch (x := x) hbatch
    rw [(Nat.add_eq_zero_iff.mp hnone).2] at hspawned
    exact hspawned.le
  | @stopped id stream work p hfound =>
    apply hquiet rfl
    have herase := Dict.total_of_get? (fun _ t => load (fun v => v.admits.count x) t.work) hfound
    simp only [State.weigh, herase]
    omega
  | refused | overrun | answered => exact hquiet rfl le_rfl

end Tolls

/-! ## Whole runs -/

/-- Each shard of each stream is paced, and nothing is or will be in a Collector that was
    not let through. -/
structure Tolled.Metered (sys : System) (r : Tolled) : Prop where
  sound : Sound r.producer
  paced : ∀ stream, Limiter.Paced sys.cfg.limiter.recordsPerSecPerShard
    sys.cfg.limiter.bytesPerSecPerShard r.clock (under stream r.passed)
    (r.producer.shared.limiterOf stream)
  gated : ∀ x, r.collected.count x + r.producer.weigh (fun v => v.admits.count x) ≤
    (r.passed.map tollBatch).count x + r.forced.count x

section Runs

variable {sys : System} {r r' : Tolled} {input : Input} {w : Work}

theorem Tolled.start_metered (h : Tolled.start sys r) : r.Metered sys := by
  obtain ⟨now, rfl⟩ := h
  exact ⟨start_sound rfl, fun _ => Limiter.paced_empty _ _ _, fun _ => le_rfl⟩

/-- **A frame** keeps the Limiter of every stream paced. -/
theorem paced_limiterAfter (hrecords : 0 ≤ sys.cfg.limiter.recordsPerSecPerShard)
    (hbytes : 0 ≤ sys.cfg.limiter.bytesPerSecPerShard) {s : Shared} {clock finish : Time}
    {passed : List (String × Limiter.Toll)} {stream : String}
    (h : Limiter.Paced sys.cfg.limiter.recordsPerSecPerShard
      sys.cfg.limiter.bytesPerSecPerShard clock (under stream passed) (s.limiterOf stream))
    (hle : clock ≤ finish) (htime : w.onTime input clock finish) :
    Limiter.Paced sys.cfg.limiter.recordsPerSecPerShard sys.cfg.limiter.bytesPerSecPerShard finish
      (under stream (passed ++ w.tolls sys input s)) (w.limiterAfter sys input s stream) := by
  rw [under_append]
  cases w with
  | limiterPut stream' batch =>
    obtain ⟨hcreated, hnow, hordered⟩ := htime
    by_cases hsame : stream' = stream
    · subst hsame
      have hput := h.put hrecords hbytes hcreated hnow hordered batch
      rw [Work.tolls, under_map_self]
      simpa [Work.limiterAfter, Work.limiterMove] using hput
    · have hne : stream ≠ stream' := fun heq => hsame heq.symm
      rw [Work.tolls, under_map_ne hsame, List.append_nil]
      simpa [Work.limiterAfter, Work.limiterMove, hne] using h.advance hle
  | drainTick stream' =>
    by_cases hsame : stream' = stream
    · subst hsame
      have htick := h.tick htime
      rw [Work.tolls, under_map_self]
      simpa [Work.limiterAfter, Work.limiterMove] using htick
    · have hne : stream ≠ stream' := fun heq => hsame heq.symm
      rw [Work.tolls, under_map_ne hsame, List.append_nil]
      simpa [Work.limiterAfter, Work.limiterMove, hne] using h.advance hle
  | flushLimiter stream' =>
    have hflushed := (h.advance hle).flush fun key => (input.drain key).now
    have hnone : under stream ((Work.flushLimiter stream').tolls sys input s) = [] := rfl
    rw [hnone, List.append_nil]
    simp only [Work.limiterAfter, Work.limiterMove]
    split
    · exact hflushed
    · exact h.advance hle
  | closeLimiter stream' =>
    have hlater := h.advance hle
    have hnone : under stream ((Work.closeLimiter stream').tolls sys input s) = [] := rfl
    rw [hnone, List.append_nil]
    simp only [Work.limiterAfter, Work.limiterMove]
    split
    · exact ⟨hlater.held, hlater.fresh⟩
    · exact hlater
  | _ =>
    have hlater := h.advance hle
    simpa [Work.tolls, under, Work.limiterAfter, Work.limiterMove] using hlater

theorem Tolled.Metered.step (hrecords : 0 ≤ sys.cfg.limiter.recordsPerSecPerShard)
    (hbytes : 0 ≤ sys.cfg.limiter.bytesPerSecPerShard) (h : r.Metered sys) {op : Op × Time}
    (hop : r.onTime sys op) (hstep : r.step sys op = some r') : r'.Metered sys := by
  obtain ⟨hle, htime⟩ := hop
  obtain ⟨producer, hproducer, rfl⟩ := Option.map_eq_some_iff.mp hstep
  obtain ⟨hquiet, hmoved⟩ := step_limiterOf h.sound hproducer
  have hsound := h.sound.step hproducer
  cases hran : r.producer.ran sys op.1 with
  | none =>
    refine ⟨hsound, fun stream => ?_, fun x => ?_⟩
    · rw [hquiet hran]
      exact (h.paced stream).advance hle
    · exact (Nat.add_le_add_left ((step_admits h.sound hproducer x).1 hran) _).trans (h.gated x)
  | some ran =>
    obtain ⟨input, w⟩ := ran
    refine ⟨hsound, fun stream => ?_, fun x => ?_⟩
    · rw [hmoved input w hran stream]
      exact paced_limiterAfter hrecords hbytes (h.paced stream) hle (htime input w hran)
    · have hgated := h.gated x
      have hadmits := (step_admits h.sound hproducer x).2 input w hran
      simp only [Tolled.note, List.map_append, List.count_append]
      omega

theorem Tolled.reachable_metered (hrecords : 0 ≤ sys.cfg.limiter.recordsPerSecPerShard)
    (hbytes : 0 ≤ sys.cfg.limiter.bytesPerSecPerShard)
    (h : Reachable (Tolled.start sys) (Tolled.step sys) (Tolled.onTime sys) r) : r.Metered sys :=
  h.invariant (fun _ => Tolled.start_metered) fun _ _ _ hinv hop hstep =>
    hinv.step hrecords hbytes hop hstep

/-- What a shard of a stream has let through on its tokens. -/
def Tolled.passedBy (r : Tolled) (stream : String)
    (key : Option ShardId) : List Limiter.Admission :=
  under key (under stream r.passed)

/-- **The rates of a producer.**  In every run, whatever its tasks, its timers and its
    flushes do between the drains, each shard of each stream lets through on its tokens, in
    any window of time, at most `R` batches plus `R` for each second and at most `B` bytes
    plus `B` for each second; and a Collector takes in no batch more often than it was let
    through, on tokens or by a flush. -/
theorem every_shard_keeps_its_rates (sys : System)
    (hrecords : 0 ≤ sys.cfg.limiter.recordsPerSecPerShard)
    (hbytes : 0 ≤ sys.cfg.limiter.bytesPerSecPerShard) {r : Tolled}
    (h : Reachable (Tolled.start sys) (Tolled.step sys) (Tolled.onTime sys) r) :
    (∀ stream key t₁ t₂, t₁ ≤ t₂ →
      (((r.passedBy stream key).filter fun a => t₁ ≤ a.recordsAt ∧ a.recordsAt ≤ t₂).length : ℚ) ≤
          sys.cfg.limiter.recordsPerSecPerShard +
            sys.cfg.limiter.recordsPerSecPerShard * (t₂ - t₁) ∧
        (((r.passedBy stream key).filter fun a => t₁ ≤ a.bytesAt ∧ a.bytesAt ≤ t₂).map
          fun a => (a.batch.size : ℚ)).sum ≤
            sys.cfg.limiter.bytesPerSecPerShard +
              sys.cfg.limiter.bytesPerSecPerShard * (t₂ - t₁)) ∧
      ∀ stream batch, r.collected.count (stream, batch) ≤
        (r.passed.map tollBatch).count (stream, batch) + r.forced.count (stream, batch) := by
  have hmetered := Tolled.reachable_metered hrecords hbytes h
  refine ⟨fun stream key t₁ t₂ hle => ?_, fun stream batch => ?_⟩
  · exact (hmetered.paced stream).envelope hrecords hbytes key hle
  · exact (Nat.le_add_right _ _).trans (hmetered.gated (stream, batch))

/-! ### Two batches for one token a second -/

/-- Every reading of the step is `t`. -/
def Op.at (t : Time) : Op → Op
  | .run id input => .run id
    { input with
      now := t
      put := { Limiter.readingsAt t with created := t, enqueued := t }
      drain := fun _ => Limiter.readingsAt t }
  | op => op

theorem onTime_at {op : Op} {t : Time} (hle : r.clock ≤ t) : r.onTime sys (op.at t, t) := by
  have hordered := Limiter.readingsAt_ordered hle
  refine ⟨hle, fun input w hran => ?_⟩
  cases op with
  | run id input' =>
    simp only [State.ran, Op.at, Option.bind_eq_bind, Option.bind_eq_some_iff] at hran
    obtain ⟨_, _, w', _, ran, _, hran⟩ := hran
    cases ran with
    | raises => cases hran
    | next =>
      obtain ⟨rfl, rfl⟩ := Prod.mk.inj (Option.some.inj hran)
      cases w' with
      | limiterPut => exact ⟨hle, le_rfl, hordered⟩
      | drainTick => exact fun _ => hordered
      | _ => trivial
  | _ => cases hran

def Tolled.stepAt (sys : System) (r : Tolled) (op : Op × Time) : Option Tolled :=
  r.step sys (op.1.at op.2, op.2)

theorem Tolled.reachable_at
    (h : Reachable (Tolled.start sys) (Tolled.stepAt sys) (fun r op => r.clock ≤ op.2) r) :
    Reachable (Tolled.start sys) (Tolled.step sys) (Tolled.onTime sys) r :=
  h.invariant (fun _ => .start) fun _ _ _ hreach hle hstep => hreach.next (onTime_at hle) hstep

/-- A batch for each record, and one record a second. -/
def narrow : System :=
  { oneStream with cfg := { aggregationEnabled := false, rateLimitRecordsPerSecPerShard := 1 } }

/-- Two records are put; the second waits for the tick of the drain task. -/
def twoForOne : List (Op × Time) :=
  ((.putRecord "a" { partitionKey := "p", data := [7] }, 0) :: List.replicate 8 (.run 0 {}, 0)) ++
    ((.putRecord "a" { partitionKey := "q", data := [8] }, 0) :: List.replicate 6 (.run 2 {}, 0)) ++
    [(.run 1 {}, 1 / 2), (.run 1 {}, 1), (.run 1 {}, 1)]

theorem every_shard_keeps_its_rates_two :
    ∃ r, Reachable (Tolled.start narrow) (Tolled.step narrow) (Tolled.onTime narrow) r ∧
      (r.passedBy "a" none).map Limiter.Admission.recordsAt = [0, 1] ∧
      (((r.passedBy "a" none).filter fun a => 0 ≤ a.recordsAt ∧ a.recordsAt ≤ 1).length : ℚ) ≤
        1 + 1 * (1 - 0) := by
  have hrun : (Lib.exec (Tolled.stepAt narrow) (fun r op => r.clock ≤ op.2)
      { producer := { shared := { permits := narrow.cfg.maxOutstandingRecords } }, clock := 0 }
      twoForOne).map (fun r => decide ((r.passedBy "a" none).map Limiter.Admission.recordsAt =
        [0, 1])) = some true := by
    decide +kernel
  obtain ⟨r, hexec, hout⟩ := Option.map_eq_some_iff.mp hrun
  have hreach := Tolled.reachable_at (Reachable.exec (.start ⟨0, rfl⟩) hexec)
  have hrates := every_shard_keeps_its_rates narrow (by decide) (by decide) hreach
  exact ⟨r, hreach, of_decide_eq_true hout, (hrates.1 "a" none 0 1 zero_le_one).1⟩

end Runs

end Producer

end Aiokpl
