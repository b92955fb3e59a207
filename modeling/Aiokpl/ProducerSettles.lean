import Aiokpl.Lib.Settling
import Aiokpl.ProducerEffort

/-!
# A producer comes to rest

The steps that a producer takes by itself are those of its tasks and timers.  Past the
TTL of all that is judged they come to an end, whatever their order and whatever the
service replies, and where no step is left every record has finished or has been dropped.
-/

namespace Aiokpl

open Lib Aggregation

namespace Producer

/-! ## The producer's own steps -/

/-- The first frame of the task that the step runs, and what it reads. -/
def State.runs (s : State) : Op → Option (Input × Work)
  | .run id input => do
    let t ← s.tasks.get? id
    let w ← t.work.head?
    some (input, w)
  | _ => none

/-- A step of a task or of a timer, and no call from outside. -/
def Op.own : Op → Bool
  | .run _ _ => true
  | .reducerTimer _ _ _ => true
  | .collectorTimer _ _ => true
  | _ => false

/-- One of the producer's own steps, past the TTL of the records that it judges, and no
    tick of a drain that finds nothing to hand on. -/
def Works (sys : System) (s s' : State) : Prop :=
  ∃ op, s.step sys op = some s' ∧ op.own = true ∧
    ∀ input w, s.runs op = some (input, w) → w.late sys input ∧ w.busy input s.shared

/-! ## The rank of a state -/

/-- What is left to do in the stages and in the tasks. -/
def State.toil (s : State) : ℕ := s.weigh Work.effort + s.shared.effort

/-- The frames of one level of housekeeping. -/
def State.chores (level : ℕ) (s : State) : ℕ :=
  s.weigh fun w => if w.level = level then 1 else 0

/-- A crash ends all; then the effort counts, and then the housekeeping from its highest
    level down. -/
def State.rank (s : State) : ℕ ×ₗ ℕ ×ₗ ℕ ×ₗ ℕ ×ₗ ℕ :=
  toLex (if s.crashed then 0 else 1,
    toLex (s.toil, toLex (s.chores 3, toLex (s.chores 2, s.chores 1))))

theorem Work.level_le (w : Work) : w.level ≤ 3 := by
  cases w <;> simp [Work.level]

theorem rank_lt_of_crash {s s' : State} (hcrashed : s.crashed = false)
    (hcrashed' : s'.crashed = true) : s'.rank < s.rank := by
  simp [State.rank, Prod.Lex.toLex_lt_toLex, hcrashed, hcrashed']

theorem rank_lt_of_toil {s s' : State} (hcrashed : s'.crashed = s.crashed)
    (h : s'.toil < s.toil) : s'.rank < s.rank := by
  simp [State.rank, Prod.Lex.toLex_lt_toLex, hcrashed, h]

/-- A frame of some level is gone, and no frame of its level or above has come. -/
theorem rank_lt_of_chores {s s' : State} (hcrashed : s'.crashed = s.crashed)
    (htoil : s'.toil ≤ s.toil) {w : Work} (hw : 0 < w.level)
    (hchores : ∀ level, w.level ≤ level →
      s'.chores level + (if w.level = level then 1 else 0) ≤ s.chores level) :
    s'.rank < s.rank := by
  have hle := w.level_le
  have hthree := hchores 3 hle
  simp only [State.rank, Prod.Lex.toLex_lt_toLex, hcrashed, true_and, lt_self_iff_false, false_or]
  obtain hlevel | hlevel | hlevel : w.level = 1 ∨ w.level = 2 ∨ w.level = 3 := by omega
  · have htwo := hchores 2 (by omega)
    have hone := hchores 1 (by omega)
    rw [hlevel] at hone htwo hthree
    simp only [OfNat.one_ne_ofNat, if_false, if_true] at hone htwo hthree
    omega
  · have htwo := hchores 2 (by omega)
    rw [hlevel] at htwo hthree
    simp only [Nat.reduceEqDiff, if_false, if_true] at htwo hthree
    omega
  · rw [hlevel] at hthree
    simp only [if_true] at hthree
    omega

section Steps

variable {sys : System} {s s' : State} {op : Op}

/-- A frame has made way for what it leaves to do. -/
theorem rank_lt_of_eases (hcrashed : s'.crashed = s.crashed) {w : Work} {shared : Shared}
    {after : List Work} (heases : Eases s.shared w shared after)
    (heffort : s'.shared.effort ≤ shared.effort)
    (hweigh : ∀ weight : Work → ℕ,
      s'.weigh weight + weight w ≤ s.weigh weight + load weight after) :
    s'.rank < s.rank := by
  have hload := hweigh Work.effort
  rcases heases with hless | ⟨hle, hlevel, hbelow⟩
  · apply rank_lt_of_toil hcrashed
    unfold State.toil
    omega
  · have htoil : s'.toil ≤ s.toil := by
      unfold State.toil
      omega
    refine rank_lt_of_chores hcrashed htoil hlevel fun level hup => ?_
    have hnone : load (fun v => if v.level = level then 1 else 0) after = 0 := by
      apply List.sum_eq_zero
      intro n hn
      obtain ⟨v, hv, rfl⟩ := List.mem_map.mp hn
      have hv := hbelow v hv
      exact if_neg (by omega)
    have hchores := hweigh fun v => if v.level = level then 1 else 0
    rwa [hnone] at hchores

/-! ## What a step leaves -/

/-- The end of a timer task costs nothing. -/
theorem endReducerTimer_effort {shared : Shared} (harmed : shared.Obeys (arming sys.cfg))
    (stream : String) (shardKey : Option ShardId) (scope : Nat) :
    (endReducerTimer sys.cfg.aggregator stream shardKey scope shared).effort ≤ shared.effort := by
  unfold endReducerTimer
  split
  · exact le_rfl
  · rename_i p hp
    split
    · exact le_rfl
    · rename_i aggregator closed hend
      have hcost := aggregator_cost (harmed stream p hp).reducers (by simp) hend stream
      have hkeeps := hcost.keeps rfl
      have hstage := Shared.effort_setAggregator hp aggregator
      simp only [Pipeline.effort] at hstage
      simp only [aggregatorEffort] at hkeeps
      omega

theorem goOn_effort (harmed : s.shared.Obeys (arming sys.cfg)) (id : Nat) (kind : TaskKind)
    (work : List Work) : (s.goOn sys id kind work).shared.effort ≤ s.shared.effort := by
  unfold State.goOn
  split
  · cases kind with
    | reducerTimer stream shardKey scope =>
      exact endReducerTimer_effort harmed stream shardKey scope
    | putRecord | flush | exit | drain stream | send => exact le_rfl
  · exact le_rfl

theorem obeys_arming (w : Work) : w.Obeys (arming sys.cfg) := by
  cases w <;> exact trivial

/-- A frame runs. -/
theorem ran_falls (hs : Sound s) (harmed : s.shared.Obeys (arming sys.cfg)) {id : Nat}
    {input : Input} {kind : TaskKind} {w : Work} {rest push : List Work} {shared : Shared}
    {spawn : Option Task} (hfound : s.tasks.get? id = some { kind, work := w :: rest })
    (hexec : exec sys input id s.shared w = some (.next shared push spawn))
    (hlate : w.late sys input) (hbusy : w.busy input s.shared) :
    (({ s with shared }.goOn sys id kind (push ++ rest)).spawn spawn).rank < s.rank := by
  apply rank_lt_of_eases _ (exec_eases harmed hlate hbusy hexec)
  · rw [shared_spawn]
    apply goOn_effort
    exact (exec_kept harmed (obeys_arming w) hexec).stages
  · intro weight
    rw [weigh_ran sys hs hfound, load_append, add_assoc]
  · simp

/-- A frame raises. -/
theorem raised_falls (hcrashed : s.crashed = false) (harmed : s.shared.Obeys (arming sys.cfg))
    {id : Nat} {input : Input} {kind : TaskKind} {w : Work} {rest left : List Work}
    {shared : Shared}
    (hfound : s.tasks.get? id = some { kind, work := w :: rest })
    (hexec : exec sys input id s.shared w = some (.raises shared left)) :
    ({ s with shared }.fail id { kind, work := w :: rest } (left ++ rest)).rank < s.rank := by
  by_cases hcall : kind = .putRecord ∨ kind = .flush
  · apply rank_lt_of_eases _ (exec_raises_eases harmed hexec)
    · apply le_of_eq
      rcases hcall with rfl | rfl
      · cases hphase : putPhase (w :: rest) <;> simp only [State.fail, rollBack, hphase] <;> rfl
      · rfl
    · intro weight
      have hfail := weigh_fail (s := { s with shared }) hfound weight (left ++ rest)
      have hsame : State.weigh weight { s with shared } = s.weigh weight := rfl
      rw [load_cons] at hfail
      rw [load_nil]
      omega
    · rcases hcall with rfl | rfl <;> rfl
  · apply rank_lt_of_crash hcrashed
    cases kind with
    | putRecord | flush => simp at hcall
    | exit | reducerTimer _ _ _ | drain _ | send => rfl

/-- A timer task goes on, and starts what it hands its batch to. -/
theorem rank_lt_of_timer (hs : Sound s) {shared : Shared} {spawn : Option Task}
    (h : shared.effort + load Work.effort (spawn.toList.flatMap Task.work) < s.shared.effort) :
    (State.spawn spawn { s with shared }).rank < s.rank := by
  have hweigh := weigh_spawn (s := { s with shared }) (hs.fresh _ le_rfl).1 Work.effort spawn
  have hsame : State.weigh Work.effort { s with shared } = s.weigh Work.effort := rfl
  apply rank_lt_of_toil
  · exact crashed_spawn spawn { s with shared }
  · unfold State.toil
    rw [hweigh, hsame, shared_spawn]
    dsimp only
    omega

theorem load_timerTask_le (stream : String) (shardKey : Option ShardId)
    (op : Reducer.Op BufferedRecord) (closed : Option AggregatedBatch) :
    load Work.effort ((timerTask stream shardKey op closed).toList.flatMap Task.work) ≤
      load Work.effort (toLimiter stream closed) := by
  unfold timerTask
  split
  · exact le_rfl
  · exact Nat.zero_le _

theorem reducerTimer_falls (hs : Sound s) (harmed : s.shared.Obeys (arming sys.cfg))
    {stream : String} {shardKey : Option ShardId} {op : Reducer.Op BufferedRecord} {p : Pipeline}
    {aggregator : Aggregator.State} {closed : Option AggregatedBatch} (htimer : timerOp op = true)
    (hp : s.shared.pipelines.get? stream = some p)
    (hreducer : Aggregator.onReducer sys.cfg.aggregator shardKey op p.aggregator =
      some (aggregator, closed)) :
    State.rank ({ s with shared := s.shared.setPipeline stream { p with aggregator } }.spawn
      (timerTask stream shardKey op closed)) < s.rank := by
  have hop : op ≠ .aclose ∧ op.adds = [] ∧ op.isTimer = true := by
    cases op <;> simp [timerOp, Reducer.Op.adds, Reducer.Op.isTimer] at htimer ⊢
  have hcost := aggregator_cost (harmed stream p hp).reducers hop.1 hreducer stream
  have hdrops := hcost.drops hop.2.1 hop.2.2
  have hstage := Shared.effort_setAggregator hp aggregator
  have htask := load_timerTask_le stream shardKey op closed
  apply rank_lt_of_timer hs
  simp only [Pipeline.effort, aggregatorEffort] at hstage hdrops
  omega

/-- The Collector's timer tasks take no record in. -/
theorem isTimer_of_collectorTimer {stream : String} {op : Reducer.Op AggregatedBatch}
    (h : s.step sys (.collectorTimer stream op) = some s') : op.isTimer = true := by
  cases op with
  | add | flush | aclose =>
    simp only [State.step, Option.ite_none_left_eq_some, Option.bind_eq_bind,
      Option.bind_eq_some_iff, reduceCtorEq, and_false, exists_false] at h
  | wake | fire | dispatched | cancelled => rfl

theorem collectorTimer_falls (hs : Sound s) (harmed : s.shared.Obeys (arming sys.cfg))
    {stream : String} {op : Reducer.Op AggregatedBatch} {p : Pipeline}
    {collector : Reducer.State PutRecordsBatch} {closed : Option PutRecordsBatch} {shared : Shared}
    {push : List Work} {spawn : Option Task} (hadds : op.adds = []) (hop : op ≠ .aclose)
    (htimer : op.isTimer = true) (hp : s.shared.pipelines.get? stream = some p)
    (hstep : Reducer.step sys.cfg.collector.reducer p.collector op = some (collector, closed))
    (hbatch : collectorBatch stream closed (s.shared.setPipeline stream { p with collector }) =
      .next shared push spawn) : (State.spawn spawn { s with shared }).rank < s.rank := by
  have hcost := collector_cost (harmed stream p hp).collector hop hstep
  have hdrops := hcost.drops hadds htimer
  have hstage := collectorBatch_effort hp hbatch
  obtain ⟨_, rfl, _, _⟩ := collectorBatch_next hbatch
  apply rank_lt_of_timer hs
  rw [List.nil_append] at hstage
  omega

theorem runs_of_found {id : Nat} {kind : TaskKind} {w : Work} {rest : List Work}
    (hfound : s.tasks.get? id = some { kind, work := w :: rest }) (input : Input) :
    s.runs (.run id input) = some (input, w) := by
  simp [State.runs, hfound]

/-- **Every step of its own** brings a producer closer to its rest. -/
theorem works_falls (hs : Sound s) (harmed : s.shared.Obeys (arming sys.cfg))
    (h : Works sys s s') : s'.rank < s.rank := by
  obtain ⟨op, hstep, hown, hreads⟩ := h
  obtain ⟨hcrashed, hturn⟩ := step_turn hstep
  cases hturn with
  | ran hfound _ hexec =>
    obtain ⟨hlate, hbusy⟩ := hreads _ _ (runs_of_found hfound _)
    exact ran_falls hs harmed hfound hexec hlate hbusy
  | raised hfound _ hexec => exact raised_falls hcrashed harmed hfound hexec
  | reducerTimer htimer hp hreducer => exact reducerTimer_falls hs harmed htimer hp hreducer
  | collectorTimer hadds hop hp hreducer hbatch =>
    exact collectorTimer_falls hs harmed hadds hop (isTimer_of_collectorTimer hstep) hp hreducer
      hbatch
  | overrun => exact rank_lt_of_crash hcrashed rfl
  | refused | entered | flushes | exits | answered | cancelled | stopped => cases hown

/-! ## There is always a step -/

/-- The Retrier raises at this frame. -/
def Work.unread : Work → Bool
  | .handleRaises _ _ => true
  | _ => false

/-- No task handles a reply that the Retrier cannot read to its end. -/
def State.readable (s : State) : Bool := s.tasks.values.all fun t => t.work.all fun w => !w.unread

theorem readable_iff : s.readable = true ↔
    ∀ id t, s.tasks.get? id = some t → ∀ w ∈ t.work, w.unread = false := by
  simp only [State.readable, List.all_eq_true, Dict.mem_values, Bool.not_eq_true']
  constructor
  · intro h id t ht
    exact h t ⟨id, ht⟩
  · rintro h t ⟨id, ht⟩
    exact h id t ht

/-- The step drops nothing, no exception leaves a background task, and none comes near. -/
structure Calm (s s' : State) : Prop where
  crashed : s'.crashed = s.crashed
  dropped : s'.shared.dropped = s.shared.dropped
  readable : s.readable = true → s'.readable = true

theorem readable_spawn {spawn : Option Task} (h : s.readable = true)
    (hspawn : ∀ t, spawn = some t → ∀ w ∈ t.work, w.unread = false) :
    (s.spawn spawn).readable = true := by
  cases spawn with
  | none => exact h
  | some task =>
    rw [readable_iff] at h ⊢
    intro id t ht
    rw [get?_spawn] at ht
    split at ht
    · obtain rfl := Option.some.inj ht
      exact hspawn task rfl
    · exact h id t ht

theorem readable_goOn {id : Nat} {kind : TaskKind} {work : List Work} (h : s.readable = true)
    (hwork : ∀ w ∈ work, w.unread = false) : (s.goOn sys id kind work).readable = true := by
  rw [readable_iff] at h ⊢
  intro id' t ht
  rw [get?_goOn] at ht
  split at ht
  · split at ht
    · cases ht
    · obtain rfl := Option.some.inj ht
      exact hwork
  · exact h id' t ht

theorem unread_collectorBatch {stream : String} {closed : Option PutRecordsBatch}
    {shared shared' : Shared} {push : List Work} {spawn : Option Task}
    (h : collectorBatch stream closed shared = .next shared' push spawn) :
    (∀ v ∈ push, v.unread = false) ∧ ∀ t, spawn = some t → ∀ v ∈ t.work, v.unread = false := by
  cases closed with
  | none =>
    obtain ⟨_, rfl, rfl⟩ := (Ran.next.injEq ..).mp h
    exact ⟨by simp, by simp⟩
  | some batch =>
    simp only [collectorBatch] at h
    split at h
    · obtain ⟨_, rfl, rfl⟩ := (Ran.next.injEq ..).mp h
      refine ⟨by simp, ?_⟩
      rintro t ⟨⟩
      simp [Work.unread]
    · cases h

theorem unread_submit {input : Input} {call : PutCall} {p : Pipeline} {shared shared' : Shared}
    {push : List Work} {spawn : Option Task}
    (h : submit sys input call p shared = .next shared' push spawn) :
    (∀ v ∈ push, v.unread = false) ∧ ∀ t, spawn = some t → ∀ v ∈ t.work, v.unread = false := by
  unfold submit at h
  split at h
  · cases h
  · obtain ⟨_, rfl, rfl⟩ := (Ran.next.injEq ..).mp h
    exact ⟨by simp [Work.unread], by simp⟩

/-- Where the service refuses a request as a whole, its reply is read. -/
theorem exec_reads {input : Input} {exc : Sender.ClientException} {id : Nat}
    {shared shared' : Shared} {w : Work} {push : List Work} {spawn : Option Task}
    (hreply : input.reply = .raised exc)
    (h : exec sys input id shared w = some (.next shared' push spawn)) :
    (∀ v ∈ push, v.unread = false) ∧ ∀ t, spawn = some t → ∀ v ∈ t.work, v.unread = false := by
  cases exec_runs h with
  | getPipeline _ _ hsubmit => exact unread_submit hsubmit
  | buildPipeline hsubmit => exact unread_submit hsubmit
  | reducerAdd | reducerForgotten | limiterExpired | flushAggregator | flushReducer =>
    exact ⟨List.forall_mem_map.mpr fun _ _ => rfl, by simp⟩
  | @limiterPut stream =>
    refine ⟨forall_dispatch fun _ _ => ⟨rfl, rfl⟩, fun t ht => ?_⟩
    split at ht
    · obtain rfl := Option.some.inj ht
      simp [Work.unread]
    · cases ht
  | limiterAdmit _ hbatch | flushCollector _ hbatch => exact unread_collectorBatch hbatch
  | flushPipelines =>
    exact ⟨forall_flushPipelines (fun _ _ => ⟨rfl, rfl, rfl⟩) rfl, by simp⟩
  | flushLimiter => exact ⟨forall_dispatchAll fun _ _ _ _ => ⟨rfl, rfl⟩, by simp⟩
  | @drainTick stream =>
    refine ⟨List.forall_mem_append.mpr ⟨?_, List.forall_mem_singleton.mpr rfl⟩, by simp⟩
    exact forall_dispatchAll fun _ _ _ _ => ⟨rfl, rfl⟩
  | @inFlight stream startedAt batch outcome handled htrip =>
    obtain ⟨rfl, rfl⟩ := outcome_of_trip htrip
    have hraised : (Retrier.handle sys.u sys.cfg.retrier input.env
        (Sender.outcomeOf stream startedAt input.endedAt batch input.reply)).raised = none := by
      rw [hreply]
      rfl
    rw [handling, hraised, Option.toList_none, List.map_nil, List.append_nil]
    exact ⟨List.forall_mem_map.mpr fun _ _ => rfl, by simp⟩
  | @leaveContext context =>
    refine ⟨?_, by simp⟩
    cases context <;> simp [Context.leave, Work.unread]
  | acquire | resume | building | getReducer | onRetry | send | unwind =>
    exact ⟨by simp [Work.unread], by simp⟩
  | onFinish | invalidate | nothingToFlush | leftContexts | checkpoint | closeCollector
  | closeLimiter | closeAggregator | leaveAggregator | closeClient | awaitCollector | awaitLimiter
  | awaitAggregator | awaitTaskGroup => exact ⟨by simp, by simp⟩

/-- A time past the TTL of all these records. -/
theorem exists_late (ttl : Time) (bs : List BufferedRecord) :
    ∃ now : Time, ∀ b ∈ bs, ttl < now - b.arrivalTime := by
  obtain ⟨latest, hlatest⟩ := (bs.map BufferedRecord.arrivalTime).toFinset.exists_le
  refine ⟨latest + ttl + 1, fun b hb => ?_⟩
  have hle := hlatest b.arrivalTime (List.mem_toFinset.mpr (List.mem_map_of_mem hb))
  linarith

/-- What a frame gives to the Retrier. -/
def Work.judged : Work → List BufferedRecord
  | .limiterExpired _ batch => batch.items
  | .inFlight _ _ batch => Retrier.records batch
  | _ => []

theorem late_of_judged {w : Work} {input : Input}
    (h : Retrier.PastTtl sys.cfg.retrier input.env w.judged) : w.late sys input := by
  cases w with
  | limiterExpired stream batch => exact h
  | inFlight stream startedAt batch => exact h
  | _ => exact trivial

theorem busy_of_begun {w : Work} (hticks : w.ticks = false) (input : Input) (shared : Shared) :
    w.busy input shared := by
  cases w with
  | drainTick stream => cases hticks
  | _ => exact trivial

theorem call?_of_begun {w : Work} (henters : w.enters = false) : w.call? = none := by
  cases w with
  | acquire | resume | getPipeline | buildPipeline | flushPipelines => cases henters
  | _ => rfl

theorem not_building {w : Work} (henters : w.enters = false) :
    ∀ call, w = .buildPipeline call → s.shared.pipelines.get? call.stream = none := by
  rintro call rfl
  cases henters

/-- A request that the service has refused as a whole raises nothing. -/
theorem refused_next {stream : String} {startedAt : Time} {batch : PutRecordsBatch} {id : Nat}
    {input : Input} {exc : Sender.ClientException} (hsealed : SealedRequest sys.cfg batch)
    (hreply : input.reply = .raised exc) :
    ∃ push, exec sys input id s.shared (.inFlight stream startedAt batch) =
      some (.next s.shared push none) := by
  have hlimits := hsealed.withinLimits
  have hne : batch.items ≠ [] := by
    intro hnil
    have hpos := hlimits.nonempty
    simp [PutRecordsBatch.count, hnil] at hpos
  have hfull : ∀ ar ∈ batch.items, ar.items ≠ [] := by
    intro ar har hnil
    have hpos := (hlimits.batches ar har).1
    simp [AggregatedBatch.count, hnil] at hpos
  simp only [exec, Retrier.trip, Sender.send_ok sys.md5 stream startedAt input.endedAt input.reply
    hne hfull]
  rw [hreply]
  exact ⟨_, rfl⟩

/-- What runs a frame of a task that has begun. -/
theorem begun_next (h : Attended sys s) (hcrashed : s.crashed = false) {id : Nat} {kind : TaskKind}
    {w : Work} {rest : List Work} (hfound : s.tasks.get? id = some { kind, work := w :: rest })
    (henters : w.enters = false) (hreads : w.unread = false) {input : Input}
    {exc : Sender.ClientException}
    (hsealed : ∀ stream startedAt batch, w = .inFlight stream startedAt batch →
      SealedRequest sys.cfg batch) (hreply : input.reply = .raised exc) :
    ∃ shared push spawn, exec sys input id s.shared w = some (.next shared push spawn) := by
  have hgrounded := h.running.grounded id _ hfound w List.mem_cons_self
  obtain ⟨_, hruns⟩ := h.canRun hcrashed hfound henters
  obtain ⟨ran, hexec⟩ := Option.isSome_iff_exists.mp (hruns input)
  cases ran with
  | next shared push spawn => exact ⟨shared, push, spawn, hexec⟩
  | raises shared left =>
    obtain ⟨_, ⟨hcall, _⟩ | ⟨howner, _⟩⟩ :=
      exec_raises_stays hgrounded h.running.taskGroup h.running.isOpen (not_building henters) hexec
    · rw [call?_of_begun henters] at hcall
      cases hcall
    · cases w with
      | send stream batch => cases hexec
      | inFlight stream startedAt batch =>
        obtain ⟨push, hnext⟩ := refused_next (s := s) (hsealed stream startedAt batch rfl) hreply
        exact ⟨s.shared, push, none, hnext⟩
      | handleRaises stream records => cases hreads
      | _ => cases howner

/-- Every clock of the Retrier is at `now`, and the service refuses the request. -/
def lateInput (now : Time) (drain : Option ShardId → Limiter.Readings) : Input :=
  { drain
    env := { clock := fun _ => now, seenAt := fun _ => now, hashrange := fun _ _ => none }
    reply := .raised { text := "" } }

/-- Where the Retrier raises, it does so at once. -/
theorem unread_works (hcrashed : s.crashed = false) {id : Nat} {kind : TaskKind} {w : Work}
    {rest : List Work} (hfound : s.tasks.get? id = some { kind, work := w :: rest })
    (hunread : w.unread = true) : ∃ s', Works sys s s' := by
  cases w with
  | handleRaises stream records =>
    have hstep : s.step sys (.run id {}) = some (s.fail id
        { kind, work := .handleRaises stream records :: rest }
        ([.handleRaises stream records] ++ rest)) := by
      have hup : ¬s.crashed = true := by simp [hcrashed]
      rw [State.step, if_neg hup]
      simp only [State.runTask, hfound]
      rfl
    refine ⟨_, _, hstep, rfl, fun input' w' hruns => ?_⟩
    rw [runs_of_found hfound] at hruns
    obtain ⟨rfl, rfl⟩ := Prod.mk.inj (Option.some.inj hruns)
    exact ⟨trivial, trivial⟩
  | _ => cases hunread

/-- **A task that has begun** can go on, past the TTL of what it gives to the Retrier. -/
theorem begun_works (h : Attended sys s) (hcrashed : s.crashed = false) {id : Nat}
    {kind : TaskKind} {w : Work} {rest : List Work}
    (hfound : s.tasks.get? id = some { kind, work := w :: rest }) (henters : w.enters = false)
    (hsealed : ∀ stream startedAt batch, w = .inFlight stream startedAt batch →
      SealedRequest sys.cfg batch) (drain : Option ShardId → Limiter.Readings)
    (hbusy : ∀ input : Input, input.drain = drain → w.busy input s.shared) :
    ∃ s', Works sys s s' ∧ (s.readable = true → Calm s s') := by
  by_cases hunread : w.unread = true
  · obtain ⟨s', hworks⟩ := unread_works hcrashed hfound hunread
    refine ⟨s', hworks, fun hreadable => ?_⟩
    have hread := readable_iff.mp hreadable id _ hfound w List.mem_cons_self
    cases hunread.symm.trans hread
  have hreads : w.unread = false := by simpa using hunread
  obtain ⟨now, hnow⟩ := exists_late sys.cfg.retrier.recordTtl w.judged
  have hreply : (lateInput now drain).reply = .raised { text := "" } := rfl
  obtain ⟨shared, push, spawn, hexec⟩ := begun_next h hcrashed hfound henters hreads hsealed hreply
  have hready := (h.canRun hcrashed hfound henters).1
  have hgrounded := h.running.grounded id _ hfound w List.mem_cons_self
  have hgrows := (exec_next_stays hgrounded (not_building henters) hexec).grows
  have hstep : s.step sys (.run id (lateInput now drain)) =
      some (({ s with shared }.goOn sys id kind (push ++ rest)).spawn spawn) := by
    simp [State.step, hcrashed, State.runTask, hfound, hready, hexec]
  obtain ⟨hpush, hspawn⟩ := exec_reads hreply hexec
  refine ⟨_, ⟨_, hstep, rfl, fun input' w' hruns => ?_⟩, fun hreadable => ⟨?_, ?_, fun _ => ?_⟩⟩
  · rw [runs_of_found hfound] at hruns
    obtain ⟨rfl, rfl⟩ := Prod.mk.inj (Option.some.inj hruns)
    exact ⟨late_of_judged fun b hb _ => hnow b hb, hbusy _ rfl⟩
  · simp
  · rw [shared_spawn, (goOn_accounts sys id kind (push ++ rest) { s with shared }).2.dropped]
    exact hgrows.dropped
  · refine readable_spawn (readable_goOn hreadable fun v hv => ?_) hspawn
    rcases List.mem_append.mp hv with hv | hv
    · exact hpush v hv
    · exact readable_iff.mp hreadable id _ hfound v (List.mem_cons_of_mem w hv)

/-- A timer that guards a batch can go on: it wakes, or it gets the lock. -/
theorem guarded_goes {I B : Type} [Batch I B] [Batchable I] [CountsItems I B]
    {cfg : Reducer.Config I B} {r : Reducer.State B} (h : Reducer.Guarded cfg r) :
    ∃ op out, timerOp op = true ∧ op.isTimer = true ∧ Reducer.step cfg r op = some out := by
  obtain ⟨t, ht, ⟨hlive, hearly, _⟩, delay, _, hdelay, _, _⟩ := h
  cases hphase : t.phase with
  | sleeping =>
    have hlives : Reducer.liveAt r t.scope .sleeping := ⟨t, ht, rfl, hphase, hlive⟩
    have helapsed : Reducer.elapsed r (t.armedAt + delay) t.scope :=
      ⟨t, ht, rfl, delay, hdelay, le_rfl⟩
    exact ⟨.wake (t.armedAt + delay) t.scope, _, rfl, rfl, if_pos ⟨hlives, helapsed⟩⟩
  | waiting =>
    have hlives : Reducer.liveAt r t.scope .waiting := ⟨t, ht, rfl, hphase, hlive⟩
    exact ⟨.fire 0 t.scope, _, rfl, rfl, if_pos hlives⟩
  | dispatching => exact absurd hphase hearly

theorem reducer_works (hcrashed : s.crashed = false) {stream : String} {p : Pipeline}
    {key : Option ShardId} {r : Reducer.State AggregatedBatch}
    (hp : s.shared.pipelines.get? stream = some p) (hr : p.aggregator.reducers.get? key = some r)
    (hguarded : Reducer.Guarded (sys.cfg.aggregator.reducer key) r) :
    ∃ s', Works sys s s' ∧ (s.readable = true → Calm s s') := by
  obtain ⟨op, ⟨r', closed⟩, htimer, _, hgoes⟩ := guarded_goes hguarded
  have hreducer : Aggregator.onReducer sys.cfg.aggregator key op p.aggregator =
      some ({ p.aggregator with reducers := p.aggregator.reducers.set key r' }, closed) := by
    simp [Aggregator.onReducer, hr, hgoes]
  have hstep : s.step sys (.reducerTimer stream key op) =
      some (State.spawn (timerTask stream key op closed) { s with
        shared := s.shared.setPipeline stream { p with
          aggregator := { p.aggregator with
            reducers := p.aggregator.reducers.set key r' } } }) := by
    simp [State.step, hcrashed, htimer, hp, hreducer]
  refine ⟨_, ⟨_, hstep, rfl, fun _ _ hruns => by cases hruns⟩, fun _ => ⟨?_, ?_, ?_⟩⟩
  · exact crashed_spawn _ _
  · rw [shared_spawn]
    rfl
  · refine fun hreadable => readable_spawn hreadable fun t ht => ?_
    unfold timerTask at ht
    split at ht
    · obtain rfl := Option.some.inj ht
      simp [Work.unread]
    · cases ht

theorem collector_works (hrunning : Running s) (hcrashed : s.crashed = false) {stream : String}
    {p : Pipeline} (hp : s.shared.pipelines.get? stream = some p)
    (hguarded : Reducer.Guarded sys.cfg.collector.reducer p.collector) :
    ∃ s', Works sys s s' ∧ (s.readable = true → Calm s s') := by
  obtain ⟨op, ⟨collector, closed⟩, _, htimer, hgoes⟩ := guarded_goes hguarded
  obtain ⟨spawn, hbatch⟩ : ∃ spawn,
      collectorBatch stream closed (s.shared.setPipeline stream { p with collector }) =
        .next (s.shared.setPipeline stream { p with collector }) [] spawn := by
    cases closed with
    | none => exact ⟨none, rfl⟩
    | some batch => exact ⟨_, if_pos hrunning.taskGroup⟩
  have hstep : s.step sys (.collectorTimer stream op) =
      some (State.spawn spawn { s with
        shared := s.shared.setPipeline stream { p with collector } }) := by
    cases op with
    | add | flush | aclose => cases htimer
    | wake | fire | dispatched | cancelled => simp [State.step, hcrashed, hp, hgoes, hbatch]
  refine ⟨_, ⟨_, hstep, rfl, fun _ _ hruns => by cases hruns⟩, fun _ => ⟨?_, ?_, ?_⟩⟩
  · exact crashed_spawn _ _
  · rw [shared_spawn]
    rfl
  · exact fun hreadable => readable_spawn hreadable (unread_collectorBatch hbatch).2

/-- A tick comes to every shard. -/
theorem drainEach_reaches {drain : Option ShardId → Limiter.ShardLimiter →
      Limiter.ShardLimiter × Limiter.Drained} {key : Option ShardId} {l : Limiter.ShardLimiter} :
    ∀ (keys : List (Option ShardId)) (shards : Dict (Option ShardId) Limiter.ShardLimiter),
      key ∈ keys → shards.get? key = some l →
      (drain key l).2 ∈ (Limiter.drainEach drain keys shards).2
  | [], _, hkey, _ => by cases hkey
  | key' :: keys, shards, hkey, hl => by
    by_cases hsame : key = key'
    · subst hsame
      simp only [Limiter.drainEach, hl]
      exact List.mem_cons_self
    · have hkey := (List.mem_cons.mp hkey).resolve_left hsame
      cases hl' : shards.get? key' with
      | none =>
        simp only [Limiter.drainEach, hl']
        exact drainEach_reaches keys shards hkey hl
      | some l' =>
        simp only [Limiter.drainEach, hl']
        apply List.mem_cons_of_mem
        apply drainEach_reaches keys _ hkey
        rw [Dict.get?_set, if_neg hsame]
        exact hl

/-- A tick after its expiry hands a batch on. -/
theorem tick_busy {stream : String} {p : Pipeline} {key : Option ShardId}
    {l : Limiter.ShardLimiter} {pending : Limiter.Pending}
    (hp : s.shared.pipelines.get? stream = some p) (hl : p.limiter.shards.get? key = some l)
    (hpending : pending ∈ l.queue) (input : Input)
    (hdrain : input.drain = fun _ => { now := pending.expiresAt, take := fun _ _ => 0 }) :
    (Work.drainTick stream).busy input s.shared := by
  have hkey : key ∈ p.limiter.shards.keys := by
    by_contra hnone
    rw [Dict.get?_eq_none_iff.mpr hnone] at hl
    cases hl
  refine ⟨p, hp, _, drainEach_reaches _ _ hkey hl, ?_⟩
  have hexpired : pending.expired (input.drain key).now = true := by
    rw [hdrain]
    simp [Limiter.Pending.expired]
  apply List.ne_nil_of_mem
  apply List.mem_append_left
  exact List.mem_map_of_mem (List.mem_filter.mpr ⟨hpending, hexpired⟩)

/-- A drain task that ticks has nothing else to do. -/
theorem Shaped.ticking {kind : TaskKind} {w : Work} {rest : List Work} (h : Shaped kind (w :: rest))
    (hticks : w.ticks = true) : rest = [] := by
  generalize hwork : w :: rest = work at h
  cases h with
  | entering henters =>
    obtain ⟨rfl, _⟩ := List.cons.inj hwork
    cases w with
    | drainTick stream => cases henters
    | _ => cases hticks
  | @going front hfront =>
    cases front with
    | nil =>
      cases kind with
      | drain stream => exact (List.cons.inj hwork).2
      | putRecord | flush | exit | reducerTimer _ _ _ | send => cases hwork
    | cons v front =>
      obtain ⟨rfl, _⟩ := List.cons.inj hwork
      rw [(hfront w List.mem_cons_self).2] at hticks
      cases hticks

/-- Every accepted record has finished, or has been dropped with a cancelled call. -/
def State.Settled (s : State) : Prop :=
  ∀ k ∈ s.shared.accepted, k ∈ s.shared.finished ∨ k ∈ s.shared.dropped

end Steps

section Settles

variable {sys : System} {s s' : State}

/-- **What has a mover moves.** -/
theorem mover_works (h : Attended sys s) (hcrashed : s.crashed = false)
    (hsealed : ∀ stream batch, s.requests stream batch → SealedRequest sys.cfg batch) {k : Token}
    (hmover : Mover sys s k) : ∃ s', Works sys s s' ∧ (s.readable = true → Calm s s') := by
  have hflight : ∀ {id : Nat} {kind : TaskKind} {w : Work} {rest : List Work},
      s.tasks.get? id = some { kind, work := w :: rest } → ∀ stream startedAt batch,
        w = .inFlight stream startedAt batch → SealedRequest sys.cfg batch := by
    rintro id kind w rest hfound stream startedAt batch rfl
    exact hsealed stream batch ⟨id, _, hfound, Or.inr ⟨startedAt, List.mem_cons_self⟩⟩
  cases hmover with
  | reducer hp hr _ hguarded => exact reducer_works hcrashed hp hr hguarded
  | collector hp _ hguarded => exact collector_works h.running hcrashed hp hguarded
  | @task id kind w rest hfound hk _ =>
    have hshaped := (h.tended.tasks hcrashed _ _ hfound).1
    refine begun_works h hcrashed hfound (hshaped.begun hk) (hflight hfound)
      (fun _ => { now := 0, take := fun _ _ => 0 }) fun input _ => ?_
    apply busy_of_begun
    -- a tick has no record in hand
    by_contra hticks
    rw [Bool.not_eq_false] at hticks
    obtain rfl := hshaped.ticking hticks
    cases w with
    | drainTick stream => cases hk
    | _ => cases hticks
  | @queue p key l id w front rest hp hl hk hfound _ _ =>
    obtain ⟨w', rest', _, hwork, _, henters, htick⟩ :=
      (h.tended.tasks hcrashed _ _ hfound).1.drains
    obtain ⟨rfl, rfl⟩ := List.cons.inj hwork
    -- the batch that expires is the one that holds the record
    obtain ⟨b, hb⟩ := List.exists_mem_of_ne_nil _ (ne_nil_of_mem hk)
    obtain ⟨batch, hbatch, _⟩ := List.mem_flatMap.mp hb
    obtain ⟨pending, hpending, _⟩ := List.mem_map.mp hbatch
    refine begun_works h hcrashed hfound henters (hflight hfound)
      (fun _ => { now := pending.expiresAt, take := fun _ _ => 0 }) fun input hdrain => ?_
    cases hticks : w.ticks with
    | true =>
      rw [htick hticks]
      exact tick_busy hp hl hpending input hdrain
    | false => exact busy_of_begun hticks input s.shared

/-- Where a record is neither finished nor dropped, some step of the producer's own is left. -/
theorem unsettled_works (h : Reachable (State.start sys) (State.step sys) beforeExit s)
    (hcrashed : s.crashed = false) (hunsettled : ¬ s.Settled) :
    ∃ s', Works sys s s' ∧ (s.readable = true → Calm s s') := by
  simp only [State.Settled, not_forall, not_or] at hunsettled
  obtain ⟨k, haccepted, hfinished, hdropped⟩ := hunsettled
  have hattended := reachable_attended h
  apply mover_works hattended hcrashed
  · exact fun stream batch hrequest => sealed_of_requests h hrequest
  · exact hattended.mover hcrashed (mem_live.mpr ⟨haccepted, hfinished⟩) hdropped

/-- The producer's own steps begin no exit. -/
theorem Works.reachable (hworks : Works sys s s')
    (h : Reachable (State.start sys) (State.step sys) beforeExit s) :
    Reachable (State.start sys) (State.step sys) beforeExit s' := by
  obtain ⟨op, hstep, hown, _⟩ := hworks
  refine .next h ?_ hstep
  cases op <;> first | rfl | cases hown

theorem acc_works (h : Reachable (State.start sys) (State.step sys) anyStep s) :
    Acc (fun s' s => Works sys s s') s := by
  refine acc_of_rank State.rank ?_ ?_ h
  · rintro s s' hs ⟨op, hstep, _, _⟩
    exact .next hs trivial hstep
  · intro s s' hs hworks
    have harmed := (arming sys.cfg).reachable (fun _ _ => trivial) hs
    exact works_falls (reachable_sound hs) harmed.stages hworks

/-- **The work ends.**  From no state of any run, with or without an exit, can a producer
    take steps of its own for ever, once time is past the TTL of what the Retrier judges:
    not by timers, drains, retries, flushes or callbacks, in any order and whatever the
    service replies. -/
theorem work_ends (sys : System) {s : State}
    (h : Reachable (State.start sys) (State.step sys) anyStep s) (run : ℕ → State)
    (hstart : run 0 = s) : ∃ n, ¬ Works sys (run n) (run (n + 1)) :=
  no_endless_work (acc_works h) run hstart

theorem work_ends_two :
    ∃ s, Reachable (State.start oneStream) (State.step oneStream) anyStep s ∧
      s.locations = [(.reducer "a" none, ("a", 4))] ∧
      ∀ run : ℕ → State, run 0 = s → ∃ n, ¬ Works oneStream (run n) (run (n + 1)) := by
  have hrun : (Lib.exec (State.step oneStream) anyStep entered putsTwo).map State.locations =
      some [(.reducer "a" none, ("a", 4))] := by
    decide +kernel
  obtain ⟨s, hexec, hlocations⟩ := Option.map_eq_some_iff.mp hrun
  have hreach : Reachable (State.start oneStream) (State.step oneStream) anyStep s :=
    Reachable.exec (.start rfl) hexec
  exact ⟨s, hreach, hlocations, fun run hstart => work_ends oneStream hreach run hstart⟩

/-- **Past the TTL everything settles.**  Before an exit, where a producer has no step of
    its own left it has crashed or every accepted record has finished or been dropped; and
    from every state that has not crashed, and in which no task handles a reply that the
    Retrier cannot read to its end, such a state is reached by steps of its own that drop
    nothing. -/
theorem past_ttl_everything_settles (sys : System) {s : State}
    (h : Reachable (State.start sys) (State.step sys) beforeExit s) (hcrashed : s.crashed = false) :
    (∀ s', Relation.ReflTransGen (Works sys) s s' → (∀ s'', ¬ Works sys s' s'') →
      s'.crashed = true ∨ s'.Settled) ∧
    (s.readable = true → ∃ s', Relation.ReflTransGen (Works sys) s s' ∧ s'.crashed = false ∧
      s'.Settled ∧ s'.shared.dropped = s.shared.dropped) := by
  constructor
  · intro s' hrun hstuck
    have hs' := inv_of_run (fun _ _ hs hworks => hworks.reachable hs) h hrun
    by_contra hneither
    rw [not_or, Bool.not_eq_true] at hneither
    obtain ⟨s'', hworks, _⟩ := unsettled_works hs' hneither.1 hneither.2
    exact hstuck s'' hworks
  · intro hreadable
    have hmoves : ∀ m, Reachable (State.start sys) (State.step sys) beforeExit m ∧ Calm s m →
        ¬ m.Settled → ∃ m', Works sys m m' ∧
          Reachable (State.start sys) (State.step sys) beforeExit m' ∧ Calm s m' := by
      rintro m ⟨hm, hcalm⟩ hunsettled
      obtain ⟨m', hworks, hcalms⟩ := unsettled_works hm (hcalm.crashed.trans hcrashed) hunsettled
      have hcalm' := hcalms (hcalm.readable hreadable)
      exact ⟨m', hworks, hworks.reachable hm, hcalm'.crashed.trans hcalm.crashed,
        hcalm'.dropped.trans hcalm.dropped, fun h => hcalm'.readable (hcalm.readable h)⟩
    have hacc := acc_works (h.mono fun _ _ _ => trivial)
    obtain ⟨s', hrun, ⟨_, hcalm⟩, hsettled⟩ := settles hacc ⟨h, rfl, rfl, id⟩ hmoves
    exact ⟨s', hrun, hcalm.crashed.trans hcrashed, hsettled, hcalm.dropped⟩

/-- The record that waits in its Reducer will be finished. -/
theorem past_ttl_everything_settles_two :
    ∃ s, Reachable (State.start oneStream) (State.step oneStream) beforeExit s ∧
      s.locations = [(.reducer "a" none, ("a", 4))] ∧ s.shared.dropped = [] ∧
      ∃ s', Relation.ReflTransGen (Works oneStream) s s' ∧ s'.crashed = false ∧ s'.Settled ∧
        s'.shared.dropped = s.shared.dropped := by
  have hrun : (Lib.exec (State.step oneStream) beforeExit entered putsTwo).map
      (fun s => (decide (s.crashed = false ∧ s.readable = true ∧ s.shared.dropped = []),
        s.locations)) = some (true, [(.reducer "a" none, ("a", 4))]) := by
    decide +kernel
  obtain ⟨s, hexec, hout⟩ := Option.map_eq_some_iff.mp hrun
  obtain ⟨hstate, hlocations⟩ := Prod.mk.inj hout
  obtain ⟨hcrashed, hreadable, hdropped⟩ := of_decide_eq_true hstate
  have hreach : Reachable (State.start oneStream) (State.step oneStream) beforeExit s :=
    Reachable.exec (.start rfl) hexec
  exact ⟨s, hreach, hlocations, hdropped,
    (past_ttl_everything_settles oneStream hreach hcrashed).2 hreadable⟩

end Settles

end Producer

end Aiokpl
