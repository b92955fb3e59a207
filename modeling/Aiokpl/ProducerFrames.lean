import Aiokpl.ProducerExec
import Aiokpl.ProducerStages

/-!
# What running a frame does

`exec_next` and `exec_raises` say once what a frame can do to the accounts of a
producer: it moves records between the stages and the frames, or it takes a
`put_record` call one phase further, or it finishes a record.  Everything about
whole runs is derived from these two.
-/

namespace Aiokpl

open Lib Aggregation

namespace Producer

/-! ## Accounts -/

/-- What a producer counts, and the history of it. -/
structure Books where
  permits : Nat
  outstanding : Int
  accepted : List Token
  finished : List Token
  released : List Nat
  resolved : List Nat
  returned : List Nat
  failed : List (Nat × PutPhase)

def Shared.books (s : Shared) : Books :=
  { permits := s.permits, outstanding := s.outstanding, accepted := s.accepted
    finished := s.finished, released := s.released, resolved := s.resolved
    returned := s.returned, failed := s.failed }

/-- The Outcome that `pending` holds for a record. -/
def Shared.pendingAt (s : Shared) (k : Token) : Option Nat :=
  (s.pipelines.get? k.1).bind fun p => p.pending.get? k.2

/-- Nothing but the contents of the stages has changed. -/
structure StagesOnly (s s' : Shared) : Prop where
  books : s'.books = s.books
  pending : s'.pendingAt = s.pendingAt
  lock : s'.pipelineLock = s.pipelineLock
  streams : ∀ stream, s.pipelines.get? stream = none → s'.pipelines.get? stream = none

theorem StagesOnly.refl (s : Shared) : StagesOnly s s := ⟨rfl, rfl, rfl, fun _ => id⟩

theorem streams_setPipeline {s : Shared} {stream : String} {p : Pipeline}
    (hp : s.pipelines.get? stream = some p) (p' : Pipeline) (stream' : String)
    (hnone : s.pipelines.get? stream' = none) :
    (s.setPipeline stream p').pipelines.get? stream' = none := by
  have hne : stream' ≠ stream := by
    rintro rfl
    simp [hp] at hnone
  rwa [Shared.setPipeline, Dict.get?_set_ne _ _ hne]

/-- A pipeline that keeps its `pending` has only changed its stages. -/
theorem stagesOnly_setPipeline {s : Shared} {stream : String} {p p' : Pipeline}
    (hp : s.pipelines.get? stream = some p) (hpending : p'.pending = p.pending) :
    StagesOnly s (s.setPipeline stream p') := by
  refine ⟨rfl, ?_, rfl, streams_setPipeline hp p'⟩
  funext k
  by_cases hk : k.1 = stream
  · simp [Shared.pendingAt, Shared.setPipeline, hk, hp, hpending]
  · simp [Shared.pendingAt, Shared.setPipeline, Dict.get?_set, hk]

/-! ## Finishing a record -/

/-- The Outcomes set, once this one is. -/
def settle (resolved : List Nat) : Option Nat → List Nat
  | none => resolved
  | some outcome => if outcome ∈ resolved then resolved else resolved ++ [outcome]

theorem resolve_eq (outcome : Nat) (s : Shared) :
    s.resolve outcome = { s with resolved := settle s.resolved (some outcome) } := by
  by_cases hmem : outcome ∈ s.resolved <;> simp [Shared.resolve, settle, hmem]

/-- What `on_retrier_finish` does to the accounts. -/
structure Finishing (s : Shared) (k : Token) (s' : Shared) : Prop where
  books : s'.books =
    { s.books with
      outstanding := s.outstanding - 1
      permits := s.permits + 1
      released := s.released ++ [k.2]
      finished := s.finished ++ [k]
      resolved := settle s.resolved (s.pendingAt k) }
  pending : ∀ k', s'.pendingAt k' = if k' = k then none else s.pendingAt k'
  lock : s'.pipelineLock = s.pipelineLock
  streams : ∀ stream, s.pipelines.get? stream = none → s'.pipelines.get? stream = none
  mass : ∀ k', s'.mass k' = s.mass k'
  dropped : s'.dropped = s.dropped

theorem finish_eq {stream : String} {buffered : BufferedRecord} {s : Shared} {p : Pipeline}
    (hp : s.pipelines.get? stream = some p) :
    finish stream buffered s =
      { s.setPipeline stream { p with pending := p.pending.erase buffered.ident } with
        outstanding := s.outstanding - 1
        permits := s.permits + 1
        released := s.released ++ [buffered.ident]
        finished := s.finished ++ [(stream, buffered.ident)]
        resolved := settle s.resolved (s.pendingAt (stream, buffered.ident)) } := by
  have hpending : s.pendingAt (stream, buffered.ident) = p.pending.get? buffered.ident := by
    simp [Shared.pendingAt, hp]
  rw [hpending]
  simp only [finish, hp]
  cases p.pending.get? buffered.ident with
  | none => rfl
  | some outcome =>
    simp only [resolve_eq]
    rfl

theorem finish_finishing (stream : String) (buffered : BufferedRecord) (s : Shared) :
    Finishing s (stream, buffered.ident) (finish stream buffered s) := by
  cases hp : s.pipelines.get? stream with
  | none =>
    have hpending : s.pendingAt (stream, buffered.ident) = none := by simp [Shared.pendingAt, hp]
    simp only [finish, hp]
    refine ⟨by rw [hpending]; rfl, fun k' => ?_, rfl, fun _ h => h, fun _ => rfl, rfl⟩
    split
    · rename_i hk
      rw [hk]
      exact hpending
    · rfl
  | some p =>
    rw [finish_eq hp]
    refine ⟨rfl, ?_, rfl, streams_setPipeline hp _, fun k' => ?_, rfl⟩
    · rintro ⟨stream', n⟩
      by_cases hs : stream' = stream
      · subst hs
        by_cases hn : n = buffered.ident
        · simp [Shared.pendingAt, Shared.setPipeline, hn]
        · simp [Shared.pendingAt, Shared.setPipeline, hn, Dict.get?_erase, hp]
      · simp [Shared.pendingAt, Shared.setPipeline, Dict.get?_set, hs]
    · exact Nat.add_right_cancel
        (Shared.mass_setPipeline hp k' { p with pending := p.pending.erase buffered.ident })

/-! ## The two inversion lemmas -/

/-- The `put_record` call of a frame that has not registered its record. -/
def Work.call? : Work → Option PutCall
  | .acquire call => some call
  | .resume call => some call
  | .getPipeline call => some call
  | .buildPipeline call => some call
  | _ => none

/-- Frames that belong to no such call. -/
def Settled (work : List Work) : Prop := ∀ w ∈ work, w.call? = none

/-- A task that the producer starts by itself. -/
structure Background (t : Task) : Prop where
  kind : t.kind ≠ .putRecord
  settled : Settled t.work

theorem settled_nil : Settled [] := by simp [Settled]

/-- What a frame may do when it raises nothing. -/
inductive Effect (id : Nat) (s : Shared) : Work → Shared → List Work → Option Task → Prop
  | moved {w : Work} {s' : Shared} {push : List Work} {spawn : Option Task} :
      w.call? = none → StagesOnly s s' → Settled push → (∀ t, spawn = some t → Background t) →
      (∀ k, s'.mass k + load (carries k) push + load (carries k) (spawn.toList.flatMap Task.work) =
        s.mass k + carries k w) →
      Effect id s w s' push spawn
  | acquired (call : PutCall) : 0 < s.permits →
      Effect id s (.acquire call) { s with permits := s.permits - 1 } [.resume call] none
  | resumed (call : PutCall) :
      Effect id s (.resume call) { s with outstanding := s.outstanding + 1 }
        [.getPipeline call] none
  | building (call : PutCall) : s.pipelineLock = none → s.pipelines.get? call.stream = none →
      Effect id s (.getPipeline call) { s with pipelineLock := some id } [.buildPipeline call] none
  | accepted {w : Work} {call : PutCall} {s' : Shared} (shardKey : Option ShardId)
      {buffered : BufferedRecord} : w.call? = some call → buffered.ident = call.number →
      (w = .getPipeline call ∧ s.pipelineLock = none ∨ w = .buildPipeline call) →
      s'.books = { s.books with accepted := s.accepted ++ [(call.stream, call.number)] } →
      (∀ k, s'.pendingAt k = if k = (call.stream, call.number) then some call.number
        else s.pendingAt k) →
      s'.pipelineLock = none →
      (∀ stream, stream ≠ call.stream → s.pipelines.get? stream = none →
        s'.pipelines.get? stream = none) →
      (∀ k, s'.mass k = s.mass k) →
      Effect id s w s' [.getReducer call.stream shardKey buffered] none
  | finished {stream : String} {buffered : BufferedRecord} {result : RecordResult} {s' : Shared} :
      Finishing s (stream, buffered.ident) s' →
      Effect id s (.callback stream (.onFinish buffered result)) s' [] none

theorem ident_buildBuffered {md5 : Bytes → Digest} {u : DigitClasses} {cfg : Aggregator.Config}
    {now : Time} {ident : Nat} {userRecord : UserRecord} {buffered : BufferedRecord}
    (h : Aggregator.buildBuffered md5 u cfg now ident userRecord = .ok buffered) :
    buffered.ident = ident := by
  obtain ⟨hashKey, _, rfl⟩ := Aggregator.buildBuffered_eq_ok h
  rfl

/-- Registering the record of a call in a pipeline that is there. -/
theorem submit_next {sys : System} {input : Input} {call : PutCall} {p : Pipeline}
    {s s' : Shared} {push : List Work} {spawn : Option Task}
    (hp : s.pipelines.get? call.stream = some p)
    (h : submit sys input call p s = .next s' push spawn) :
    ∃ buffered : BufferedRecord, buffered.ident = call.number ∧
      push = [.getReducer call.stream input.shardKey buffered] ∧ spawn = none ∧
      s'.books = { s.books with accepted := s.accepted ++ [(call.stream, call.number)] } ∧
      (∀ k, s'.pendingAt k = if k = (call.stream, call.number) then some call.number
        else s.pendingAt k) ∧
      s'.pipelineLock = s.pipelineLock ∧
      (∀ stream, s.pipelines.get? stream = none → s'.pipelines.get? stream = none) ∧
      ∀ k, s'.mass k = s.mass k := by
  unfold submit at h
  split at h
  · simp at h
  · rename_i buffered hbuild
    have hident := ident_buildBuffered hbuild
    obtain ⟨rfl, rfl, rfl⟩ := (Ran.next.injEq ..).mp h
    refine ⟨buffered, hident, rfl, rfl, rfl, ?_, rfl, ?_, ?_⟩
    · rintro ⟨stream, n⟩
      by_cases hs : stream = call.stream
      · subst hs
        by_cases hn : n = call.number
        · simp [Shared.pendingAt, Shared.setPipeline, hident, hn]
        · simp [Shared.pendingAt, Shared.setPipeline, hident, hn, Dict.get?_set, hp]
      · simp [Shared.pendingAt, Shared.setPipeline, Dict.get?_set, hs]
    · exact streams_setPipeline hp _
    · intro k
      have hmass := Shared.mass_setPipeline hp k
        { p with pending := p.pending.set buffered.ident call.number }
      exact Nat.add_right_cancel hmass

theorem entering_stream (sys : System) (s : Shared) (stream : String) :
    (entering sys s stream).pipelines.get? stream = some (newPipeline sys.cfg) := by
  simp [entering, Shared.setPipeline]

/-- Opening the pipeline of a stream that has none. -/
theorem entering_opens {s : Shared} {stream : String} (hnone : s.pipelines.get? stream = none)
    (sys : System) :
    (entering sys s stream).pendingAt = s.pendingAt ∧
      (∀ stream', stream' ≠ stream → s.pipelines.get? stream' = none →
        (entering sys s stream).pipelines.get? stream' = none) ∧
      ∀ k, (entering sys s stream).mass k = s.mass k := by
  refine ⟨?_, ?_, ?_⟩
  · funext k
    by_cases hk : k.1 = stream
    · simp [entering, Shared.pendingAt, Shared.setPipeline, newPipeline, hk, hnone]
    · simp [entering, Shared.pendingAt, Shared.setPipeline, Dict.get?_set, hk]
  · intro stream' hne hnone'
    rwa [entering, Shared.setPipeline, Dict.get?_set_ne _ _ hne]
  · intro k
    rw [Shared.mass, entering, Shared.setPipeline, Dict.total_set_of_none _ hnone,
      holds_newPipeline, zero_add]
    rfl

/-- A stage that exchanges contents with the frames moves records only. -/
theorem Effect.ofStage {id : Nat} {s : Shared} {w : Work} {stream : String} {p p' : Pipeline}
    {push : List Work} {spawn : Option Task} (hw : w.call? = none)
    (hp : s.pipelines.get? stream = some p) (hpending : p'.pending = p.pending)
    (hpush : Settled push) (hspawn : ∀ t, spawn = some t → Background t)
    (hmass : ∀ k, p'.holds k stream + load (carries k) push +
      load (carries k) (spawn.toList.flatMap Task.work) = p.holds k stream + carries k w) :
    Effect id s w (s.setPipeline stream p') push spawn := by
  refine .moved hw (stagesOnly_setPipeline hp hpending) hpush hspawn fun k => ?_
  have hset := Shared.mass_setPipeline hp k p'
  have := hmass k
  omega

/-- A frame that hands what it holds on to other frames. -/
theorem Effect.passes {id : Nat} {s s' : Shared} {w : Work} {push : List Work}
    (hw : w.call? = none) (hs : StagesOnly s s') (hpush : Settled push)
    (hmass : ∀ k, s'.mass k = s.mass k) (hload : ∀ k, load (carries k) push = carries k w) :
    Effect id s w s' push none := by
  refine .moved hw hs hpush (by simp) fun k => ?_
  simp [hmass k, hload k]

/-- A frame that holds no record, and pushes none that does. -/
theorem Effect.idles {id : Nat} {s s' : Shared} {w : Work} {push : List Work}
    (hw : w.call? = none) (htokens : w.tokens = []) (hs : StagesOnly s s')
    (hmass : ∀ k, s'.mass k = s.mass k) (hpush : ∀ v ∈ push, v.call? = none ∧ v.tokens = []) :
    Effect id s w s' push none := by
  refine .passes hw hs (fun v hv => (hpush v hv).1) hmass fun k => ?_
  rw [load_carries, List.flatMap_eq_nil_iff.mpr fun v hv => (hpush v hv).2, carries, htokens]

/-- Closing a stage drops what it held. -/
theorem Effect.drops {id : Nat} {s : Shared} {w : Work} {stream : String} {p p' : Pipeline}
    {lost : List Token} (hw : w.call? = none ∧ w.tokens = [])
    (hp : s.pipelines.get? stream = some p) (hpending : p'.pending = p.pending)
    (hmass : ∀ k, p'.holds k stream + lost.count k = p.holds k stream) :
    Effect id s w { s.setPipeline stream p' with dropped := s.dropped ++ lost } [] none := by
  have hstages := stagesOnly_setPipeline hp hpending
  refine .moved hw.1 ⟨hstages.books, hstages.pending, hstages.lock, hstages.streams⟩ settled_nil
    (by simp) fun k => ?_
  have hset := Shared.mass_setPipeline hp k p'
  have hk := hmass k
  simp only [Shared.mass, Shared.setPipeline, List.count_append, carries, hw.2] at hset ⊢
  simp
  omega

theorem Context.leave_idle (context : Context) :
    ∀ v ∈ context.leave, v.call? = none ∧ v.tokens = [] := by
  cases context <;> simp [Context.leave, Work.call?, Work.tokens]

theorem settled_map {α : Type} {frame : α → Work} (h : ∀ x, (frame x).call? = none)
    (xs : List α) : Settled (xs.map frame) :=
  List.forall_mem_map.mpr fun x _ => h x

theorem settled_singleton {w : Work} (h : w.call? = none) : Settled [w] :=
  List.forall_mem_singleton.mpr h

/-- What the Collector closed is sent, or the assertion on the task group fails. -/
theorem collectorBatch_next {stream : String} {closed : Option PutRecordsBatch} {s s' : Shared}
    {push : List Work} {spawn : Option Task}
    (h : collectorBatch stream closed s = .next s' push spawn) :
    s' = s ∧ push = [] ∧ (∀ t, spawn = some t → Background t ∧ t.kind = .send ∧ s.taskGroup) ∧
      ∀ k, load (carries k) (spawn.toList.flatMap Task.work) =
        inBatches k stream (closed.toList.flatMap PutRecordsBatch.items) := by
  cases closed with
  | none =>
    simp only [collectorBatch, Ran.next.injEq] at h
    obtain ⟨rfl, rfl, rfl⟩ := h
    exact ⟨rfl, rfl, by simp, fun _ => rfl⟩
  | some batch =>
    simp only [collectorBatch] at h
    split at h
    · rename_i htg
      simp only [Ran.next.injEq] at h
      obtain ⟨rfl, rfl, rfl⟩ := h
      refine ⟨rfl, rfl, ?_, fun k => ?_⟩
      · rintro t ⟨⟩
        exact ⟨⟨by simp, settled_singleton rfl⟩, rfl, htg⟩
      · simp [carries, Work.tokens, Retrier.records, inBatches]
    · simp at h

/-- **What a frame does** when it raises nothing.  A call that builds a pipeline does
    so for a stream that has none. -/
theorem exec_next {sys : System} {input : Input} {id : Nat} {s s' : Shared} {w : Work}
    {push : List Work} {spawn : Option Task}
    (hbuild : ∀ call, w = .buildPipeline call → s.pipelines.get? call.stream = none)
    (h : exec sys input id s w = some (.next s' push spawn)) : Effect id s w s' push spawn := by
  cases exec_runs h with
  | acquire call hpermits => exact .acquired call hpermits
  | resume call => exact .resumed call
  | building call hlock hnone => exact .building call hlock hnone
  | getPipeline hlock hp hsubmit =>
    obtain ⟨buffered, hident, rfl, rfl, hbooks, hpending, hlock', hstreams, hmass⟩ :=
      submit_next hp hsubmit
    exact .accepted input.shardKey rfl hident (Or.inl ⟨rfl, hlock⟩) hbooks hpending
      (hlock'.trans hlock) (fun stream _ => hstreams stream) hmass
  | @buildPipeline call _ _ _ hsubmit =>
    obtain ⟨hopened, hothers, hsame⟩ := entering_opens (hbuild call rfl) sys
    obtain ⟨buffered, hident, rfl, rfl, hbooks, hpending, hlock', hstreams, hmass⟩ :=
      submit_next (entering_stream sys s call.stream) hsubmit
    refine .accepted input.shardKey rfl hident (Or.inr rfl) hbooks ?_ hlock' ?_ ?_
    · intro k
      rw [hpending k, hopened]
    · exact fun stream hne hs => hstreams stream (hothers stream hne hs)
    · intro k
      rw [hmass, hsame]
  | @getReducer stream shardKey buffered p aggregator hp hfound =>
    refine .ofStage rfl hp rfl (settled_singleton rfl) (by simp) fun k => ?_
    have hsame := inAggregator_getOrCreateReducer k stream hfound
    simp [Pipeline.holds, hsame, carries, Work.tokens]
  | @reducerAdd stream _ _ _ _ _ hp hadd =>
    refine .ofStage rfl hp rfl (settled_map (fun _ => rfl) _) (by simp) fun k => ?_
    have hsum := inAggregator_onReducer k stream (by simp) hadd
    simp only [Pipeline.holds, load_toLimiter, carries, Work.tokens, Reducer.Op.adds] at hsum ⊢
    simp
    omega
  | @reducerForgotten stream shardKey buffered =>
    refine .moved rfl ⟨rfl, rfl, rfl, fun _ h => h⟩ (settled_map (fun _ => rfl) _) (by simp)
      fun k => ?_
    have hsum := inBatches_addToForgotten k stream sys.cfg.aggregator input.now shardKey buffered
    simp only [Shared.mass, List.count_append, load_toLimiter, carries, Work.tokens]
    simp
    omega
  | @limiterPut stream batch p hp =>
    refine .ofStage rfl hp rfl (forall_dispatch fun _ _ => ⟨rfl, rfl⟩) ?_ fun k => ?_
    · intro t ht
      obtain rfl : t = { kind := .drain stream, work := [.drainTick stream] } := by
        split at ht
        · exact (Option.some.inj ht).symm
        · simp at ht
      exact ⟨by simp, settled_singleton rfl⟩
    · have hsum := inLimiter_put k stream sys.cfg.limiter input.put batch p.limiter
      have hdrain : ∀ starts : Bool, load (carries k) ((if starts then
          some { kind := .drain stream, work := [.drainTick stream] } else none :
            Option Task).toList.flatMap Task.work) = 0 := by
        intro starts
        cases starts <;> rfl
      simp only [inBatches_singleton] at hsum
      simp only [Pipeline.holds, load_dispatch, carries, Work.tokens, hdrain]
      omega
  | limiterExpired stream batch =>
    refine .passes rfl (.refl s) (settled_map (fun _ => rfl) _) (fun _ => rfl) fun k => ?_
    rw [load_expired]
    simp [inBatches, carries, Work.tokens]
  | @limiterAdmit stream batch p _ _ _ hp hbatch =>
    obtain ⟨rfl, rfl, hspawn, hload⟩ := collectorBatch_next hbatch
    refine .ofStage rfl hp rfl settled_nil (fun t ht => (hspawn t ht).1) fun k => ?_
    have hsum := inCollector_add k stream sys.cfg.collector.reducer input.now batch p.collector
    rw [inBatches_singleton] at hsum
    simp only [Pipeline.holds, hload, carries, Work.tokens, load_nil]
    omega
  | onFinish stream buffered result => exact .finished (finish_finishing stream buffered s)
  | onRetry stream buffered =>
    exact .passes rfl (.refl s) (settled_singleton rfl) (fun _ => rfl) fun k => by
      simp [carries, Work.tokens, Retrier.Call.buffered?]
  | invalidate stream seenAt shard =>
    exact .passes rfl (.refl s) settled_nil (fun _ => rfl) fun k => by
      simp [carries, Work.tokens, Retrier.Call.buffered?]
  | flushPipelines =>
    exact .idles rfl rfl (.refl s) (fun _ => rfl) (forall_flushPipelines
      (fun _ _ => ⟨⟨rfl, rfl⟩, ⟨rfl, rfl⟩, ⟨rfl, rfl⟩⟩) ⟨rfl, rfl⟩)
  | flushAggregator hp =>
    refine .idles rfl rfl (.refl s) (fun _ => rfl) fun v hv => ?_
    obtain ⟨key, _, rfl⟩ := List.mem_map.mp hv
    exact ⟨rfl, rfl⟩
  | @flushReducer stream _ _ _ _ hp hflush =>
    refine .ofStage rfl hp rfl (settled_map (fun _ => rfl) _) (by simp) fun k => ?_
    have hsum := inAggregator_onReducer k stream (by simp) hflush
    simp only [Pipeline.holds, load_toLimiter, carries, Work.tokens, Reducer.Op.adds] at hsum ⊢
    simp at hsum ⊢
    omega
  | @flushLimiter stream p hp =>
    refine .ofStage rfl hp rfl (forall_dispatchAll fun _ _ _ _ => ⟨rfl, rfl⟩) (by simp) fun k => ?_
    have hsum := inLimiter_flush k stream (fun key => (input.drain key).now) p.limiter
    simp only [Pipeline.holds, carries, Work.tokens]
    simp
    omega
  | @flushCollector stream p _ _ _ hp hbatch =>
    obtain ⟨rfl, rfl, hspawn, hload⟩ := collectorBatch_next hbatch
    refine .ofStage rfl hp rfl settled_nil (fun t ht => (hspawn t ht).1) fun k => ?_
    have hsum := inCollector_flush k stream sys.cfg.collector.reducer input.now p.collector
    simp only [Pipeline.holds, hload, carries, Work.tokens, load_nil, List.count_nil]
    omega
  | @drainTick stream p hp =>
    have hpush : Settled ((Limiter.drainAll input.drain p.limiter).2.flatMap (dispatch stream) ++
        [.drainTick stream]) :=
      List.forall_mem_append.mpr
        ⟨forall_dispatchAll fun _ _ _ _ => ⟨rfl, rfl⟩, settled_singleton rfl⟩
    refine .ofStage rfl hp rfl hpush (by simp) fun k => ?_
    have hsum := inLimiter_drainAll k stream input.drain p.limiter
    simp only [Pipeline.holds, carries, Work.tokens, load_append]
    simp [carries, Work.tokens]
    omega
  | send stream batch =>
    exact .passes rfl (.refl s) (settled_singleton rfl) (fun _ => rfl) fun k => by
      simp [carries, Work.tokens]
  | @inFlight stream _ _ _ _ htrip =>
    exact .passes rfl (.refl s) (forall_handling (fun _ _ => rfl) rfl) (fun _ => rfl)
      fun k => load_handling k stream htrip
  | @leaveContext context _ _ =>
    refine .idles rfl rfl ⟨rfl, rfl, rfl, fun _ h => h⟩ (fun _ => rfl) fun v hv => ?_
    have hv' : v ∈ context.leave ∨ v = .leaveContexts := by simpa using hv
    rcases hv' with hv | rfl
    · exact context.leave_idle v hv
    · exact ⟨rfl, rfl⟩
  | @closeCollector stream p hp =>
    refine .drops ⟨rfl, rfl⟩ hp rfl fun k => ?_
    simp only [Pipeline.holds, inCollector, Reducer.aclose, ← tokensOf_flatMap]
    simp [inBatches, Collector.Config.reducer]
  | closeLimiter hp =>
    exact .ofStage rfl hp rfl settled_nil (by simp) fun k => by
      simp [Pipeline.holds, inLimiter, Limiter.aclose, carries, Work.tokens]
  | closeAggregator hp =>
    refine .drops ⟨rfl, rfl⟩ hp rfl fun k => ?_
    simp only [Pipeline.holds, inAggregator, Aggregator.aclose, Dict.total, Dict.values,
      List.flatMap_map, List.count_flatMap]
    simp [Dict.empty, Function.comp_def]
    omega
  | leaveAggregator hp =>
    exact .ofStage rfl hp rfl settled_nil (by simp) fun k => by
      simp [Pipeline.holds, inAggregator, Aggregator.leave, carries, Work.tokens]
  | unwind =>
    exact .idles rfl rfl ⟨rfl, rfl, rfl, fun _ h => h⟩ (fun _ => rfl)
      (by simp [Work.call?, Work.tokens])
  | closeClient => exact .idles rfl rfl ⟨rfl, rfl, rfl, fun _ h => h⟩ (fun _ => rfl) (by simp)
  | nothingToFlush | leftContexts | checkpoint | awaitCollector | awaitLimiter | awaitAggregator
  | awaitTaskGroup => exact .idles rfl rfl (.refl s) (fun _ => rfl) (by simp)

/-- What a frame does before it raises: nothing to the accounts.  Only a call that
    builds a pipeline may leave the pipeline open, and it lets go of the lock. -/
structure Raised (s : Shared) (w : Work) (s' : Shared) (left : List Work) : Prop where
  books : s'.books = s.books
  pending : s'.pendingAt = s.pendingAt
  dropped : s'.dropped = s.dropped
  mass : ∀ k, s'.mass k + load (carries k) left = s.mass k + carries k w
  lock : s'.pipelineLock = s.pipelineLock ∨
    (∃ call, w = .buildPipeline call) ∧ s'.pipelineLock = none
  streams : ∀ stream, (∀ call, w = .buildPipeline call → stream ≠ call.stream) →
    s.pipelines.get? stream = none → s'.pipelines.get? stream = none

theorem submit_raises {sys : System} {input : Input} {call : PutCall} {p : Pipeline}
    {s s' : Shared} {left : List Work} (h : submit sys input call p s = .raises s' left) :
    s' = s ∧ left = [] := by
  unfold submit at h
  split at h
  · simp only [Ran.raises.injEq] at h
    exact ⟨h.1.symm, h.2.symm⟩
  · simp at h

theorem collectorBatch_raises {stream : String} {closed : Option PutRecordsBatch} {s s' : Shared}
    {left : List Work} (h : collectorBatch stream closed s = .raises s' left) :
    s' = s ∧ s.taskGroup = false ∧
      ∀ k, load (carries k) left =
        inBatches k stream (closed.toList.flatMap PutRecordsBatch.items) := by
  cases closed with
  | none => simp [collectorBatch] at h
  | some batch =>
    simp only [collectorBatch] at h
    split at h
    · simp at h
    · rename_i htg
      simp only [Ran.raises.injEq] at h
      obtain ⟨rfl, rfl⟩ := h
      exact ⟨rfl, by simpa using htg,
        fun k => by simp [carries, Work.tokens, Retrier.records, inBatches]⟩

/-- A stage that changes before its caller raises. -/
theorem Raised.ofStage {s : Shared} {w : Work} {stream : String} {p p' : Pipeline}
    {left : List Work} (hp : s.pipelines.get? stream = some p) (hpending : p'.pending = p.pending)
    (hmass : ∀ k, p'.holds k stream + load (carries k) left = p.holds k stream + carries k w) :
    Raised s w (s.setPipeline stream p') left := by
  have hstages := stagesOnly_setPipeline hp hpending
  refine ⟨hstages.books, hstages.pending, rfl, fun k => ?_, Or.inl hstages.lock,
    fun stream' _ => hstages.streams stream'⟩
  have hset := Shared.mass_setPipeline hp k p'
  have := hmass k
  omega

/-- **What a frame does** when it raises. -/
theorem exec_raises {sys : System} {input : Input} {id : Nat} {s s' : Shared} {w : Work}
    {left : List Work}
    (hbuild : ∀ call, w = .buildPipeline call → s.pipelines.get? call.stream = none)
    (h : exec sys input id s w = some (.raises s' left)) : Raised s w s' left := by
  cases exec_raising h with
  | getPipeline _ _ hsubmit =>
    obtain ⟨rfl, rfl⟩ := submit_raises hsubmit
    exact ⟨rfl, rfl, rfl, fun _ => rfl, Or.inl rfl, fun _ _ h => h⟩
  | buildFails call _ =>
    exact ⟨rfl, rfl, rfl, fun _ => rfl, Or.inr ⟨⟨call, rfl⟩, rfl⟩, fun _ _ h => h⟩
  | @buildPipeline call _ _ hsubmit =>
    obtain ⟨rfl, rfl⟩ := submit_raises hsubmit
    obtain ⟨hopened, hothers, hsame⟩ := entering_opens (hbuild call rfl) sys
    exact ⟨rfl, hopened, rfl, hsame, Or.inr ⟨⟨call, rfl⟩, rfl⟩,
      fun stream hne => hothers stream (hne call rfl)⟩
  | getReducer _ _ =>
    exact ⟨rfl, rfl, rfl, fun k => by simp, Or.inl rfl, fun _ _ h => h⟩
  | @limiterAdmit stream batch p _ _ hp hbatch =>
    obtain ⟨rfl, _, hload⟩ := collectorBatch_raises hbatch
    refine .ofStage hp rfl fun k => ?_
    have hsum := inCollector_add k stream sys.cfg.collector.reducer input.now batch p.collector
    rw [inBatches_singleton] at hsum
    simp only [Pipeline.holds, hload, carries, Work.tokens]
    omega
  | @flushCollector stream p _ _ hp hbatch =>
    obtain ⟨rfl, _, hload⟩ := collectorBatch_raises hbatch
    refine .ofStage hp rfl fun k => ?_
    have hsum := inCollector_flush k stream sys.cfg.collector.reducer input.now p.collector
    simp only [Pipeline.holds, hload, carries, Work.tokens, List.count_nil]
    omega
  | inFlight _ =>
    exact ⟨rfl, rfl, rfl, fun k => by simp, Or.inl rfl, fun _ _ h => h⟩
  | handleRaises stream records =>
    exact ⟨rfl, rfl, rfl, fun k => by simp, Or.inl rfl, fun _ _ h => h⟩

end Producer

end Aiokpl
