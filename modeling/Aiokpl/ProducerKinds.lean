import Aiokpl.ProducerLedger

/-!
# Which task does what

Only a send task sends and only the task of `__aexit__` leaves contexts; a send
task is started only while the task group is set; and the flags of a producer
change only where `__aexit__` changes them.
-/

namespace Aiokpl

open Lib Aggregation

namespace Producer

/-! ## Frames and their tasks -/

/-- The frames that only tasks of one kind have. -/
def Work.owner : Work → Option TaskKind
  | .send _ _ => some .send
  | .inFlight _ _ _ => some .send
  | .handleRaises _ _ => some .send
  | .unwind => some .exit
  | .leaveContexts => some .exit
  | .closeCollector _ => some .exit
  | .awaitCollector _ => some .exit
  | .closeLimiter _ => some .exit
  | .awaitLimiter _ => some .exit
  | .closeAggregator _ => some .exit
  | .leaveAggregator _ => some .exit
  | .awaitAggregator _ => some .exit
  | .closeClient => some .exit
  | .awaitTaskGroup => some .exit
  | _ => none

/-- A task of this kind may have these frames. -/
def Owns (kind : TaskKind) (work : List Work) : Prop := ∀ v ∈ work, ∀ owner ∈ v.owner, owner = kind

theorem owns_nil (kind : TaskKind) : Owns kind [] := by simp [Owns]

theorem owns_map {α : Type} {kind : TaskKind} {frame : α → Work} (h : ∀ x, (frame x).owner = none)
    (xs : List α) : Owns kind (xs.map frame) :=
  List.forall_mem_map.mpr fun x _ => by simp [h x]

theorem owns_dispatchAll (kind : TaskKind) (stream : String) (drained : List Limiter.Drained) :
    Owns kind (drained.flatMap (dispatch stream)) :=
  forall_dispatchAll fun _ _ _ _ => by simp [Work.owner]

theorem owns_leave (context : Context) : Owns .exit context.leave := by
  cases context <;> simp [Owns, Context.leave, Work.owner]

/-! ## The flags -/

def Work.unwinds : Work → Bool
  | .unwind => true
  | _ => false

def Work.closesClient : Work → Bool
  | .closeClient => true
  | _ => false

/-- What running a frame does to the flags, the exit stack and the kinds of tasks. -/
structure Control (s : Shared) (w : Work) (s' : Shared) (push : List Work) (spawn : Option Task) :
    Prop where
  closed : s'.closed = (s.closed || w.unwinds)
  taskGroup : s'.taskGroup = (s.taskGroup && !w.unwinds)
  client : s'.clientOpen = (s.clientOpen && !w.closesClient)
  stack : s'.exitStack = s.exitStack ∨
    (∃ call, w = .buildPipeline call ∧ s'.exitStack = .pipeline call.stream :: s.exitStack) ∨
    ∃ context, w = .leaveContexts ∧ s.exitStack = context :: s'.exitStack ∧
      push = context.leave ++ [.leaveContexts]
  owns : ∀ kind, Owns kind [w] → Owns kind push
  spawn : ∀ t, spawn = some t → Owns t.kind t.work ∧ t.kind ≠ .exit ∧
    (t.kind = .send → s.taskGroup = true)

/-- Frames other than those of `__aexit__` leave the flags alone. -/
theorem Control.plain {s s' : Shared} {w : Work} {push : List Work} {spawn : Option Task}
    (hw : w.unwinds = false ∧ w.closesClient = false)
    (hflags : s'.closed = s.closed ∧ s'.taskGroup = s.taskGroup ∧ s'.clientOpen = s.clientOpen ∧
      s'.exitStack = s.exitStack)
    (howns : ∀ kind, Owns kind [w] → Owns kind push)
    (hspawn : ∀ t, spawn = some t → Owns t.kind t.work ∧ t.kind ≠ .exit ∧
      (t.kind = .send → s.taskGroup = true)) : Control s w s' push spawn := by
  obtain ⟨hclosed, htg, hclient, hstack⟩ := hflags
  refine ⟨?_, ?_, ?_, Or.inl hstack, howns, hspawn⟩
  · simp [hclosed, hw]
  · simp [htg, hw]
  · simp [hclient, hw]

theorem submit_flags {sys : System} {input : Input} {call : PutCall} {p : Pipeline}
    {s s' : Shared} {push : List Work} {spawn : Option Task}
    (h : submit sys input call p s = .next s' push spawn) :
    (s'.closed = s.closed ∧ s'.taskGroup = s.taskGroup ∧ s'.clientOpen = s.clientOpen ∧
      s'.exitStack = s.exitStack) ∧ (∀ kind, Owns kind push) ∧ spawn = none := by
  unfold submit at h
  split at h
  · simp at h
  · simp only [Ran.next.injEq] at h
    obtain ⟨rfl, rfl, rfl⟩ := h
    exact ⟨⟨rfl, rfl, rfl, rfl⟩, fun kind => by simp [Owns, Work.owner], rfl⟩

theorem collectorBatch_control {stream : String} {closed : Option PutRecordsBatch}
    {s s' : Shared} {push : List Work} {spawn : Option Task}
    (h : collectorBatch stream closed s = .next s' push spawn) :
    s' = s ∧ push = [] ∧ ∀ t, spawn = some t → Owns t.kind t.work ∧ t.kind ≠ .exit ∧
      (t.kind = .send → s.taskGroup = true) := by
  cases closed with
  | none =>
    simp only [collectorBatch, Ran.next.injEq] at h
    obtain ⟨rfl, rfl, rfl⟩ := h
    exact ⟨rfl, rfl, by simp⟩
  | some batch =>
    simp only [collectorBatch] at h
    split at h
    · rename_i htg
      simp only [Ran.next.injEq] at h
      obtain ⟨rfl, rfl, rfl⟩ := h
      refine ⟨rfl, rfl, ?_⟩
      rintro t ⟨⟩
      exact ⟨by simp [Owns, Work.owner], by simp, fun _ => htg⟩
    · simp at h

theorem finish_flags (stream : String) (buffered : BufferedRecord) (s : Shared) :
    (finish stream buffered s).closed = s.closed ∧
      (finish stream buffered s).taskGroup = s.taskGroup ∧
      (finish stream buffered s).clientOpen = s.clientOpen ∧
      (finish stream buffered s).exitStack = s.exitStack := by
  cases hp : s.pipelines.get? stream with
  | none => simp [finish, hp]
  | some p =>
    rw [finish_eq hp]
    exact ⟨rfl, rfl, rfl, rfl⟩

/-- **What a frame does to the flags**, and what tasks it may start. -/
theorem exec_next_control {sys : System} {input : Input} {id : Nat} {s s' : Shared} {w : Work}
    {push : List Work} {spawn : Option Task}
    (h : exec sys input id s w = some (.next s' push spawn)) : Control s w s' push spawn := by
  have hflags : s.closed = s.closed ∧ s.taskGroup = s.taskGroup ∧ s.clientOpen = s.clientOpen ∧
      s.exitStack = s.exitStack := ⟨rfl, rfl, rfl, rfl⟩
  cases exec_runs h with
  | acquire | resume | building | getReducer | onRetry | send =>
    exact .plain ⟨rfl, rfl⟩ hflags (by simp [Owns, Work.owner]) (by simp)
  | getPipeline _ _ hsubmit =>
    obtain ⟨hsame, howns, rfl⟩ := submit_flags hsubmit
    exact .plain ⟨rfl, rfl⟩ hsame (fun kind _ => howns kind) (by simp)
  | @buildPipeline call _ _ _ hsubmit =>
    obtain ⟨⟨hclosed, htg, hclient, hstack⟩, howns, rfl⟩ := submit_flags hsubmit
    refine ⟨?_, ?_, ?_, Or.inr (Or.inl ⟨call, rfl, hstack⟩), fun kind _ => howns kind, by simp⟩
    · rw [hclosed]
      exact (Bool.or_false _).symm
    · rw [htg]
      exact (Bool.and_true _).symm
    · rw [hclient]
      exact (Bool.and_true _).symm
  | reducerAdd | reducerForgotten | limiterExpired | flushAggregator | flushReducer =>
    exact .plain ⟨rfl, rfl⟩ hflags (fun kind _ => owns_map (fun _ => rfl) _) (by simp)
  | @inFlight stream _ batch _ handled _ =>
    refine .plain ⟨rfl, rfl⟩ hflags (fun kind hw => ?_) (by simp)
    obtain rfl : TaskKind.send = kind := hw _ List.mem_cons_self .send (by simp [Work.owner])
    exact forall_handling (fun _ _ => by simp [Work.owner]) (by simp [Work.owner])
  | @limiterPut stream =>
    refine .plain ⟨rfl, rfl⟩ hflags
      (fun _ _ => forall_dispatch fun _ _ => by simp [Work.owner]) fun t ht => ?_
    split at ht
    · obtain rfl := Option.some.inj ht
      exact ⟨by simp [Owns, Work.owner], by simp, by simp⟩
    · simp at ht
  | limiterAdmit _ hbatch | flushCollector _ hbatch =>
    obtain ⟨rfl, rfl, hspawn⟩ := collectorBatch_control hbatch
    exact .plain ⟨rfl, rfl⟩ hflags (fun kind _ => owns_nil kind) hspawn
  | onFinish stream buffered result =>
    exact .plain ⟨rfl, rfl⟩ (finish_flags stream buffered s) (fun kind _ => owns_nil kind) (by simp)
  | flushPipelines =>
    exact .plain ⟨rfl, rfl⟩ hflags (fun _ _ => forall_flushPipelines
      (fun _ _ => by simp [Work.owner]) (by simp [Work.owner])) (by simp)
  | @flushLimiter stream =>
    exact .plain ⟨rfl, rfl⟩ hflags (fun kind _ => owns_dispatchAll kind stream _) (by simp)
  | @drainTick stream =>
    exact .plain ⟨rfl, rfl⟩ hflags
      (fun kind hw => List.forall_mem_append.mpr ⟨owns_dispatchAll kind stream _, hw⟩) (by simp)
  | unwind =>
    exact ⟨by simp [Work.unwinds], by simp [Work.unwinds], by simp [Work.closesClient], Or.inl rfl,
      by simp [Owns, Work.owner], by simp⟩
  | @leaveContext context exitStack hstack =>
    refine ⟨by simp [Work.unwinds], by simp [Work.unwinds], by simp [Work.closesClient],
      Or.inr (Or.inr ⟨context, rfl, hstack, rfl⟩), fun kind hw => ?_, by simp⟩
    obtain rfl : TaskKind.exit = kind := hw .leaveContexts (by simp) .exit (by simp [Work.owner])
    exact List.forall_mem_append.mpr ⟨owns_leave context, hw⟩
  | closeClient =>
    exact ⟨by simp [Work.unwinds], by simp [Work.unwinds], by simp [Work.closesClient], Or.inl rfl,
      fun kind _ => owns_nil kind, by simp⟩
  | invalidate | nothingToFlush | leftContexts | checkpoint | closeCollector | closeLimiter
  | closeAggregator | leaveAggregator | awaitCollector | awaitLimiter | awaitAggregator
  | awaitTaskGroup => exact .plain ⟨rfl, rfl⟩ hflags (fun kind _ => owns_nil kind) (by simp)

end Producer

end Aiokpl
