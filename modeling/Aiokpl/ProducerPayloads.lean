import Aiokpl.ProducerFates
import Aiokpl.ProducerTeardown

/-!
# Where the records come from

Every record that a producer has, and every result that it hands over, is that of a
`put_record` call that was made on it.  Between the call and the result only the deadline
and the attempts of the record change.
-/

namespace Aiokpl

open Lib Aggregation

namespace Producer

/-! ## The calls under way -/

def State.calls (s : State) (call : PutCall) : Prop :=
  ∃ id t, s.tasks.get? id = some t ∧ ∃ w ∈ t.work, w.call? = some call

/-- A frame hands on the call that it belongs to, and starts no other. -/
theorem exec_calls {sys : System} {input : Input} {id : Nat} {s s' : Shared} {w : Work}
    {push : List Work} {spawn : Option Task}
    (hbuild : ∀ call, w = .buildPipeline call → s.pipelines.get? call.stream = none)
    (h : exec sys input id s w = some (.next s' push spawn)) {v : Work} {call : PutCall}
    (hv : v ∈ push ∨ v ∈ spawn.toList.flatMap Task.work) (hcall : v.call? = some call) :
    w.call? = some call := by
  have hspawned : v ∈ spawn.toList.flatMap Task.work → ∃ t, spawn = some t ∧ v ∈ t.work := by
    intro hmem
    obtain ⟨t, ht, hmem⟩ := List.mem_flatMap.mp hmem
    exact ⟨t, Option.mem_toList.mp ht, hmem⟩
  cases exec_next hbuild h with
  | moved _ _ hpush hspawn _ =>
    rcases hv with hv | hv
    · rw [hpush v hv] at hcall
      cases hcall
    · obtain ⟨t, ht, hmem⟩ := hspawned hv
      rw [(hspawn t ht).settled v hmem] at hcall
      cases hcall
  | acquired | resumed | building =>
    rcases hv with hv | hv
    · rw [List.mem_singleton.mp hv] at hcall
      exact hcall
    · cases hv
  | accepted =>
    rcases hv with hv | hv
    · rw [List.mem_singleton.mp hv] at hcall
      cases hcall
    · cases hv
  | finished => simp at hv

section Step

variable {sys : System} {s s' : State} {op : Op} {call : PutCall}

theorem calls_spawn {spawn : Option Task} (h : (s.spawn spawn).calls call) :
    s.calls call ∨ ∃ w ∈ spawn.toList.flatMap Task.work, w.call? = some call := by
  cases spawn with
  | none => exact Or.inl h
  | some task =>
    obtain ⟨id, t, ht, w, hw, hcall⟩ := h
    rw [get?_spawn] at ht
    split at ht
    · obtain rfl := Option.some.inj ht
      exact Or.inr ⟨w, by simpa using hw, hcall⟩
    · exact Or.inl ⟨id, t, ht, w, hw, hcall⟩

/-- A task whose frames are all background has no call. -/
theorem calls_background {t : Task} (ht : Settled t.work) (h : (s.spawn (some t)).calls call) :
    s.calls call := by
  refine (calls_spawn h).resolve_right ?_
  rintro ⟨w, hw, hcall⟩
  rw [ht w (by simpa using hw)] at hcall
  cases hcall

theorem calls_goOn {id : Nat} {kind : TaskKind} {work : List Work}
    (h : (s.goOn sys id kind work).calls call) :
    (∃ w ∈ work, w.call? = some call) ∨ s.calls call := by
  obtain ⟨id', t, ht, w, hw, hcall⟩ := h
  rw [get?_goOn] at ht
  split at ht
  · split at ht
    · cases ht
    · obtain rfl := Option.some.inj ht
      exact Or.inl ⟨w, hw, hcall⟩
  · exact Or.inr ⟨id', t, ht, w, hw, hcall⟩

/-- The call of a task that fails is over. -/
theorem calls_fail {id : Nat} {kind : TaskKind} {work left : List Work}
    (h : (s.fail id { kind, work } left).calls call) : s.calls call := by
  obtain ⟨id', t, ht, w, hw, hcall⟩ := h
  rw [get?_fail] at ht
  split at ht
  · cases ht
  · exact ⟨id', t, ht, w, hw, hcall⟩

theorem calls_erase {id : Nat} {shared : Shared}
    (h : ({ s with tasks := s.tasks.erase id, shared } : State).calls call) : s.calls call := by
  obtain ⟨id', t, ht, w, hw, hcall⟩ := h
  rw [Dict.get?_erase] at ht
  split at ht
  · cases ht
  · exact ⟨id', t, ht, w, hw, hcall⟩

/-- **The calls after a step** were there before it, or are the one that the step makes. -/
theorem step_calls (hs : Sound s) (hstep : s.step sys op = some s') (h : s'.calls call) :
    s.calls call ∨ call ∈ s.submits op := by
  cases (step_turn hstep).2 with
  | refused => exact Or.inl h
  | entered stream userRecord hopen =>
    refine (calls_spawn h).imp_right ?_
    rintro ⟨w, hw, hcall⟩
    obtain rfl : w = .acquire { number := s.nextTask, stream, userRecord } := by simpa using hw
    obtain rfl := Option.some.inj hcall
    -- a call with an empty partition key starts no task
    have hkey : userRecord.partitionKey ≠ "" := by
      rintro hempty
      simp [State.step, (step_turn hstep).1, hempty, State.spawn] at hstep
      have hnext := congrArg State.nextTask hstep
      simp at hnext
    simp [State.submits, hopen, hkey]
  | flushes => exact Or.inl (calls_background (by simp [Settled, Work.call?]) h)
  | exits =>
    have hbefore := calls_background (by simp [Settled, Work.call?]) h
    exact Or.inl hbefore
  | @ran id input kind w rest push shared spawn hfound _ hexec =>
    left
    have hframe : ∀ v, v ∈ push ∨ v ∈ spawn.toList.flatMap Task.work → v.call? = some call →
        s.calls call := fun v hv hcall => ⟨id, _, hfound, w, List.mem_cons_self,
      exec_calls (fun _ hw => (hs.building hfound hw).2) hexec hv hcall⟩
    rcases calls_spawn h with hgo | ⟨v, hv, hcall⟩
    · rcases calls_goOn hgo with ⟨v, hv, hcall⟩ | hold
      · rcases List.mem_append.mp hv with hpush | hrest
        · exact hframe v (Or.inl hpush) hcall
        · exact ⟨id, _, hfound, v, List.mem_cons_of_mem w hrest, hcall⟩
      · exact hold
    · exact hframe v (Or.inr hv) hcall
  | raised =>
    have hbefore := calls_fail h
    exact Or.inl hbefore
  | reducerTimer =>
    rcases calls_spawn h with hold | ⟨w, hw, hcall⟩
    · exact Or.inl hold
    · obtain ⟨t, ht, hw⟩ := List.mem_flatMap.mp hw
      rw [(timerTask_background (Option.mem_toList.mp ht)).settled w hw] at hcall
      cases hcall
  | collectorTimer _ _ _ _ hbatch =>
    rcases calls_spawn h with hold | ⟨w, hw, hcall⟩
    · exact Or.inl hold
    · obtain ⟨t, ht, hw⟩ := List.mem_flatMap.mp hw
      rw [((collectorBatch_next hbatch).2.2.1 t (Option.mem_toList.mp ht)).1.settled w hw] at hcall
      cases hcall
  | overrun => exact Or.inl h
  | answered => exact Or.inl h
  | cancelled => exact Or.inl (calls_fail h)
  | stopped => exact Or.inl (calls_erase h)

theorem nextTask_spawn_le (spawn : Option Task) (s : State) :
    s.nextTask ≤ (s.spawn spawn).nextTask := by
  cases spawn with
  | none => exact le_refl _
  | some t => exact Nat.le_succ _

theorem step_nextTask (hstep : s.step sys op = some s') : s.nextTask ≤ s'.nextTask := by
  cases (step_turn hstep).2 with
  | ran =>
    apply le_trans _ (nextTask_spawn_le _ _)
    rw [nextTask_goOn]
  | raised | cancelled => rw [nextTask_fail]
  | entered | flushes | exits | reducerTimer | collectorTimer =>
    apply le_trans _ (nextTask_spawn_le _ _)
    exact le_refl s.nextTask
  | refused | overrun | answered | stopped => exact le_refl _

/-- The number of a call is that of its task. -/
theorem submits_numbers (hstep : s.step sys op = some s') (hcall : call ∈ s.submits op) :
    call.number = s.nextTask ∧ call.number < s'.nextTask := by
  cases op with
  | putRecord stream userRecord =>
    simp only [State.submits] at hcall
    simp only [State.step, (step_turn hstep).1, Bool.false_eq_true, if_false] at hstep
    split at hcall
    · cases hcall
    · rename_i hopen
      rw [if_neg hopen] at hstep
      obtain rfl := Option.some.inj hstep
      rw [List.mem_singleton.mp hcall]
      exact ⟨rfl, Nat.lt_succ_self _⟩
  | _ => cases hcall

end Step

/-! ## Made by a call -/

/-- The record is the one that the call built, but for what its retries have changed. -/
structure Made (sys : System) (call : PutCall) (b : BufferedRecord) : Prop where
  built : Aggregator.buildBuffered sys.md5 sys.u sys.cfg.aggregator b.arrivalTime call.number
      call.userRecord =
    .ok { b with deadline := b.arrivalTime + sys.cfg.aggregator.bufferedTime, attempts := [] }
  untried : b.attempts = [] → b.deadline = b.arrivalTime + sys.cfg.aggregator.bufferedTime

def Holding.Made (sys : System) (call : PutCall) : Holding → Prop
  | .waiting b => Producer.Made sys call b
  | .sent b => Producer.Made sys call b
  | .ended b _ => Producer.Made sys call b
  | .unjudged b => Producer.Made sys call b

/-- One of the calls made the record. -/
def Submitted (sys : System) (calls : List PutCall) (x : Held) : Prop :=
  ∃ call ∈ calls, call.stream = x.1 ∧ x.2.Made sys call

section Made

variable {sys : System} {call : PutCall} {b : BufferedRecord}

theorem Made.ident (h : Made sys call b) : b.ident = call.number := by
  obtain ⟨hashKey, _, heq⟩ := Aggregator.buildBuffered_eq_ok h.built
  exact congrArg BufferedRecord.ident heq

theorem Made.userRecord (h : Made sys call b) : b.userRecord = call.userRecord := by
  obtain ⟨hashKey, _, heq⟩ := Aggregator.buildBuffered_eq_ok h.built
  exact congrArg BufferedRecord.userRecord heq

theorem Holding.Made.ident {x : Holding} (h : x.Made sys call) : x.ident = call.number := by
  cases x with
  | waiting b | sent b | ended b result | unjudged b => exact Producer.Made.ident h

theorem made_buildBuffered {now : Time}
    (h : Aggregator.buildBuffered sys.md5 sys.u sys.cfg.aggregator now call.number
      call.userRecord = .ok b) : Made sys call b := by
  obtain ⟨hashKey, _, heq⟩ := Aggregator.buildBuffered_eq_ok h
  obtain rfl : b = _ := heq
  exact ⟨h, fun _ => rfl⟩

/-- A retry changes the deadline and the attempts only. -/
theorem Made.retried (h : Made sys call b) (deadline : Time) {attempts : List Attempt}
    (hne : attempts ≠ []) : Made sys call { b with deadline, attempts } :=
  ⟨h.built, fun hnil => absurd hnil hne⟩

/-- What the Retrier makes of a record was made by the call that made the record. -/
theorem judged_made {outcome : SendOutcome} {v : Retrier.Verdict} {c : Retrier.Call}
    {held : Holding} (h : Made sys call b)
    (hjudged : Retrier.Judged sys.cfg.retrier outcome b v c) (hheld : callHolding c = some held) :
    held.Made sys call := by
  cases hjudged with
  | accepted | throttled =>
    obtain rfl := Option.some.inj hheld
    exact h.retried b.deadline (by simp)
  | refused code message now =>
    unfold Retrier.retryNotExpired at hheld
    dsimp only at hheld
    split at hheld
    · obtain rfl := Option.some.inj hheld
      exact h.retried b.deadline (by simp)
    · obtain rfl := Option.some.inj hheld
      exact h.retried _ (by simp)

end Made

theorem Submitted.mono {sys : System} {calls calls' : List PutCall} {x : Held}
    (h : Submitted sys calls x) (hsub : calls ⊆ calls') : Submitted sys calls' x := by
  obtain ⟨call, hmem, hx⟩ := h
  exact ⟨call, hsub hmem, hx⟩

/-- **Every fate** of a submitted record is that of a submitted record. -/
theorem fate_submitted {sys : System} {calls : List PutCall} {input : Input} {w : Work} {x : Held}
    (hheld : ∀ y ∈ w.holdings, Submitted sys calls y)
    (hcalls : ∀ call, w.call? = some call → call ∈ calls) (h : Fate sys input w x) :
    Submitted sys calls x := by
  cases h with
  | same _ hmem => exact hheld x hmem
  | built hcall hbuild => exact ⟨_, hcalls _ hcall, rfl, made_buildBuffered hbuild⟩
  | @sent stream batch b hb => exact hheld (stream, .waiting b) (List.mem_map_of_mem hb)
  | @expired stream batch b _ held hb hjudged _ hcall =>
    obtain ⟨call, hmem, hstream, hmade⟩ := hheld (stream, .waiting b) (List.mem_map_of_mem hb)
    exact ⟨call, hmem, hstream, judged_made hmade hjudged hcall⟩
  | @answered stream startedAt batch b v _ held hbv hjudged _ hcall =>
    have hb : b ∈ Retrier.records batch := by
      rw [← Retrier.verdicts_fst sys.u input.env batch input.reply]
      exact List.mem_map_of_mem hbv
    obtain ⟨call, hmem, hstream, hmade⟩ := hheld (stream, .sent b) (List.mem_map_of_mem hb)
    exact ⟨call, hmem, hstream, judged_made hmade hjudged hcall⟩
  | @unjudged stream _ batch b hb =>
    exact hheld (stream, .sent b) (List.mem_map_of_mem (List.mem_of_mem_drop hb))

/-! ## Whole runs -/

variable {E : Type}

/-- All that the producer has, and all that it has handed over, comes from the calls. -/
structure Annals.Faithful (sys : System) (a : Annals E) : Prop where
  numbers : (a.submitted.map PutCall.number).Nodup
  known : ∀ call ∈ a.submitted, call.number < a.producer.nextTask
  calls : ∀ call, a.producer.calls call → call ∈ a.submitted
  held : ∀ x, a.producer.Has x → Submitted sys a.submitted x
  recorded : ∀ k result, (k, result) ∈ a.results →
    ∃ call ∈ a.submitted, k = (call.stream, call.number)

section Step

variable {sys : System} {diary : Diary E} {a a' : Annals E} {op : Op} {producer : State}

theorem submits_nodup {s : State} {submitted : List PutCall}
    (h : (submitted.map PutCall.number).Nodup)
    (hknown : ∀ call ∈ submitted, call.number < s.nextTask) {s' : State}
    (hstep : s.step sys op = some s') :
    ((submitted ++ s.submits op).map PutCall.number).Nodup ∧
      ∀ call ∈ submitted ++ s.submits op, call.number < s'.nextTask := by
  have hone : ((s.submits op).map PutCall.number).Nodup := by
    cases op with
    | putRecord stream userRecord =>
      simp only [State.submits]
      split <;> simp
    | _ => exact List.nodup_nil
  refine ⟨?_, fun call hcall => ?_⟩
  · rw [List.map_append]
    refine h.append hone ?_
    intro n hold hnew
    obtain ⟨call, hcall, rfl⟩ := List.mem_map.mp hold
    obtain ⟨call', hcall', heq⟩ := List.mem_map.mp hnew
    have hlt := hknown call hcall
    have hnumber := (submits_numbers hstep hcall').1
    omega
  · rcases List.mem_append.mp hcall with hold | hnew
    · exact lt_of_lt_of_le (hknown call hold) (step_nextTask hstep)
    · exact (submits_numbers hstep hnew).2

/-- The calls and the records after a step come from those before it. -/
theorem Annals.Faithful.after (h : a.Faithful sys) (hs : Sound a.producer)
    (hstep : a.producer.step sys op = some producer) :
    (∀ call, producer.calls call → call ∈ a.submitted ++ a.producer.submits op) ∧
      ∀ x, producer.Has x → Submitted sys (a.submitted ++ a.producer.submits op) x := by
  refine ⟨fun call hcall => ?_, fun x hx => ?_⟩
  · rcases step_calls hs hstep hcall with hold | hnew
    · exact List.mem_append_left _ (h.calls call hold)
    · exact List.mem_append_right _ hnew
  · have hheld := h.held
    refine Submitted.mono ?_ (List.subset_append_left _ _)
    rcases step_fate hstep hx with ⟨_, hold⟩ | ⟨id, input, kind, w, rest, hfound, _,
      hbeside | hfate⟩
    · exact hheld x hold
    · exact hheld x (hbeside.has hfound fun y hy => List.mem_append_right _ hy)
    · refine fate_submitted (fun y hy => hheld y ?_) (fun call hcall => h.calls call ?_) hfate
      · exact Or.inr ⟨id, _, hfound, List.mem_append_left _ hy⟩
      · exact ⟨id, _, hfound, w, List.mem_cons_self, hcall⟩

theorem Annals.Faithful.step (h : a.Faithful sys) (hs : Sound a.producer)
    (hstep : a.step sys diary op = some a') : a'.Faithful sys := by
  obtain ⟨producer, hproducer, hcases⟩ := Annals.step_cases hstep
  obtain ⟨hnumbers, hknown⟩ := submits_nodup h.numbers h.known hproducer
  have hold : ∀ k result, (k, result) ∈ a.results →
      ∃ call ∈ a.submitted ++ a.producer.submits op, k = (call.stream, call.number) := by
    intro k result hmem
    obtain ⟨call, hcall, hk⟩ := h.recorded k result hmem
    exact ⟨call, List.mem_append_left _ hcall, hk⟩
  obtain ⟨hcalls, hheld⟩ := h.after hs hproducer
  rcases hcases with ⟨_, rfl⟩ | ⟨input, w, hran, rfl⟩
  · exact ⟨hnumbers, hknown, hcalls, hheld, hold⟩
  · refine ⟨hnumbers, hknown, hcalls, hheld, fun k result hmem => ?_⟩
    rcases List.mem_append.mp hmem with hmem | hnew
    · exact hold k result hmem
    · -- the frame hands over the result of a record that it has
      obtain ⟨id, kind, rest, hfound⟩ := ran_eq_some hran
      obtain ⟨x, hx, rfl⟩ : ∃ x ∈ w.holdings, tokenOf x = k := by
        cases w with
        | callback stream c =>
          cases c with
          | onFinish b result' =>
            obtain ⟨rfl, rfl⟩ := Prod.mk.inj (List.mem_singleton.mp hnew)
            exact ⟨(stream, .ended b result), List.mem_singleton.mpr rfl, rfl⟩
          | _ => cases hnew
        | _ => cases hnew
      obtain ⟨call, hcall, hstream, hmade⟩ := h.held x
        (Or.inr ⟨id, _, hfound, List.mem_append_left _ hx⟩)
      exact ⟨call, List.mem_append_left _ hcall, congrArg₂ Prod.mk hstream.symm hmade.ident⟩

theorem Annals.reachable_faithful {ok : Annals E → Op → Prop}
    (h : Reachable (Annals.start sys) (Annals.step sys diary) ok a) :
    Sound a.producer ∧ a.Faithful sys := by
  have hstart : ∀ a : Annals E, Annals.start sys a → Sound a.producer ∧ a.Faithful sys := by
    rintro _ rfl
    refine ⟨start_sound rfl, by simp, by simp, ?_, ?_, by simp⟩
    · rintro call ⟨id, t, ht, _⟩
      cases ht
    · rintro x (⟨p, hp, _⟩ | ⟨id, t, ht, _⟩)
      · cases hp
      · cases ht
  refine h.invariant hstart fun a op a' hinv _ hstep => ?_
  obtain ⟨producer, hproducer, hcases⟩ := Annals.step_cases hstep
  refine ⟨?_, hinv.2.step hinv.1 hstep⟩
  have hsound := hinv.1.step hproducer
  rcases hcases with ⟨_, rfl⟩ | ⟨_, _, _, rfl⟩ <;> exact hsound

end Step

/-- **Every record is a call's.**  In every run, whatever else is written down of it, each
    record that a stage or a task has is the one that a `put_record` call built on its stream,
    with nothing but its deadline and its attempts changed, and not even these before the
    first attempt; no two calls have one number; and every result is that of a call. -/
theorem records_are_submitted (sys : System) (diary : Diary E) {a : Annals E}
    (h : Reachable (Annals.start sys) (Annals.step sys diary) anyStep a) :
    (a.submitted.map PutCall.number).Nodup ∧
      (∀ stream held, a.producer.Has (stream, held) →
        ∃ call ∈ a.submitted, call.stream = stream ∧ held.Made sys call) ∧
      ∀ k result, (k, result) ∈ a.results →
        ∃ call ∈ a.submitted, k = (call.stream, call.number) := by
  obtain ⟨_, hfaithful⟩ := Annals.reachable_faithful h
  exact ⟨hfaithful.numbers, fun stream held hhas => hfaithful.held (stream, held) hhas,
    hfaithful.recorded⟩

/-- Whatever is written down, the producer runs as it does. -/
theorem Annals.reachable_producer {sys : System} {diary : Diary E} {a : Annals E}
    (h : Reachable (Annals.start sys) (Annals.step sys diary) anyStep a) :
    Reachable (State.start sys) (State.step sys) anyStep a.producer := by
  have hstart : ∀ a : Annals E, Annals.start sys a →
      Reachable (State.start sys) (State.step sys) anyStep a.producer := by
    rintro _ rfl
    exact .start rfl
  refine h.invariant hstart fun a op a' hreach _ hstep => ?_
  obtain ⟨producer, hproducer, ⟨_, rfl⟩ | ⟨_, _, _, rfl⟩⟩ := Annals.step_cases hstep
  · exact hreach.next trivial hproducer
  · exact hreach.next trivial hproducer

/-- Nothing is written down. -/
def wordless : Diary Unit :=
  { entries := fun _ _ => []
    own := fun hmem => (by cases hmem)
    silent := fun _ _ _ => rfl }

/-- Two records are put for a stream and flushed, and are in a request under way. -/
def requestsTwo : List Op :=
  .putRecord "a" { partitionKey := "p", data := [7] } :: List.replicate 6 (.run 0 {}) ++
    .putRecord "a" { partitionKey := "q", data := [8, 9] } :: List.replicate 5 (.run 1 {}) ++
    .flush :: List.replicate 7 (.run 2 {}) ++ [.run 4 {}]

/-- The records of the request that is under way, if the frames are those of one. -/
def underWay : List Work → List (List Nat)
  | [.inFlight _ _ batch] => batch.items.map fun ar => ar.items.map BufferedRecord.ident
  | _ => []

theorem requestsTwo_run :
    ∃ a stream startedAt batch,
      Reachable (Annals.start oneStream) (Annals.step oneStream wordless) anyStep a ∧
      a.producer.tasks.get? 4 = some { kind := .send, work := [.inFlight stream startedAt batch] } ∧
      ∃ ar ∈ batch.items, ar.items.length = 2 := by
  have hrun : (Lib.exec (Annals.step oneStream wordless) anyStep
      { producer := { shared := { permits := oneStream.cfg.maxOutstandingRecords } } }
      requestsTwo).map (fun a => decide ((a.producer.tasks.get? 4).map
        (fun t => (t.kind, underWay t.work)) = some (.send, [[0, 1]]))) = some true := by
    decide +kernel
  obtain ⟨a, hexec, hout⟩ := Option.map_eq_some_iff.mp hrun
  obtain ⟨⟨kind, work⟩, hfound, htask⟩ := Option.map_eq_some_iff.mp (of_decide_eq_true hout)
  obtain ⟨hkind, hwork⟩ := Prod.mk.inj htask
  obtain rfl : kind = .send := hkind
  simp only [underWay] at hwork
  split at hwork
  · rename_i stream startedAt batch
    refine ⟨a, stream, startedAt, batch, Reachable.exec (.start rfl) hexec, hfound, ?_⟩
    obtain ⟨ar, har, hids⟩ := List.mem_map.mp
      (hwork ▸ List.mem_singleton.mpr rfl :
        [0, 1] ∈ batch.items.map fun ar => ar.items.map BufferedRecord.ident)
    refine ⟨ar, har, ?_⟩
    simpa using congrArg List.length hids
  · cases hwork

/-- Two records in one request. -/
theorem records_are_submitted_two :
    ∃ a, Reachable (Annals.start oneStream) (Annals.step oneStream wordless) anyStep a ∧
      ∃ stream b, a.producer.Has (stream, .sent b) ∧
        ∃ call ∈ a.submitted, call.stream = stream ∧ Made oneStream call b := by
  obtain ⟨a, stream, startedAt, batch, hreach, hfound, ar, har, htwo⟩ := requestsTwo_run
  obtain ⟨b, hb⟩ := List.exists_mem_of_length_pos (l := ar.items) (by omega)
  have hhas : a.producer.Has (stream, .sent b) := by
    refine Or.inr ⟨4, _, hfound, ?_⟩
    rw [holdingsOf_cons, holdingsOf_nil, List.append_nil]
    exact List.mem_map_of_mem (List.mem_flatMap.mpr ⟨ar, har, hb⟩)
  exact ⟨a, hreach, stream, b, hhas,
    (records_are_submitted oneStream wordless hreach).2.1 stream (.sent b) hhas⟩

end Producer

end Aiokpl
