import Aiokpl.SyncBridgeRuns

/-!
# What a command has done when it is answered

The records of the Producer are the answers that were given, and a flush that has
returned has seen them all finish.
-/

namespace Aiokpl

open Lib Aggregation

namespace SyncProducer

variable {E : Type}

section Answers

variable {sys : Producer.System} {f f' : Bridge E}

/-! ## What is answered -/

/-- What a step adds to the history: at most one answer.  A command that returns nothing is
    the shutdown, or a flush that has found every record finished. -/
structure Progress (f f' : Bridge E) (answers : List (Nat × Reply Nat E)) : Prop where
  completed : f'.front.completed = f.front.completed ++ answers
  once : answers.length ≤ 1
  kinds : ∀ number kind, f.front.kind? number = some kind → f'.front.kind? number = some kind
  finished : ∀ k ∈ f.producer.shared.finished, k ∈ f'.producer.shared.finished
  nothing : ∀ e ∈ answers, e.2 = .ok none → f'.front.kind? e.1 = some .shutdown ∨
    (∃ timeout, f'.front.kind? e.1 = some (.flush timeout)) ∧
      ∀ k ∈ f.producer.shared.accepted, k ∈ f'.producer.shared.finished

theorem Progress.quiet (hcompleted : f'.front.completed = f.front.completed)
    (hkinds : ∀ number kind, f.front.kind? number = some kind → f'.front.kind? number = some kind)
    (hfinished : ∀ k ∈ f.producer.shared.finished, k ∈ f'.producer.shared.finished) :
    Progress f f' [] := by
  refine ⟨hcompleted.trans (List.append_nil _).symm, Nat.zero_le _, hkinds, hfinished, ?_⟩
  intro e he
  cases he

theorem finished_of_step {s s' : Producer.State} {op : Producer.Op} (hs : Producer.Sound s)
    (hstep : s.step sys op = some s') : ∀ k ∈ s.shared.finished, k ∈ s'.shared.finished := by
  intro k hk
  rw [(Producer.step_history hs hstep).2]
  exact List.mem_append_left _ hk

/-- The dispatcher has its reply. -/
theorem Matched.progress (h : Matched sys f) {reply : Reply Nat E}
    (hcomplete : f.complete reply = some f')
    (hnothing : reply = .ok none → (∃ timeout, f.command = some (.flush timeout)) ∧
      ∀ k ∈ f.producer.shared.accepted, k ∈ f.producer.shared.finished) :
    ∃ answers, Progress f f' answers := by
  obtain ⟨front, hfront, rfl⟩ := complete_eq hcomplete
  have hkinds : ∀ number kind, f.front.kind? number = some kind → front.kind? number = some kind :=
    fun _ _ => step_kind? h.served hfront
  obtain ⟨number, hexecuting, _, hcompleted⟩ := step_execute hfront
  refine ⟨[(number, reply)], hcompleted, le_rfl, hkinds, fun _ hk => hk, ?_⟩
  intro e he hreply
  obtain rfl := List.mem_singleton.mp he
  obtain ⟨⟨timeout, hcommand⟩, hall⟩ := hnothing hreply
  refine Or.inr ⟨⟨timeout, ?_⟩, hall⟩
  rw [Bridge.command, hexecuting] at hcommand
  exact hkinds _ _ hcommand

/-- **What every step adds to the history.** -/
theorem Matched.step_progress (h : Matched sys f) {op : Bridge.Op E}
    (hstep : f.step sys op = some f') : ∃ answers, Progress f f' answers := by
  cases op with
  | front op =>
    simp only [Bridge.step, Option.ite_none_right_eq_some, Option.bind_eq_bind,
      Option.bind_eq_some_iff, Option.some.injEq] at hstep
    obtain ⟨hadmits, front, hfront, rfl⟩ := hstep
    refine ⟨[], .quiet (step_serves hfront (serves_of_admits hadmits)).1 ?_ fun _ hk => hk⟩
    exact fun _ _ => step_kind? h.served hfront
  | producer op =>
    simp only [Bridge.step, Option.ite_none_left_eq_some, Option.bind_eq_bind,
      Option.bind_eq_some_iff, Option.some.injEq] at hstep
    obtain ⟨_, producer, hproducer, rfl⟩ := hstep
    exact ⟨[], .quiet rfl (fun _ _ hkind => hkind) (finished_of_step h.sound hproducer)⟩
  | receive number =>
    simp only [Bridge.step, Option.bind_eq_bind, Option.bind_eq_some_iff,
      Option.some.injEq] at hstep
    obtain ⟨front, hfront, rfl⟩ := hstep
    have hkinds : ∀ number kind, f.front.kind? number = some kind →
        front.kind? number = some kind := fun _ _ => step_kind? h.served hfront
    rcases (step_receive hfront).2 with ⟨_, hcompleted, _⟩ | ⟨_, hcompleted, hshutdown⟩
    · exact ⟨[], .quiet hcompleted hkinds fun _ hk => hk⟩
    · refine ⟨_, hcompleted, le_rfl, hkinds, fun _ hk => hk, ?_⟩
      intro e he _
      rw [List.mem_singleton.mp he]
      exact Or.inl hshutdown
  | begins =>
    simp only [Bridge.step] at hstep
    split at hstep
    · split at hstep
      · rw [← Option.some.inj hstep]
        exact ⟨[], .quiet rfl (fun _ _ hkind => hkind) fun _ hk => hk⟩
      · simp only [Option.bind_eq_bind, Option.bind_eq_some_iff, Option.some.injEq] at hstep
        obtain ⟨producer, hproducer, rfl⟩ := hstep
        exact ⟨[], .quiet rfl (fun _ _ hkind => hkind) (finished_of_step h.sound hproducer)⟩
    · simp only [Option.bind_eq_bind, Option.bind_eq_some_iff, Option.some.injEq] at hstep
      obtain ⟨producer, hproducer, rfl⟩ := hstep
      exact ⟨[], .quiet rfl (fun _ _ hkind => hkind) (finished_of_step h.sound hproducer)⟩
    · cases hstep
  | returns =>
    simp only [Bridge.step] at hstep
    split at hstep
    · apply h.progress hstep
      rintro ⟨⟩
    · cases hstep
  | raises exc =>
    simp only [Bridge.step, Option.ite_none_right_eq_some] at hstep
    apply h.progress hstep.2
    rintro ⟨⟩
  | timesOut =>
    simp only [Bridge.step] at hstep
    split at hstep
    · rename_i task timeout hexecution hcommand
      simp only [Option.bind_eq_bind, Option.bind_eq_some_iff] at hstep
      obtain ⟨producer, hproducer, hcomplete⟩ := hstep
      have hcancelled := h.cancels hexecution hcommand hproducer
      obtain ⟨answers, hprogress⟩ := hcancelled.progress hcomplete (by rintro ⟨⟩)
      refine ⟨answers, hprogress.completed, hprogress.once, hprogress.kinds, ?_, ?_⟩
      · exact fun k hk => hprogress.finished k (finished_of_step h.sound hproducer k hk)
      · intro e he hreply
        apply (hprogress.nothing e he hreply).imp_right
        rintro ⟨htimeout, hall⟩
        refine ⟨htimeout, fun k hk => hall k ?_⟩
        exact (Producer.step_history h.sound hproducer).1.subset hk
    · apply h.progress hstep
      rintro ⟨⟩
    · cases hstep
  | polls =>
    simp only [Bridge.step] at hstep
    split at hstep
    · rename_i hexecution
      rw [Option.ite_none_left_eq_some] at hstep
      obtain ⟨hnone, hcomplete⟩ := hstep
      apply h.progress hcomplete
      intro _
      obtain ⟨registered, _, hstands, _⟩ := h.accounts
      rw [hexecution] at hstands
      cases hstands with
      | polling hcommand =>
        refine ⟨⟨_, hcommand⟩, ?_⟩
        obtain ⟨_, hearly⟩ := h.running (not_gone_of_command hcommand)
        exact h.ledger.finished_of_outstanding h.sound hearly (not_lt.mp hnone)
    · cases hstep
  | leaves =>
    simp only [Bridge.step, Option.ite_none_right_eq_some, Option.bind_eq_bind,
      Option.bind_eq_some_iff, Option.some.injEq] at hstep
    obtain ⟨_, producer, hproducer, rfl⟩ := hstep
    exact ⟨[], .quiet rfl (fun _ _ hkind => hkind) (finished_of_step h.sound hproducer)⟩

/-- What the history says: a flush that has returned has seen every record finish that was
    answered before, and a `put_record` returns no `None`. -/
structure Told (f : Bridge E) : Prop where
  flushed : ∀ before number after timeout,
    f.front.completed = before ++ (number, .ok none) :: after →
    f.front.kind? number = some (.flush timeout) →
    ∀ k ∈ before.filterMap f.front.answer, k ∈ f.producer.shared.finished
  puts : ∀ e ∈ f.front.completed, e.2 = .ok none → ∀ stream userRecord,
    f.front.kind? e.1 ≠ some (.putRecord stream userRecord)

theorem answer_kept (h : Matched sys f)
    (hkinds : ∀ number kind, f.front.kind? number = some kind → f'.front.kind? number = some kind)
    {e : Nat × Reply Nat E} (he : e ∈ f.front.completed) :
    f'.front.answer e = f.front.answer e := by
  obtain ⟨call, hcall⟩ := h.served.known e.1 (h.served.mem_received he)
  have hkind := kind?_of_get? hcall
  rw [State.answer, State.answer, hkinds _ _ hkind, hkind]

theorem Told.progress (h : Told f) (hmatched : Matched sys f)
    {answers : List (Nat × Reply Nat E)} (hprogress : Progress f f' answers) : Told f' := by
  have hkind : ∀ e ∈ f.front.completed, ∀ kind, f'.front.kind? e.1 = some kind →
      f.front.kind? e.1 = some kind := by
    intro e he kind hkind
    obtain ⟨call, hcall⟩ := hmatched.served.known e.1 (hmatched.served.mem_received he)
    have hold := kind?_of_get? hcall
    rw [hprogress.kinds _ _ hold] at hkind
    exact hold.trans hkind
  constructor
  · intro before number after timeout hcompleted hflush k hk
    rw [hprogress.completed] at hcompleted
    obtain ⟨e, hin, hanswer⟩ := List.mem_filterMap.mp hk
    have hnew : f.front.completed = before → (number, .ok none) ∈ answers →
        k ∈ f'.producer.shared.finished := by
      rintro rfl hlast
      rw [answer_kept hmatched hprogress.kinds hin] at hanswer
      rcases hprogress.nothing _ hlast rfl with hshutdown | ⟨_, hall⟩
      · rw [hflush] at hshutdown
        cases hshutdown
      · apply hall
        obtain ⟨registered, lost, _, haccounts⟩ := hmatched.accounts
        rw [haccounts.accepted, List.append_assoc]
        exact List.mem_append_left _ (List.mem_filterMap.mpr ⟨e, hin, hanswer⟩)
    rcases List.append_eq_append_iff.mp hcompleted with ⟨more, hbefore, hanswers⟩ |
      ⟨more, hold, hrest⟩
    · have hmore : more = [] := by
        have hlength := congrArg List.length hanswers
        have honce := hprogress.once
        rw [List.length_append, List.length_cons] at hlength
        exact List.length_eq_zero_iff.mp (by omega)
      rw [hmore, List.append_nil] at hbefore
      apply hnew hbefore.symm
      rw [hanswers]
      exact List.mem_append_right _ List.mem_cons_self
    · cases more with
      | nil =>
        apply hnew
        · rw [hold, List.append_nil]
        · rw [List.nil_append] at hrest
          rw [← hrest]
          exact List.mem_cons_self
      | cons e' rest =>
        obtain ⟨rfl, _⟩ := (List.cons.injEq ..).mp hrest
        have hin' : (number, Except.ok none) ∈ f.front.completed := by
          rw [hold]
          exact List.mem_append_right _ List.mem_cons_self
        apply hprogress.finished
        apply h.flushed before number rest timeout hold (hkind _ hin' _ hflush)
        refine List.mem_filterMap.mpr ⟨e, hin, ?_⟩
        rw [← hanswer]
        refine (answer_kept hmatched hprogress.kinds ?_).symm
        rw [hold]
        exact List.mem_append_left _ hin
  · intro e he hreply stream userRecord hput
    rw [hprogress.completed] at he
    rcases List.mem_append.mp he with hin | hin
    · exact h.puts e hin hreply stream userRecord (hkind e hin _ hput)
    · rcases hprogress.nothing e hin hreply with hshutdown | ⟨⟨timeout, hflush⟩, _⟩
      · rw [hput] at hshutdown
        cases hshutdown
      · rw [hput] at hflush
        cases hflush

theorem reachable_told {ok : Bridge E → Bridge.Op E → Prop}
    (h : Reachable (Bridge.start sys) (Bridge.step sys) ok f) : Matched sys f ∧ Told f := by
  apply h.invariant
  · intro f hstart
    refine ⟨start_matched hstart, ?_, ?_⟩
    · intro before number after timeout hcompleted
      rw [hstart] at hcompleted
      have hlength := congrArg List.length hcompleted
      simp at hlength
    · intro e he
      rw [hstart] at he
      cases he
  · rintro f op f' ⟨hmatched, htold⟩ _ hstep
    obtain ⟨answers, hprogress⟩ := hmatched.step_progress hstep
    exact ⟨hmatched.step hstep, htold.progress hmatched hprogress⟩

end Answers

/-! ## What the callers can rely on -/

/-- **A flush is a barrier.**  In every run of the façade, whatever the threads call and
    whatever the tasks and timers of the Producer do between the awaits of the dispatcher:
    when a `flush` has returned, every record whose `put_record` the dispatcher had
    answered before has finished, and its Outcome is set. -/
theorem flush_is_a_barrier (sys : Producer.System) {f : Bridge E}
    (h : Reachable (Bridge.start sys) (Bridge.step sys) anyStep f)
    {before after : List (Nat × Reply Nat E)} {number : Nat} {timeout : Option Time}
    (hcompleted : f.front.completed = before ++ (number, .ok none) :: after)
    (hflush : f.front.kind? number = some (.flush timeout)) :
    ∀ number' outcome, (number', .ok (some outcome)) ∈ before →
      ∃ stream userRecord, f.front.kind? number' = some (.putRecord stream userRecord) ∧
        (stream, outcome) ∈ f.producer.shared.finished ∧ outcome ∈ f.producer.shared.resolved := by
  obtain ⟨hmatched, htold⟩ := reachable_told h
  intro number' outcome hin
  have hsome := hmatched.answers (number', .ok (some outcome)) (by
    rw [hcompleted]
    exact List.mem_append_left _ hin) outcome rfl
  obtain ⟨k, hanswer⟩ := Option.isSome_iff_exists.mp hsome
  have hfinished := htold.flushed before number after timeout hcompleted hflush k
    (List.mem_filterMap.mpr ⟨_, hin, hanswer⟩)
  unfold State.answer at hanswer
  split at hanswer
  · rename_i stream userRecord outcome' hkind hreply
    obtain rfl := Option.some.inj (Except.ok.inj hreply)
    obtain rfl := Option.some.inj hanswer
    exact ⟨stream, userRecord, hkind, hfinished, hmatched.ledger.resolved _ hfinished⟩
  · cases hanswer

/-! ### A record, a call that raises, a flush and another record -/

/-- A call of a thread, until the dispatcher has called the Producer for it. -/
def hands (op : Op Nat String) (number : Nat) : List (Bridge.Op String) :=
  [.front op, .front (.bind number), .front (.schedule number), .receive number, .begins]

def runs (task count : Nat) : List (Bridge.Op String) :=
  List.replicate count (.producer (.run task {}))

/-- The second call has no partition key.  The last record is registered, and its call has
    not been answered. -/
def putsAndFlushes : List (Bridge.Op String) :=
  hands (.putRecord "a" { partitionKey := "p", data := [] }) 0 ++ runs 0 6 ++
    [.returns, .front (.wake 0)] ++
    hands (.putRecord "a" { partitionKey := "", data := [] }) 1 ++
      [.raises (.other "ValueError")] ++
    hands (.flush none) 2 ++ runs 1 8 ++ runs 3 1 ++ Producer.takesOne.map .producer ++ [.polls] ++
    hands (.putRecord "a" { partitionKey := "q", data := [] }) 3 ++ runs 4 3

def bridged : Bridge String := { producer := Producer.entered }

def Kind.isFlush : Kind → Bool
  | .flush _ => true
  | _ => false

theorem putsAndFlushes_run :
    ∃ f : Bridge String,
      Reachable (Bridge.start Producer.oneStream) (Bridge.step Producer.oneStream) anyStep f ∧
      f.front.completed = [(0, .ok (some 0)), (1, .error (.other "ValueError")), (2, .ok none)] ∧
      (∃ timeout, f.front.kind? 2 = some (.flush timeout)) ∧ f.front.putReplies = [("a", 0)] ∧
      f.producer.shared.accepted = [("a", 0), ("a", 4)] := by
  have hrun : (Lib.exec (Bridge.step Producer.oneStream) anyStep bridged putsAndFlushes).map
      (fun f => decide (f.front.completed =
          [(0, .ok (some 0)), (1, .error (.other "ValueError")), (2, .ok none)] ∧
        (f.front.kind? 2).any Kind.isFlush = true ∧ f.front.putReplies = [("a", 0)] ∧
        f.producer.shared.accepted = [("a", 0), ("a", 4)])) = some true := by
    decide +kernel
  obtain ⟨f, hexec, hout⟩ := Option.map_eq_some_iff.mp hrun
  obtain ⟨hcompleted, hflush, hreplies, haccepted⟩ := of_decide_eq_true hout
  have hreach : Reachable (Bridge.start Producer.oneStream) (Bridge.step Producer.oneStream)
    anyStep f := Reachable.exec (.start rfl) hexec
  refine ⟨f, hreach, hcompleted, ?_, hreplies, haccepted⟩
  obtain ⟨kind, hkind, hisFlush⟩ := (Option.any_eq_true _ _).mp hflush
  cases kind with
  | flush timeout => exact ⟨timeout, hkind⟩
  | putRecord | shutdown => cases hisFlush

theorem flush_is_a_barrier_one :
    ∃ f : Bridge String,
      Reachable (Bridge.start Producer.oneStream) (Bridge.step Producer.oneStream) anyStep f ∧
      ∃ stream, (stream, 0) ∈ f.producer.shared.finished := by
  obtain ⟨f, hreach, hcompleted, ⟨timeout, hflush⟩, _⟩ := putsAndFlushes_run
  have hsplit : f.front.completed =
      [(0, .ok (some 0)), (1, .error (.other "ValueError"))] ++ (2, .ok none) :: [] := hcompleted
  obtain ⟨stream, _, _, hfinished, _⟩ := flush_is_a_barrier Producer.oneStream hreach hsplit hflush
    0 0 List.mem_cons_self
  exact ⟨f, hreach, stream, hfinished⟩

/-- No two calls were given one Outcome. -/
theorem answers_distinct {s : State Nat E} (hnodup : (s.putReplies.map Prod.snd).Nodup)
    (hanswers : ∀ e ∈ s.completed, ∀ outcome, e.2 = .ok (some outcome) →
      (s.answer e).isSome = true) {number number' outcome : Nat}
    (h : (number, .ok (some outcome)) ∈ s.completed)
    (h' : (number', .ok (some outcome)) ∈ s.completed) : number' = number := by
  have hanswer : ∀ n, (n, .ok (some outcome)) ∈ s.completed →
      ∃ stream, s.answer (n, .ok (some outcome)) = some (stream, outcome) := by
    intro n hin
    have hsome := hanswers _ hin outcome rfl
    unfold State.answer at hsome ⊢
    split at hsome
    · rename_i stream _ outcome' hkind hreply
      obtain rfl := Option.some.inj (Except.ok.inj hreply)
      exact ⟨stream, rfl⟩
    · cases hsome
  have happart : s.completed.Pairwise fun e e' =>
      ∀ k ∈ s.answer e, ∀ k' ∈ s.answer e', k.2 ≠ k'.2 := by
    rw [State.putReplies, List.Nodup, List.pairwise_map, List.pairwise_filterMap] at hnodup
    exact hnodup
  have hsymm : Std.Symm fun e e' => ∀ k ∈ s.answer e, ∀ k' ∈ s.answer e', k.2 ≠ k'.2 :=
    ⟨fun e e' hee k' hk' k hk => (hee k hk k' hk').symm⟩
  by_contra hne
  obtain ⟨stream, hstream⟩ := hanswer number h
  obtain ⟨stream', hstream'⟩ := hanswer number' h'
  exact happart.forall h' h (by simpa using hne) _ hstream' _ hstream rfl

/-- **The records are the answers.**  In every run the records of the Producer are those
    that the calls of `put_record` were answered with, in the order in which the dispatcher
    executed the calls, and at most one more: that of the `put_record` it is executing, or
    of one that was answered with an exception since a background task had crashed.  So a
    call that raises has registered nothing as long as nothing has crashed, and what a call
    returns to its thread is the Outcome that the call itself was answered with, which is
    of its stream and which no other call was given. -/
theorem records_are_answers (sys : Producer.System) {f : Bridge E}
    (h : Reachable (Bridge.start sys) (Bridge.step sys) anyStep f) :
    (∃ rest, f.producer.shared.accepted = f.front.putReplies ++ rest ∧
      (rest = [] ∨ ∃ stream task, rest = [(stream, task)] ∧
        ((∃ userRecord, f.command = some (.putRecord stream userRecord) ∧
            (f.execution = some (.putting task) ∨ f.execution = some (.returning task))) ∨
          f.producer.crashed = true ∧ f.Refused (stream, task)))) ∧
    (f.front.putReplies.map Prod.snd).Nodup ∧
    ∀ number call stream userRecord result, f.front.calls.get? number = some call →
      call.command.kind = .putRecord stream userRecord → call.stage = .replied (.ok result) →
      ∃ outcome, result = some outcome ∧ (stream, outcome) ∈ f.front.putReplies ∧
        (number, .ok (some outcome)) ∈ f.front.completed ∧
        ∀ number', (number', .ok (some outcome)) ∈ f.front.completed → number' = number := by
  obtain ⟨hmatched, htold⟩ := reachable_told h
  obtain ⟨registered, lost, hstands, haccounts⟩ := hmatched.accounts
  have hnodup : (f.front.putReplies.map Prod.snd).Nodup := by
    have haccepted := hmatched.sound.accepted
    rw [Producer.acceptedIds, haccounts.accepted, List.append_assoc, List.map_append] at haccepted
    exact (List.nodup_append.mp haccepted).1
  refine ⟨⟨registered ++ lost, ?_, ?_⟩, hnodup, ?_⟩
  · rw [← List.append_assoc]
    exact haccounts.accepted
  · by_cases hempty : lost = []
    · rw [hempty, List.append_nil]
      generalize hexecution : f.execution = execution at hstands
      cases hstands with
      | @handing task stream userRecord hcommand =>
        exact Or.inr ⟨stream, task, rfl, Or.inl ⟨userRecord, hcommand, Or.inl rfl⟩⟩
      | @returning task stream userRecord hcommand =>
        exact Or.inr ⟨stream, task, rfl, Or.inl ⟨userRecord, hcommand, Or.inr rfl⟩⟩
      | idle | begins | entering | flushing | polling | raising => exact Or.inl rfl
    · obtain ⟨hcrashed, rfl⟩ := haccounts.crashed hempty
      obtain ⟨⟨stream, task⟩, hone⟩ := List.length_eq_one_iff.mp
        (Nat.le_antisymm haccounts.once (List.length_pos_iff.mpr hempty))
      rw [List.nil_append, hone]
      refine Or.inr ⟨stream, task, rfl, Or.inr ⟨hcrashed, haccounts.refused _ ?_⟩⟩
      rw [hone]
      exact List.mem_cons_self
  · intro number call stream userRecord result hcall hkind hstage
    have hput := kind?_of_get? hcall
    rw [hkind] at hput
    have hin : (number, .ok result) ∈ f.front.completed := by
      cases hmatched.served.fits number call hcall with
      | replied hreplied _ hin =>
        rw [hstage] at hreplied
        rw [Stage.replied.inj hreplied]
        exact hin
      | ahead hahead =>
        rw [hstage] at hahead
        cases hahead
      | working hwaiting | done hwaiting =>
        rw [hstage] at hwaiting
        cases hwaiting
      | refused exc hrefused =>
        rw [hstage] at hrefused
        cases hrefused
    cases result with
    | none => exact absurd hput (htold.puts _ hin rfl stream userRecord)
    | some outcome =>
      refine ⟨outcome, rfl, List.mem_filterMap.mpr ⟨_, hin, answer_put hput⟩, hin, ?_⟩
      exact fun number' hin' => answers_distinct hnodup hmatched.answers hin hin'

/-- One record has been answered, and one is being registered. -/
theorem records_are_answers_one :
    ∃ f : Bridge String,
      Reachable (Bridge.start Producer.oneStream) (Bridge.step Producer.oneStream) anyStep f ∧
      f.front.putReplies = [("a", 0)] ∧ f.producer.shared.accepted = [("a", 0), ("a", 4)] ∧
      (f.front.putReplies.map Prod.snd).Nodup := by
  obtain ⟨f, hreach, _, _, hreplies, haccepted⟩ := putsAndFlushes_run
  obtain ⟨_, hnodup, _⟩ := records_are_answers Producer.oneStream hreach
  exact ⟨f, hreach, hreplies, haccepted, hnodup⟩

end SyncProducer

end Aiokpl
