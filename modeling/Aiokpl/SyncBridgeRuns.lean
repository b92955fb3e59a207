import Aiokpl.ProducerEntries
import Aiokpl.SyncBridge
import Aiokpl.SyncProducerRuns

/-!
# The commands and the Producer over whole runs

The dispatcher makes one `put_record` call of the Producer at a time, and answers it with
the Outcome of the record that the call has registered.  `Matched` says where the command
that it executes stands, and accounts for the records of the Producer by the answers.
-/

namespace Aiokpl

open Lib Aggregation

namespace SyncProducer

/-! ## The commands of the calls -/

section Front

variable {R E : Type} {s s' : State R E} {op : Op R E}

theorem kind?_of_get? {number : Nat} {call : Call R E} (hcall : s.calls.get? number = some call) :
    s.kind? number = some call.command.kind := by
  rw [State.kind?, hcall]
  rfl

/-- Exchanging a call for one with the same command changes no kind. -/
theorem kind?_set {number : Nat} {call : Call R E} (hcall : s.calls.get? number = some call)
    (hset : ∃ call' : Call R E, s'.calls = s.calls.set number call' ∧
      call'.command.kind = call.command.kind) (number' : Nat) :
    s'.kind? number' = s.kind? number' := by
  obtain ⟨call', hcalls, hkind⟩ := hset
  by_cases hnumber : number' = number
  · rw [State.kind?, State.kind?, hcalls, hnumber, Dict.get?_set_self, hcall, Option.map_some,
      Option.map_some, hkind]
  · rw [State.kind?, State.kind?, hcalls, Dict.get?_set_ne _ _ hnumber]

theorem kind?_dispatch (h : Served s) {kind : Kind}
    (hcalls : s'.calls = s.calls.set s.nextCall { command := { kind } }) {number : Nat} {k : Kind}
    (hkind : s.kind? number = some k) : s'.kind? number = some k := by
  obtain ⟨call, hcall, _⟩ := Option.map_eq_some_iff.mp hkind
  have hne : number ≠ s.nextCall := by
    rintro rfl
    rw [(h.fresh _ le_rfl)] at hcall
    cases hcall
  rw [State.kind?, hcalls, Dict.get?_set_ne _ _ hne]
  exact hkind

theorem kind_complete (cmd : Command R E) (reply : Reply R E) :
    (cmd.complete reply).kind = cmd.kind := by
  cases reply <;> rfl

/-- The command of a call stays what it is. -/
theorem step_kind? (h : Served s) (hstep : s.step op = some s') {number : Nat} {kind : Kind}
    (hkind : s.kind? number = some kind) : s'.kind? number = some kind := by
  cases step_turn hstep with
  | rejected | cancelled | left => exact hkind
  | enters => exact kind?_dispatch h rfl hkind
  | moves _ hcall | refuses _ hcall | wakes hcall | takes hcall =>
    rw [kind?_set hcall ⟨_, rfl, by rfl⟩]
    exact hkind
  | shuts hcall | executes _ _ hcall =>
    rw [kind?_set hcall ⟨_, rfl, kind_complete _ _⟩]
    exact hkind
  | exit hturn =>
    cases hturn with
    | exits | flushed => exact kind?_dispatch h rfl hkind
    | flushRaised | delivered | shutdownRaised | awaited | stops | returns => exact hkind

/-- The dispatcher takes or completes a command. -/
def Op.serves : Op R E → Bool
  | .receive _ => true
  | .execute _ => true
  | _ => false

/-- The other steps serve no command. -/
theorem step_serves (hstep : s.step op = some s') (hop : op.serves = false) :
    s'.completed = s.completed ∧ s'.dispatcher.executing? = s.dispatcher.executing? ∧
      (s'.dispatcher.gone = false → s.dispatcher.gone = false) := by
  cases op with
  | receive | execute => cases hop
  | putRecord | flush =>
    simp only [State.step, Option.some.injEq] at hstep
    rw [← hstep, State.enter]
    split <;> exact ⟨rfl, rfl, id⟩
  | bind | schedule =>
    simp only [State.step, Option.bind_eq_bind, Option.bind_eq_some_iff] at hstep
    obtain ⟨call, _, hstep⟩ := hstep
    split at hstep
    · split at hstep <;>
      · rw [← Option.some.inj hstep]
        exact ⟨rfl, rfl, id⟩
    · cases hstep
  | refuse | wake =>
    simp only [State.step, Option.bind_eq_bind, Option.bind_eq_some_iff] at hstep
    obtain ⟨call, _, hstep⟩ := hstep
    split at hstep
    · rw [Option.ite_none_right_eq_some] at hstep
      rw [← Option.some.inj hstep.2]
      exact ⟨rfl, rfl, id⟩
    · cases hstep
  | cancelled | left =>
    simp only [State.step, Option.ite_none_right_eq_some, Option.some.injEq] at hstep
    obtain ⟨hdispatcher, rfl⟩ := hstep
    rw [hdispatcher]
    refine ⟨rfl, rfl, ?_⟩
    rintro ⟨⟩
  | exit =>
    simp only [State.step, Option.ite_none_right_eq_some, Option.some.injEq] at hstep
    rw [← hstep.2]
    exact ⟨rfl, rfl, id⟩
  | exitGoes => cases exitGoes_turn hstep <;> exact ⟨rfl, rfl, id⟩

/-- The dispatcher takes a command that it has not executed, or the shutdown. -/
theorem step_receive {number : Nat} (hstep : s.step (.receive number) = some s') :
    s.dispatcher = .receiving ∧
      (s'.dispatcher = .executing number ∧ s'.completed = s.completed ∧
          (∃ kind, s'.kind? number = some kind ∧ kind ≠ .shutdown) ∨
        s'.dispatcher = .leaving ∧ s'.completed = s.completed ++ [(number, .ok none)] ∧
          s'.kind? number = some .shutdown) := by
  simp only [State.step, Option.bind_eq_bind, Option.bind_eq_some_iff] at hstep
  obtain ⟨call, hcall, hstep⟩ := hstep
  split at hstep
  · rw [Option.ite_none_right_eq_some] at hstep
    obtain ⟨hreceiving, hstep⟩ := hstep
    refine ⟨hreceiving, ?_⟩
    obtain rfl := Option.some.inj hstep
    unfold State.take
    cases hkind : call.command.kind with
    | shutdown =>
      refine Or.inr ⟨rfl, rfl, ?_⟩
      rw [kind?_set hcall ⟨_, rfl, kind_complete _ _⟩, kind?_of_get? hcall, hkind]
    | putRecord | flush =>
      refine Or.inl ⟨rfl, rfl, call.command.kind, ?_, ?_⟩
      · rw [kind?_set hcall ⟨_, rfl, by rfl⟩, kind?_of_get? hcall]
      · rw [hkind]
        rintro ⟨⟩
  · cases hstep

theorem step_execute {reply : Reply R E} (hstep : s.step (.execute reply) = some s') :
    ∃ number, s.dispatcher = .executing number ∧ s'.dispatcher = .receiving ∧
      s'.completed = s.completed ++ [(number, reply)] := by
  simp only [State.step, Option.bind_eq_bind, Option.bind_eq_some_iff, Option.some.injEq] at hstep
  obtain ⟨number, hexecuting, call, _, rfl⟩ := hstep
  refine ⟨number, ?_, rfl, rfl⟩
  unfold Dispatcher.executing? at hexecuting
  split at hexecuting
  · rename_i hdispatcher
    rw [hdispatcher, Option.some.inj hexecuting]
  · cases hexecuting

end Front

/-! ## The answers -/

variable {E : Type}

/-- The answers that were given stay, and the new ones follow. -/
theorem putReplies_append {s s' : State Nat E} (h : Served s)
    (hkinds : ∀ number kind, s.kind? number = some kind → s'.kind? number = some kind)
    {answers : List (Nat × Reply Nat E)} (hcompleted : s'.completed = s.completed ++ answers) :
    s'.putReplies = s.putReplies ++ answers.filterMap s'.answer := by
  rw [State.putReplies, hcompleted, List.filterMap_append]
  congr 1
  apply List.filterMap_congr
  intro e he
  obtain ⟨call, hcall⟩ := h.known e.1 (h.mem_received he)
  have hkind := kind?_of_get? hcall
  rw [State.answer, State.answer, hkinds _ _ hkind, hkind]

theorem answer_put {s : State Nat E} {number outcome : Nat} {stream : String}
    {userRecord : UserRecord} (h : s.kind? number = some (.putRecord stream userRecord)) :
    s.answer (number, .ok (some outcome)) = some (stream, outcome) := by
  rw [State.answer, h]

theorem answer_none (s : State Nat E) (number : Nat) : s.answer (number, .ok none) = none := by
  unfold State.answer
  split
  · rename_i hreply
    cases hreply
  · rfl

/-! ## The command that is being executed -/

/-- Where the command stands, and the records that it has registered. -/
inductive Stands (f : Bridge E) : Option Execution → List Producer.Token → Prop
  | idle : f.front.dispatcher.executing? = none → Stands f none []
  | begins {kind : Kind} : f.command = some kind → Stands f (some .begins) []
  | entering {task : Nat} {w : Producer.Work} {call : Producer.PutCall} :
      f.command = some (.putRecord call.stream call.userRecord) →
      f.producer.tasks.get? task = some { kind := .putRecord, work := [w] } →
      w.call? = some call → Stands f (some (.putting task)) []
  | handing {task : Nat} {stream : String} {userRecord : UserRecord} :
      f.command = some (.putRecord stream userRecord) → (f.producer.tasks.get? task).isSome = true →
      Stands f (some (.putting task)) [(stream, task)]
  | returning {outcome : Nat} {stream : String} {userRecord : UserRecord} :
      f.command = some (.putRecord stream userRecord) →
      Stands f (some (.returning outcome)) [(stream, outcome)]
  | flushing {task : Nat} {timeout : Option Time} : f.command = some (.flush timeout) →
      Stands f (some (.flushing task)) []
  | polling {timeout : Option Time} : f.command = some (.flush timeout) →
      Stands f (some .polling) []
  | raising {kind : Kind} : f.command = some kind → Stands f (some .raising) []

/-- The record is on the stream of a `put_record` command that was answered with an
    exception. -/
def Bridge.Refused (f : Bridge E) (k : Producer.Token) : Prop :=
  ∃ number userRecord exc, f.front.kind? number = some (.putRecord k.1 userRecord) ∧
    (number, .error exc) ∈ f.front.completed

/-- The records of the Producer are the answers, what the command has registered, and what
    a command had registered that a crash has ended. -/
structure Accounts (f : Bridge E) (registered lost : List Producer.Token) : Prop where
  accepted : f.producer.shared.accepted = f.front.putReplies ++ registered ++ lost
  crashed : lost ≠ [] → f.producer.crashed = true ∧ registered = []
  once : lost.length ≤ 1
  refused : ∀ k ∈ lost, f.Refused k

/-- The invariant of the façade and its Producer. -/
structure Matched (sys : Producer.System) (f : Bridge E) : Prop where
  served : Served f.front
  sound : Producer.Sound f.producer
  ledger : Producer.Ledger sys.cfg.maxOutstandingRecords f.producer
  tidy : Producer.Ordered f.producer
  running : f.front.dispatcher.gone = false → Producer.Running f.producer ∧
    ∀ e ∈ f.producer.shared.failed, e.2 ≠ .registered
  alone : f.producer.crashed = false → ∀ id t, f.producer.tasks.get? id = some t →
    t.kind = .putRecord → f.execution = some (.putting id)
  accounts : ∃ registered lost, Stands f f.execution registered ∧ Accounts f registered lost
  answers : ∀ e ∈ f.front.completed, ∀ outcome, e.2 = .ok (some outcome) →
    (f.front.answer e).isSome = true

section Matching

variable {sys : Producer.System} {f f' : Bridge E}

theorem Stands.executing {execution : Execution} {registered : List Producer.Token}
    (h : Stands f (some execution) registered) : ∃ kind, f.command = some kind := by
  cases h with
  | begins hcommand | entering hcommand | handing hcommand | returning hcommand
  | flushing hcommand | polling hcommand | raising hcommand => exact ⟨_, hcommand⟩

theorem Stands.length {execution : Option Execution} {registered : List Producer.Token}
    (h : Stands f execution registered) : registered.length ≤ 1 := by
  cases h <;> simp

/-- What has been registered is on the stream of the command. -/
theorem Stands.put {execution : Option Execution} {registered : List Producer.Token}
    (h : Stands f execution registered) {k : Producer.Token} (hk : k ∈ registered) :
    ∃ userRecord, f.command = some (.putRecord k.1 userRecord) := by
  cases h with
  | handing hcommand | returning hcommand =>
    rw [List.mem_singleton.mp hk]
    exact ⟨_, hcommand⟩
  | idle | begins | entering | flushing | polling | raising => cases hk

/-- The history of the façade only grows. -/
theorem Bridge.Refused.kept {k : Producer.Token} (h : f.Refused k)
    (hkinds : ∀ number kind, f.front.kind? number = some kind → f'.front.kind? number = some kind)
    {answers : List (Nat × Reply Nat E)}
    (hcompleted : f'.front.completed = f.front.completed ++ answers) : f'.Refused k := by
  obtain ⟨number, userRecord, exc, hkind, hin⟩ := h
  refine ⟨number, userRecord, exc, hkinds _ _ hkind, ?_⟩
  rw [hcompleted]
  exact List.mem_append_left _ hin

theorem command_executing {kind : Kind} (h : f.command = some kind) :
    ∃ number, f.front.dispatcher = .executing number ∧ f.front.kind? number = some kind := by
  obtain ⟨number, hexecuting, hkind⟩ := Option.bind_eq_some_iff.mp h
  unfold Dispatcher.executing? at hexecuting
  split at hexecuting
  · rename_i hdispatcher
    rw [← Option.some.inj hexecuting] at hkind
    exact ⟨_, hdispatcher, hkind⟩
  · cases hexecuting

theorem not_gone_of_command {kind : Kind} (h : f.command = some kind) :
    f.front.dispatcher.gone = false := by
  obtain ⟨number, hdispatcher, _⟩ := command_executing h
  rw [hdispatcher]
  rfl

/-- The command is the same while the dispatcher executes it. -/
theorem Stands.kept {execution : Option Execution} {registered : List Producer.Token}
    (h : Stands f execution registered)
    (hexecuting : f'.front.dispatcher.executing? = f.front.dispatcher.executing?)
    (hkinds : ∀ number kind, f.front.kind? number = some kind → f'.front.kind? number = some kind)
    (htasks : f'.producer.tasks = f.producer.tasks) : Stands f' execution registered := by
  have hcommand : ∀ kind, f.command = some kind → f'.command = some kind := by
    intro kind hkind
    obtain ⟨number, hnumber, hkind⟩ := Option.bind_eq_some_iff.mp hkind
    rw [Bridge.command, hexecuting, hnumber]
    exact hkinds number kind hkind
  cases h with
  | idle hnone => exact .idle (hexecuting.trans hnone)
  | begins hkind => exact .begins (hcommand _ hkind)
  | entering hkind hfound hcall => exact .entering (hcommand _ hkind) (htasks ▸ hfound) hcall
  | handing hkind hfound => exact .handing (hcommand _ hkind) (htasks ▸ hfound)
  | returning hkind => exact .returning (hcommand _ hkind)
  | flushing hkind => exact .flushing (hcommand _ hkind)
  | polling hkind => exact .polling (hcommand _ hkind)
  | raising hkind => exact .raising (hcommand _ hkind)

/-! ## Steps of the Producer -/

/-- What the steps of the Producer keep. -/
theorem Matched.producer (h : Matched sys f) {op : Producer.Op} {producer : Producer.State}
    (hstep : f.producer.step sys op = some producer)
    (hcancel : ∀ id t, op = .cancel id → f.producer.tasks.get? id = some t → t.kind ≠ .putRecord)
    (hexit : f.front.dispatcher.gone = false → op ≠ .exit) :
    Producer.Sound producer ∧ Producer.Ledger sys.cfg.maxOutstandingRecords producer ∧
      Producer.Ordered producer ∧ (f.front.dispatcher.gone = false → Producer.Running producer ∧
        ∀ e ∈ producer.shared.failed, e.2 ≠ .registered) := by
  refine ⟨h.sound.step hstep, h.ledger.step h.sound hstep, Producer.step_ordered h.tidy hstep, ?_⟩
  intro hgone
  obtain ⟨hrunning, hearly⟩ := h.running hgone
  refine ⟨hrunning.step h.sound (hexit hgone) hstep, ?_⟩
  rw [Producer.step_failed h.sound hstep]
  intro e he
  rcases List.mem_append.mp he with hold | hnew
  · exact hearly e hold
  · exact hrunning.failsEarly h.sound h.tidy hstep hcancel e hnew

theorem returned_of_task {s : Producer.State} (hs : Producer.Sound s) {id : Nat}
    (hfound : (s.tasks.get? id).isSome = true) : id ∉ s.shared.returned := by
  obtain ⟨t, ht⟩ := Option.isSome_iff_exists.mp hfound
  have hcall := hs.calls id
  rw [ht] at hcall
  cases hcall with
  | entering _ _ _ hstanding | handing _ hstanding | background _ hstanding =>
    exact fun hreturned => hstanding.returned.mp hreturned

/-- A call that is over has returned exactly if it registered its record, as long as none
    fails late. -/
theorem returned_iff_accepted {s : Producer.State} (hs : Producer.Sound s) {id : Nat}
    (hearly : ∀ e ∈ s.shared.failed, e.2 ≠ .registered) (hover : s.tasks.get? id = none) :
    id ∈ s.shared.returned ↔ id ∈ Producer.acceptedIds s.shared := by
  have hcall := hs.calls id
  rw [hover] at hcall
  cases hcall with
  | returned hstanding => simp [hstanding.returned, hstanding.accepted]
  | absent hstanding => simp [hstanding.returned, hstanding.accepted]
  | @failed phase accepted hiff hstanding =>
    have hphase : phase ≠ .registered := hearly _ ((hstanding.failed phase).mpr rfl)
    rw [hstanding.returned, hstanding.accepted, ← hiff]
    exact iff_of_false not_false hphase

/-- Only the call that the dispatcher awaits registers a record. -/
theorem Matched.registers (h : Matched sys f) {op : Producer.Op} {producer : Producer.State}
    (hstep : f.producer.step sys op = some producer) :
    producer.shared.accepted = f.producer.shared.accepted ∨
      ∃ task w call, f.execution = some (.putting task) ∧ op.task? = some task ∧
        f.producer.tasks.get? task = some { kind := .putRecord, work := [w] } ∧
        w.call? = some call ∧
        producer.shared.accepted = f.producer.shared.accepted ++ [(call.stream, task)] ∧
        (producer.tasks.get? task).isSome = true := by
  rcases Producer.step_registers h.sound hstep with hsame |
    ⟨task, w, call, htask, hfound, hcall, haccepted, htasks⟩
  · exact Or.inl hsame
  · have hputting := h.alone (Producer.step_turn hstep).1 task _ hfound rfl
    exact Or.inr ⟨task, w, call, hputting, htask, hfound, hcall, haccepted, htasks⟩

theorem Matched.registers_none (h : Matched sys f) {op : Producer.Op} {producer : Producer.State}
    (hstep : f.producer.step sys op = some producer)
    (hnot : ∀ task, f.execution ≠ some (.putting task)) :
    producer.shared.accepted = f.producer.shared.accepted := by
  rcases h.registers hstep with hsame | ⟨task, _, _, hputting, _⟩
  · exact hsame
  · exact absurd hputting (hnot task)

/-- A call that enters goes on, is over, or has registered its record. -/
theorem Matched.enters (h : Matched sys f) {op : Producer.Op} {producer : Producer.State}
    (hstep : f.producer.step sys op = some producer) (hsound : Producer.Sound producer)
    (hearly : ∀ e ∈ producer.shared.failed, e.2 ≠ .registered) {task : Nat}
    {w : Producer.Work} {call : Producer.PutCall} (hexecution : f.execution = some (.putting task))
    (hfound : f.producer.tasks.get? task = some { kind := .putRecord, work := [w] })
    (hcall : w.call? = some call) :
    producer.shared.accepted = f.producer.shared.accepted ∧ task ∉ producer.shared.returned ∧
        ((∃ w', producer.tasks.get? task = some { kind := .putRecord, work := [w'] } ∧
          w'.call? = some call) ∨ producer.tasks.get? task = none) ∨
      producer.shared.accepted = f.producer.shared.accepted ++ [(call.stream, task)] ∧
        task ∉ producer.shared.returned ∧ (producer.tasks.get? task).isSome = true := by
  have hnew : task ∉ Producer.acceptedIds f.producer.shared := fun hin =>
    (h.sound.entering hfound hcall).2.2.2.accepted.mp hin
  have hregisters := h.registers hstep
  have hgoes := Producer.step_entering h.sound hstep hfound hcall
  rcases hregisters with hsame | ⟨task', w', call', hputting, _, hfound', hcall', haccepted, htasks⟩
  · refine Or.inl ⟨hsame, ?_⟩
    have hnew' : task ∉ Producer.acceptedIds producer.shared := by
      rw [Producer.acceptedIds, hsame]
      exact hnew
    rcases hgoes with ⟨w', hfound', hcall'⟩ | hover | hin
    · refine ⟨returned_of_task hsound ?_, Or.inl ⟨w', hfound', hcall'⟩⟩
      rw [hfound']
      rfl
    · exact ⟨fun hin => hnew' ((returned_iff_accepted hsound hearly hover).mp hin), Or.inr hover⟩
    · exact absurd hin hnew'
  · rw [hexecution] at hputting
    obtain rfl : task = task' := Execution.putting.inj (Option.some.inj hputting)
    rw [hfound] at hfound'
    obtain ⟨_, hwork⟩ := (Producer.Task.mk.injEq ..).mp (Option.some.inj hfound')
    obtain ⟨rfl, _⟩ := (List.cons.injEq ..).mp hwork
    obtain rfl := Option.some.inj (hcall'.symm.trans hcall)
    exact Or.inr ⟨haccepted, returned_of_task hsound htasks, htasks⟩

/-- A call that has registered its record registers no other, and returns when it is over. -/
theorem Matched.hands (h : Matched sys f) {op : Producer.Op} {producer : Producer.State}
    (hstep : f.producer.step sys op = some producer) (hsound : Producer.Sound producer)
    (hearly : ∀ e ∈ producer.shared.failed, e.2 ≠ .registered) {task : Nat}
    (hexecution : f.execution = some (.putting task))
    (haccepted : task ∈ Producer.acceptedIds f.producer.shared) :
    producer.shared.accepted = f.producer.shared.accepted ∧
      (task ∈ producer.shared.returned ∨ (producer.tasks.get? task).isSome = true) := by
  have hsame : producer.shared.accepted = f.producer.shared.accepted := by
    rcases h.registers hstep with hsame | ⟨task', w, call, hputting, _, hfound, hcall, _⟩
    · exact hsame
    · rw [hexecution] at hputting
      obtain rfl : task = task' := Execution.putting.inj (Option.some.inj hputting)
      exact absurd haccepted fun hin => (h.sound.entering hfound hcall).2.2.2.accepted.mp hin
  refine ⟨hsame, ?_⟩
  cases hfound : producer.tasks.get? task with
  | some t => exact Or.inr rfl
  | none =>
    refine Or.inl ((returned_iff_accepted hsound hearly hfound).mpr ?_)
    rw [Producer.acceptedIds, hsame]
    exact haccepted

/-- **What a step of the Producer makes of the command.** -/
theorem Matched.stands (h : Matched sys f) {op : Producer.Op} {producer : Producer.State}
    (hstep : f.producer.step sys op = some producer) (hsound : Producer.Sound producer)
    (hearly : f.front.dispatcher.gone = false → ∀ e ∈ producer.shared.failed, e.2 ≠ .registered)
    {registered : List Producer.Token} (hstands : Stands f f.execution registered)
    (haccepted : f.producer.shared.accepted = f.front.putReplies ++ registered)
    (hf' : f' = { f with
      producer, execution := f.execution.map (Execution.after sys f.producer producer op) }) :
    ∃ registered', Stands f' f'.execution registered' ∧
      producer.shared.accepted = f.front.putReplies ++ registered' := by
  have hcommand : f'.command = f.command := by
    rw [hf']
    rfl
  have hproducer : f'.producer = producer := by rw [hf']
  have hexecution' : f'.execution =
      f.execution.map (Execution.after sys f.producer producer op) := by rw [hf']
  rw [hexecution']
  generalize hexecution : f.execution = execution at hstands
  cases hstands with
  | idle hnone =>
    refine ⟨[], .idle ?_, ?_⟩
    · rw [hf']
      exact hnone
    · rw [h.registers_none hstep (by simp [hexecution]), haccepted]
  | begins hkind =>
    refine ⟨[], .begins (hcommand.trans hkind), ?_⟩
    rw [h.registers_none hstep (by simp [hexecution]), haccepted]
  | raising hkind =>
    refine ⟨[], .raising (hcommand.trans hkind), ?_⟩
    rw [h.registers_none hstep (by simp [hexecution]), haccepted]
  | polling hkind =>
    refine ⟨[], .polling (hcommand.trans hkind), ?_⟩
    rw [h.registers_none hstep (by simp [hexecution]), haccepted]
  | @returning outcome stream _ hkind =>
    refine ⟨[(stream, outcome)], .returning (hcommand.trans hkind), ?_⟩
    rw [h.registers_none hstep (by simp [hexecution]), haccepted]
  | @flushing task timeout hkind =>
    refine ⟨[], ?_, ?_⟩
    · rw [Option.map_some, Execution.after]
      split
      · exact .flushing (hcommand.trans hkind)
      · split
        · exact .polling (hcommand.trans hkind)
        · exact .raising (hcommand.trans hkind)
    · rw [h.registers_none hstep (by simp [hexecution]), haccepted]
  | @entering task w call hkind hfound hcall =>
    rcases h.enters hstep hsound (hearly (not_gone_of_command hkind)) hexecution hfound hcall with
      ⟨hsame, hreturned, ⟨w', hfound', hcall'⟩ | hover⟩ | ⟨hnew, hreturned, htasks⟩
    · refine ⟨[], ?_, hsame.trans haccepted⟩
      rw [Option.map_some, Execution.after, if_neg hreturned, hfound']
      refine .entering (hcommand.trans hkind) ?_ hcall'
      rw [hproducer]
      exact hfound'
    · refine ⟨[], ?_, hsame.trans haccepted⟩
      rw [Option.map_some, Execution.after, if_neg hreturned, hover]
      exact .raising (hcommand.trans hkind)
    · refine ⟨[(call.stream, task)], ?_, ?_⟩
      · rw [Option.map_some, Execution.after, if_neg hreturned, if_pos htasks]
        refine .handing (hcommand.trans hkind) ?_
        rw [hproducer]
        exact htasks
      · rw [hnew, haccepted, List.append_nil]
  | @handing task stream userRecord hkind htask =>
    have hin : task ∈ Producer.acceptedIds f.producer.shared := by
      rw [Producer.acceptedIds, haccepted, List.map_append]
      exact List.mem_append_right _ List.mem_cons_self
    obtain ⟨hsame, hgoes⟩ :=
      h.hands hstep hsound (hearly (not_gone_of_command hkind)) hexecution hin
    refine ⟨[(stream, task)], ?_, hsame.trans haccepted⟩
    rw [Option.map_some, Execution.after]
    split
    · exact .returning (hcommand.trans hkind)
    · rename_i hreturned
      have htasks := hgoes.resolve_left hreturned
      rw [if_pos htasks]
      refine .handing (hcommand.trans hkind) ?_
      rw [hproducer]
      exact htasks

/-! ## Steps of the façade -/

theorem answers_append {s s' : State Nat E} (h : Served s)
    (hkinds : ∀ number kind, s.kind? number = some kind → s'.kind? number = some kind)
    {answers : List (Nat × Reply Nat E)} (hcompleted : s'.completed = s.completed ++ answers)
    (hold : ∀ e ∈ s.completed, ∀ outcome, e.2 = .ok (some outcome) → (s.answer e).isSome = true)
    (hnew : ∀ e ∈ answers, ∀ outcome, e.2 = .ok (some outcome) → (s'.answer e).isSome = true) :
    ∀ e ∈ s'.completed, ∀ outcome, e.2 = .ok (some outcome) → (s'.answer e).isSome = true := by
  intro e he outcome hreply
  rw [hcompleted] at he
  rcases List.mem_append.mp he with hin | hin
  · obtain ⟨call, hcall⟩ := h.known e.1 (h.mem_received hin)
    have hkind := kind?_of_get? hcall
    have hsome := hold e hin outcome hreply
    rw [State.answer, hkind] at hsome
    rw [State.answer, hkinds _ _ hkind]
    exact hsome
  · exact hnew e hin outcome hreply

/-- A step of the façade that serves no command. -/
theorem Matched.fronts (h : Matched sys f) {op : Op Nat E} {front : State Nat E}
    (hop : op.serves = false) (hstep : f.front.step op = some front) :
    Matched sys { f with front } := by
  have hserved := step_served h.served hstep
  have hkinds : ∀ number kind, f.front.kind? number = some kind → front.kind? number = some kind :=
    fun _ _ => step_kind? h.served hstep
  obtain ⟨hcompleted, hexecuting, hgone⟩ := step_serves hstep hop
  rw [← List.append_nil f.front.completed] at hcompleted
  have hreplies := putReplies_append h.served hkinds hcompleted
  rw [List.filterMap_nil, List.append_nil] at hreplies
  constructor
  · exact hserved
  · exact h.sound
  · exact h.ledger
  · exact h.tidy
  · exact fun hnot => h.running (hgone hnot)
  · exact h.alone
  · obtain ⟨registered, lost, hstands, haccounts⟩ := h.accounts
    refine ⟨registered, lost, hstands.kept hexecuting hkinds rfl, ?_⟩
    refine ⟨?_, haccounts.crashed, haccounts.once, ?_⟩
    · rw [hreplies]
      exact haccounts.accepted
    · exact fun k hk => (haccounts.refused k hk).kept hkinds hcompleted
  · apply answers_append h.served hkinds hcompleted h.answers
    intro e he
    cases he

/-- A step of the Producer that it takes by itself. -/
theorem Matched.works (h : Matched sys f) {op : Producer.Op} {producer : Producer.State}
    (hop : ordered op = false) (hstep : f.producer.step sys op = some producer) :
    Matched sys { f with
      producer, execution := f.execution.map (Execution.after sys f.producer producer op) } := by
  have hcrashed := (Producer.step_turn hstep).1
  obtain ⟨hsound, hledger, htidy, hrunning⟩ := h.producer hstep
    (by rintro id t rfl; cases hop) (by rintro _ rfl; cases hop)
  constructor
  · exact h.served
  · exact hsound
  · exact hledger
  · exact htidy
  · exact hrunning
  · intro _ id t ht hkind
    have hputting : f.execution = some (.putting id) := by
      rcases Producer.step_putTasks h.sound hstep ht hkind with ⟨t', ht', hkind'⟩ | ⟨_, _, rfl⟩
      · exact h.alone hcrashed id t' ht' hkind'
      · cases hop
    have htasks : (producer.tasks.get? id).isSome = true := Option.isSome_iff_exists.mpr ⟨t, ht⟩
    rw [hputting, Option.map_some, Execution.after, if_neg (returned_of_task hsound htasks),
      if_pos htasks]
  · obtain ⟨registered, lost, hstands, haccounts⟩ := h.accounts
    have hnone : lost = [] := by
      by_contra hne
      have hcrash := (haccounts.crashed hne).1
      rw [hcrashed] at hcrash
      cases hcrash
    have haccepted := haccounts.accepted
    rw [hnone, List.append_nil] at haccepted
    obtain ⟨registered', hstands', haccepted'⟩ := h.stands hstep hsound
      (fun hgone => (hrunning hgone).2) hstands haccepted rfl
    refine ⟨registered', [], hstands', ?_, fun hne => absurd rfl hne, Nat.zero_le _, ?_⟩
    · rw [List.append_nil]
      exact haccepted'
    · intro k hk
      cases hk
  · exact h.answers

/-- The dispatcher takes a command. -/
theorem Matched.receives (h : Matched sys f) {number : Nat} {front : State Nat E}
    (hstep : f.front.step (.receive number) = some front) :
    Matched sys { f with
      front, execution := front.dispatcher.executing?.map fun _ => .begins } := by
  have hserved := step_served h.served hstep
  have hkinds : ∀ number kind, f.front.kind? number = some kind → front.kind? number = some kind :=
    fun _ _ => step_kind? h.served hstep
  obtain ⟨hreceiving, htaken⟩ := step_receive hstep
  have hgone : f.front.dispatcher.gone = false := by
    rw [hreceiving]
    rfl
  obtain ⟨registered, lost, hstands, haccounts⟩ := h.accounts
  have hidle : f.execution = none ∧ registered = [] := by
    generalize f.execution = execution at hstands
    cases hstands with
    | idle => exact ⟨rfl, rfl⟩
    | begins hkind | entering hkind | handing hkind | returning hkind | flushing hkind
    | polling hkind | raising hkind =>
      obtain ⟨number', hexecuting, _⟩ := command_executing hkind
      rw [hreceiving] at hexecuting
      cases hexecuting
  obtain ⟨hexecution, rfl⟩ := hidle
  have hcompleted : ∃ answers, front.completed = f.front.completed ++ answers ∧
      answers.filterMap front.answer = [] ∧ ∀ e ∈ answers, ∀ outcome, e.2 ≠ .ok (some outcome) := by
    rcases htaken with ⟨_, hcompleted, _⟩ | ⟨_, hcompleted, _⟩
    · refine ⟨[], hcompleted.trans (List.append_nil _).symm, rfl, ?_⟩
      intro e he
      cases he
    · refine ⟨_, hcompleted, ?_, ?_⟩
      · rw [List.filterMap_cons, answer_none]
        rfl
      · intro e he outcome hreply
        rw [List.mem_singleton.mp he] at hreply
        cases hreply
  obtain ⟨answers, hcompleted, hnone, hanswers⟩ := hcompleted
  constructor
  · exact hserved
  · exact h.sound
  · exact h.ledger
  · exact h.tidy
  · exact fun _ => h.running hgone
  · intro hcrashed id t ht hkind
    have hputting := h.alone hcrashed id t ht hkind
    rw [hexecution] at hputting
    cases hputting
  · refine ⟨[], lost, ?_, ?_, haccounts.crashed, haccounts.once, ?_⟩
    · rcases htaken with ⟨hexecuting, _, kind, hkind, _⟩ | ⟨hleaving, _⟩
      · rw [hexecuting]
        apply Stands.begins
        rw [Bridge.command, hexecuting]
        exact hkind
      · rw [hleaving]
        apply Stands.idle
        rw [hleaving]
        rfl
    · rw [putReplies_append h.served hkinds hcompleted, hnone, List.append_nil]
      exact haccounts.accepted
    · exact fun k hk => (haccounts.refused k hk).kept hkinds hcompleted
  · apply answers_append h.served hkinds hcompleted h.answers
    intro e he outcome hreply
    exact absurd hreply (hanswers e he outcome)

/-- The dispatcher makes the Producer take a step that registers nothing: it calls it, or
    cancels a flush, or leaves it. -/
theorem Matched.orders (h : Matched sys f) {op : Producer.Op} {producer : Producer.State}
    (hstep : f.producer.step sys op = some producer)
    (hcancel : ∀ id t, op = .cancel id → f.producer.tasks.get? id = some t → t.kind ≠ .putRecord)
    (hexit : f.front.dispatcher.gone = false → op ≠ .exit)
    (hnot : ∀ task, f.execution ≠ some (.putting task)) {execution : Option Execution}
    (hstands : ∀ registered, Stands f f.execution registered →
      Stands { f with producer, execution } execution registered)
    (halone : ∀ id t, producer.tasks.get? id = some t → t.kind = .putRecord →
      (∃ stream userRecord, op = .putRecord stream userRecord) → execution = some (.putting id)) :
    Matched sys { f with producer, execution } := by
  have hcrashed := (Producer.step_turn hstep).1
  obtain ⟨hsound, hledger, htidy, hrunning⟩ := h.producer hstep hcancel hexit
  constructor
  · exact h.served
  · exact hsound
  · exact hledger
  · exact htidy
  · exact hrunning
  · intro _ id t ht hkind
    rcases Producer.step_putTasks h.sound hstep ht hkind with ⟨t', ht', hkind'⟩ | hput
    · exact absurd (h.alone hcrashed id t' ht' hkind') (hnot id)
    · exact halone id t ht hkind hput
  · obtain ⟨registered, lost, hstands', haccounts⟩ := h.accounts
    refine ⟨registered, lost, hstands registered hstands', ?_, ?_, haccounts.once,
      haccounts.refused⟩
    · rw [h.registers_none hstep hnot]
      exact haccounts.accepted
    · intro hne
      have hcrash := (haccounts.crashed hne).1
      rw [hcrashed] at hcrash
      cases hcrash
  · exact h.answers

theorem complete_eq {reply : Reply Nat E} (hcomplete : f.complete reply = some f') :
    ∃ front, f.front.step (.execute reply) = some front ∧
      f' = { f with front, execution := none } := by
  simp only [Bridge.complete, Option.bind_eq_bind, Option.bind_eq_some_iff,
    Option.some.injEq] at hcomplete
  obtain ⟨front, hfront, rfl⟩ := hcomplete
  exact ⟨front, hfront, rfl⟩

/-- The dispatcher has its reply: the answer is what the command has registered, or there
    is none, and it has registered nothing unless the Producer has crashed. -/
theorem Matched.completes (h : Matched sys f) {reply : Reply Nat E}
    (hcomplete : f.complete reply = some f')
    (hover : f.producer.crashed = false → ∀ task, f.execution ≠ some (.putting task))
    (hreply : ∀ registered, Stands f f.execution registered → ∀ number kind,
      f.front.dispatcher = .executing number → f.front.kind? number = some kind →
      (∃ stream userRecord outcome, kind = .putRecord stream userRecord ∧
          reply = .ok (some outcome) ∧ registered = [(stream, outcome)]) ∨
        (∀ outcome, reply ≠ .ok (some outcome)) ∧
          (registered ≠ [] → f.producer.crashed = true ∧ ∃ exc, reply = .error exc)) :
    Matched sys f' := by
  obtain ⟨front, hfront, rfl⟩ := complete_eq hcomplete
  have hserved := step_served h.served hfront
  have hkinds : ∀ number kind, f.front.kind? number = some kind → front.kind? number = some kind :=
    fun _ _ => step_kind? h.served hfront
  obtain ⟨number, hexecuting, hreceiving, hcompleted⟩ := step_execute hfront
  have hgone : f.front.dispatcher.gone = false := by
    rw [hexecuting]
    rfl
  obtain ⟨call, hcall⟩ := h.served.known number (by
    rw [h.served.serial, hexecuting]
    exact List.mem_append_right _ List.mem_cons_self)
  have hkind := kind?_of_get? hcall
  have hreplies := putReplies_append h.served hkinds hcompleted
  obtain ⟨registered, lost, hstands, haccounts⟩ := h.accounts
  have hanswer := hreply registered hstands number _ hexecuting hkind
  have hidle : Stands { f with front, execution := none } none [] := by
    apply Stands.idle
    rw [hreceiving]
    rfl
  constructor
  · exact hserved
  · exact h.sound
  · exact h.ledger
  · exact h.tidy
  · exact fun _ => h.running hgone
  · intro hcrashed id t ht hput
    exact absurd (h.alone hcrashed id t ht hput) (hover hcrashed id)
  · rcases hanswer with ⟨stream, userRecord, outcome, hput, rfl, rfl⟩ | ⟨hno, hcrash⟩
    · refine ⟨[], lost, hidle, ?_, ?_, haccounts.once, ?_⟩
      · rw [hput] at hkind
        rw [hreplies, List.filterMap_cons, answer_put (hkinds _ _ hkind), List.filterMap_nil,
          List.append_nil]
        exact haccounts.accepted
      · exact fun hne => ⟨(haccounts.crashed hne).1, rfl⟩
      · exact fun k hk => (haccounts.refused k hk).kept hkinds hcompleted
    · have hnone : front.answer (number, reply) = none := by
        unfold State.answer
        split
        · rename_i hok
          exact absurd hok (hno _)
        · rfl
      refine ⟨[], registered ++ lost, hidle, ?_, ?_, ?_, ?_⟩
      · rw [hreplies, List.filterMap_cons, hnone, List.filterMap_nil, List.append_nil,
          List.append_nil, ← List.append_assoc]
        exact haccounts.accepted
      · intro hne
        refine ⟨?_, rfl⟩
        by_cases hempty : registered = []
        · rw [hempty, List.nil_append] at hne
          exact (haccounts.crashed hne).1
        · exact (hcrash hempty).1
      · by_cases hempty : lost = []
        · rw [hempty, List.append_nil]
          exact hstands.length
        · rw [(haccounts.crashed hempty).2, List.nil_append]
          exact haccounts.once
      · intro k hk
        rcases List.mem_append.mp hk with hnew | hold
        · obtain ⟨userRecord, hcommand⟩ := hstands.put hnew
          obtain ⟨_, exc, rfl⟩ := hcrash (List.ne_nil_of_mem hnew)
          rw [Bridge.command, hexecuting] at hcommand
          refine ⟨number, userRecord, exc, hkinds _ _ hcommand, ?_⟩
          rw [hcompleted]
          exact List.mem_append_right _ List.mem_cons_self
        · exact (haccounts.refused k hold).kept hkinds hcompleted
  · apply answers_append h.served hkinds hcompleted h.answers
    intro e he outcome hok
    rw [List.mem_singleton.mp he] at hok ⊢
    rcases hanswer with ⟨stream, userRecord, outcome', hput, rfl, _⟩ | ⟨hno, _⟩
    · rw [hput] at hkind
      rw [answer_put (hkinds _ _ hkind)]
      rfl
    · exact absurd hok (hno outcome)

theorem serves_of_admits {op : Op Nat E} (h : f.admits op = true) : op.serves = false := by
  cases op with
  | execute | receive => cases h
  | _ => rfl

/-- A call that the Producer does not refuse is there, in its first frame. -/
theorem putRecord_enters {s s' : Producer.State} {stream : String} {userRecord : UserRecord}
    (hopen : ¬(s.shared.closed ∨ userRecord.partitionKey = ""))
    (hstep : s.step sys (.putRecord stream userRecord) = some s') :
    s' = s.spawn (some
      { kind := .putRecord, work := [.acquire { number := s.nextTask, stream, userRecord }] }) := by
  simp only [Producer.State.step, if_neg hopen] at hstep
  split at hstep
  · cases hstep
  · exact (Option.some.inj hstep).symm

/-- The Producer refuses the call. -/
theorem Matched.refuses (h : Matched sys f) (hexecution : f.execution = some .begins) {kind : Kind}
    (hcommand : f.command = some kind) : Matched sys { f with execution := some .raising } := by
  obtain ⟨registered, lost, hstands, haccounts⟩ := h.accounts
  rw [hexecution] at hstands
  cases hstands
  refine ⟨h.served, h.sound, h.ledger, h.tidy, h.running, ?_, ?_, h.answers⟩
  · intro hcrashed id t ht hkind
    have hputting := h.alone hcrashed id t ht hkind
    rw [hexecution] at hputting
    cases hputting
  · exact ⟨[], lost, .raising hcommand, haccounts.accepted, haccounts.crashed, haccounts.once,
      haccounts.refused⟩

/-- The Producer has been called for a record. -/
theorem Matched.puts (h : Matched sys f) (hexecution : f.execution = some .begins)
    {stream : String} {userRecord : UserRecord}
    (hcommand : f.command = some (.putRecord stream userRecord))
    (hopen : ¬(f.producer.shared.closed ∨ userRecord.partitionKey = ""))
    {producer : Producer.State}
    (hproducer : f.producer.step sys (.putRecord stream userRecord) = some producer) :
    Matched sys { f with producer, execution := some (.putting f.producer.nextTask) } := by
  have henters := putRecord_enters hopen hproducer
  apply h.orders hproducer
  · rintro id t ⟨⟩
  · rintro _ ⟨⟩
  · rw [hexecution]
    rintro task ⟨⟩
  · intro registered hstands
    rw [hexecution] at hstands
    cases hstands
    refine .entering (w := .acquire { number := f.producer.nextTask, stream, userRecord }) ?_ ?_ rfl
    · exact hcommand
    · rw [henters, Producer.get?_spawn, if_pos rfl]
  · intro id t ht hkind _
    rw [henters, Producer.get?_spawn] at ht
    split at ht
    · rename_i hid
      rw [hid]
    · have hputting := h.alone (Producer.step_turn hproducer).1 id t ht hkind
      rw [hexecution] at hputting
      cases hputting

/-- The Producer has been called for a flush. -/
theorem Matched.flushes (h : Matched sys f) (hexecution : f.execution = some .begins)
    {timeout : Option Time} (hcommand : f.command = some (.flush timeout))
    {producer : Producer.State} (hproducer : f.producer.step sys .flush = some producer) :
    Matched sys { f with producer, execution := some (.flushing f.producer.nextTask) } := by
  apply h.orders hproducer
  · rintro id t ⟨⟩
  · rintro _ ⟨⟩
  · rw [hexecution]
    rintro task ⟨⟩
  · intro registered hstands
    rw [hexecution] at hstands
    cases hstands
    exact .flushing hcommand
  · rintro id t _ _ ⟨_, _, ⟨⟩⟩

/-- The flush that the dispatcher awaits has been cancelled. -/
theorem Matched.cancels (h : Matched sys f) {task : Nat}
    (hexecution : f.execution = some (.flushing task)) {timeout : Option Time}
    (hcommand : f.command = some (.flush timeout)) {producer : Producer.State}
    (hproducer : f.producer.step sys (.cancel task) = some producer) :
    Matched sys { f with producer } := by
  apply h.orders hproducer
  · intro id t _ ht hkind
    have hputting := h.alone (Producer.step_turn hproducer).1 id t ht hkind
    rw [hexecution] at hputting
    cases hputting
  · rintro _ ⟨⟩
  · rw [hexecution]
    rintro task ⟨⟩
  · intro registered hstands
    rw [hexecution] at hstands ⊢
    cases hstands
    exact .flushing hcommand
  · rintro id t _ _ ⟨_, _, ⟨⟩⟩

/-- The dispatcher leaves the Producer. -/
theorem Matched.leaves (h : Matched sys f) (hleaving : f.front.dispatcher = .leaving)
    {producer : Producer.State} (hproducer : f.producer.step sys .exit = some producer) :
    Matched sys { f with producer } := by
  have hidle : ∀ execution, f.execution ≠ some execution := by
    intro execution hexecution
    obtain ⟨registered, _, hstands, _⟩ := h.accounts
    rw [hexecution] at hstands
    obtain ⟨kind, hcommand⟩ := hstands.executing
    have hgone := not_gone_of_command hcommand
    rw [hleaving] at hgone
    cases hgone
  apply h.orders hproducer
  · rintro id t ⟨⟩
  · rw [hleaving]
    rintro ⟨⟩
  · exact fun task => hidle _
  · intro registered hstands
    generalize hexecution : f.execution = execution at hstands ⊢
    cases hstands with
    | idle hnone => exact .idle hnone
    | _ => exact absurd hexecution (hidle _)
  · rintro id t _ _ ⟨_, _, ⟨⟩⟩

/-- A flush ends without a record to answer with. -/
theorem Matched.unanswered (h : Matched sys f) {reply : Reply Nat E}
    (hcomplete : f.complete reply = some f')
    (hexecution : f.execution = some .polling ∨ ∃ task, f.execution = some (.flushing task))
    (hreply : ∀ outcome, reply ≠ .ok (some outcome)) : Matched sys f' := by
  apply h.completes hcomplete
  · intro _ task hputting
    rcases hexecution with hpolling | ⟨task', hflushing⟩
    · rw [hpolling] at hputting
      cases hputting
    · rw [hflushing] at hputting
      cases hputting
  · intro registered hstands _ _ _ _
    refine Or.inr ⟨hreply, fun hne => ?_⟩
    rcases hexecution with hpolling | ⟨task', hflushing⟩
    · rw [hpolling] at hstands
      cases hstands
      exact absurd rfl hne
    · rw [hflushing] at hstands
      cases hstands
      exact absurd rfl hne

/-- **Every step** keeps the façade and its Producer matched. -/
theorem Matched.step (h : Matched sys f) {op : Bridge.Op E} (hstep : f.step sys op = some f') :
    Matched sys f' := by
  cases op with
  | front op =>
    simp only [Bridge.step, Option.ite_none_right_eq_some, Option.bind_eq_bind,
      Option.bind_eq_some_iff, Option.some.injEq] at hstep
    obtain ⟨hadmits, front, hfront, rfl⟩ := hstep
    exact h.fronts (serves_of_admits hadmits) hfront
  | producer op =>
    simp only [Bridge.step, Option.ite_none_left_eq_some, Option.bind_eq_bind,
      Option.bind_eq_some_iff, Option.some.injEq] at hstep
    obtain ⟨hordered, producer, hproducer, rfl⟩ := hstep
    exact h.works (Bool.eq_false_iff.mpr hordered) hproducer
  | receive number =>
    simp only [Bridge.step, Option.bind_eq_bind, Option.bind_eq_some_iff,
      Option.some.injEq] at hstep
    obtain ⟨front, hfront, rfl⟩ := hstep
    exact h.receives hfront
  | begins =>
    simp only [Bridge.step] at hstep
    split at hstep
    · rename_i stream userRecord hexecution hcommand
      split at hstep
      · rw [← Option.some.inj hstep]
        exact h.refuses hexecution hcommand
      · rename_i hopen
        simp only [Option.bind_eq_bind, Option.bind_eq_some_iff, Option.some.injEq] at hstep
        obtain ⟨producer, hproducer, rfl⟩ := hstep
        exact h.puts hexecution hcommand hopen hproducer
    · rename_i timeout hexecution hcommand
      simp only [Option.bind_eq_bind, Option.bind_eq_some_iff, Option.some.injEq] at hstep
      obtain ⟨producer, hproducer, rfl⟩ := hstep
      exact h.flushes hexecution hcommand hproducer
    · cases hstep
  | returns =>
    simp only [Bridge.step] at hstep
    split at hstep
    · rename_i outcome hexecution
      apply h.completes hstep
      · rw [hexecution]
        rintro _ task ⟨⟩
      · rw [hexecution]
        intro registered hstands number kind hexecuting hkind
        cases hstands with
        | @returning _ stream userRecord hcommand =>
          refine Or.inl ⟨stream, userRecord, outcome, ?_, rfl, rfl⟩
          rw [Bridge.command, hexecuting] at hcommand
          exact Option.some.inj (hkind.symm.trans hcommand)
    · cases hstep
  | raises exc =>
    simp only [Bridge.step, Option.ite_none_right_eq_some] at hstep
    obtain ⟨hraising, hcomplete⟩ := hstep
    apply h.completes hcomplete
    · intro hcrashed task hputting
      rcases hraising with hraising | ⟨_, hcrash⟩
      · rw [hputting] at hraising
        cases hraising
      · rw [hcrashed] at hcrash
        cases hcrash
    · intro registered hstands number kind _ _
      refine Or.inr ⟨by rintro outcome ⟨⟩, ?_⟩
      intro hne
      rcases hraising with hraising | ⟨_, hcrash⟩
      · rw [hraising] at hstands
        cases hstands
        exact absurd rfl hne
      · exact ⟨hcrash, exc, rfl⟩
  | timesOut =>
    simp only [Bridge.step] at hstep
    split at hstep
    · rename_i task timeout hexecution hcommand
      simp only [Option.bind_eq_bind, Option.bind_eq_some_iff] at hstep
      obtain ⟨producer, hproducer, hcomplete⟩ := hstep
      have hcancelled := h.cancels hexecution hcommand hproducer
      apply hcancelled.unanswered hcomplete
      · exact Or.inr ⟨task, hexecution⟩
      · rintro outcome ⟨⟩
    · rename_i timeout hexecution hcommand
      apply h.unanswered hstep
      · exact Or.inl hexecution
      · rintro outcome ⟨⟩
    · cases hstep
  | polls =>
    simp only [Bridge.step] at hstep
    split at hstep
    · rename_i hexecution
      rw [Option.ite_none_left_eq_some] at hstep
      obtain ⟨_, hcomplete⟩ := hstep
      apply h.unanswered hcomplete
      · exact Or.inl hexecution
      · rintro outcome ⟨⟩
    · cases hstep
  | leaves =>
    simp only [Bridge.step, Option.ite_none_right_eq_some, Option.bind_eq_bind,
      Option.bind_eq_some_iff, Option.some.injEq] at hstep
    obtain ⟨hleaving, producer, hproducer, rfl⟩ := hstep
    exact h.leaves hleaving hproducer

theorem start_matched (h : Bridge.start sys f) : Matched sys f := by
  have hproducer : Producer.State.start sys f.producer := by rw [h]; rfl
  rw [h] at hproducer ⊢
  constructor
  · exact start_served rfl
  · exact Producer.start_sound hproducer
  · exact Producer.start_ledger hproducer
  · exact Producer.start_ordered hproducer
  · refine fun _ => ⟨Producer.start_running hproducer, ?_⟩
    intro e he
    cases he
  · intro _ id t ht
    cases ht
  · refine ⟨[], [], .idle rfl, rfl, fun hne => absurd rfl hne, Nat.zero_le _, ?_⟩
    intro k hk
    cases hk
  · intro e he
    cases he

end Matching

end SyncProducer

end Aiokpl
