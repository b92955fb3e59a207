import Aiokpl.SyncProducer

/-!
# The command protocol over whole runs

The dispatcher completes what it receives, one command at a time; every caller is handed
the reply of its own command, or is refused when the stream or the portal is closed; and
nothing is received after the shutdown.  Whether `__exit__` delivers the shutdown is
decided by the dispatcher's reply to its flush, and by the dispatcher still being there.
-/

namespace Aiokpl

open Lib

namespace SyncProducer

variable {R E : Type}

/-! ## What a step can be -/

/-- The stage of a call whose command has not been handed over. -/
def Stage.isAhead : Stage R E → Bool
  | .starting => true
  | .bound => true
  | .sending => true
  | _ => false

/-- The call is refused in this state. -/
def Stage.Refused (s : State R E) : Stage R E → Prop
  | .starting => s.commandSend = false
  | .bound => s.portalRunning = false
  | .sending => s.dispatcher.gone = true
  | _ => False

/-- What a step of `__exit__` can be. -/
inductive ExitTurn (s : State R E) : State R E → Prop
  | exits : s.exit = .before → ExitTurn s (State.dispatch (.flush (some exitFlushTimeout))
      { s with entered := false, exit := .flushing s.nextCall, exitFlush := some s.nextCall })
  | flushed {number : Nat} {call : Call R E} {reply : Reply R E} : s.exit = .flushing number →
      s.calls.get? number = some call → call.stage = .replied reply → suppressed reply = true →
      ExitTurn s (State.dispatch .shutdown
        { s with exit := .shuttingDown s.nextCall, exitShutdown := some s.nextCall })
  | flushRaised {number : Nat} {call : Call R E} {reply : Reply R E} : s.exit = .flushing number →
      s.calls.get? number = some call → call.stage = .replied reply → suppressed reply = false →
      ExitTurn s s.tearDown
  | delivered {number : Nat} {call : Call R E} {result : Option R} : s.exit = .shuttingDown number →
      s.calls.get? number = some call → call.stage = .replied (.ok result) →
      ExitTurn s { s with exit := .awaiting }
  | shutdownRaised {number : Nat} {call : Call R E} {exc : Raised E} :
      s.exit = .shuttingDown number → s.calls.get? number = some call →
      call.stage = .replied (.error exc) → ExitTurn s s.tearDown
  | awaited : s.exit = .awaiting → ExitTurn s s.tearDown
  | stops : s.exit = .tearingDown →
      ExitTurn s { s with exit := .stoppingPortal, portalRunning := false }
  | returns : s.exit = .stoppingPortal → s.dispatcher = .ended →
      ExitTurn s { s with exit := .exited }

/-- What a step can be. -/
inductive Turn (s : State R E) : State R E → Prop
  | rejected : Turn s s
  | enters (kind : Kind) : kind ≠ .shutdown → Turn s (s.dispatch kind)
  | moves {number : Nat} {call : Call R E} (stage : Stage R E) : s.calls.get? number = some call →
      call.stage.isAhead = true → stage.isAhead = true →
      Turn s (s.setCall number { call with stage })
  | refuses {number : Nat} {call : Call R E} (exc : Raised E) : s.calls.get? number = some call →
      call.stage.Refused s → Turn s (s.replies number call (.error exc))
  | wakes {number : Nat} {call : Call R E} : s.calls.get? number = some call →
      call.stage = .waiting → call.command.done = true →
      Turn s (s.replies number call call.command.reply)
  | takes {number : Nat} {call : Call R E} : s.calls.get? number = some call →
      call.stage = .sending → s.dispatcher = .receiving → call.command.kind ≠ .shutdown →
      Turn s { s with
        calls := s.calls.set number { call with stage := .waiting }
        received := s.received ++ [number]
        dispatcher := .executing number }
  | shuts {number : Nat} {call : Call R E} : s.calls.get? number = some call →
      call.stage = .sending → s.dispatcher = .receiving → call.command.kind = .shutdown →
      Turn s { s with
        calls := s.calls.set number
          { command := call.command.complete (.ok none), stage := .waiting }
        received := s.received ++ [number]
        dispatcher := .leaving
        completed := s.completed ++ [(number, .ok none)]
        taken := some number }
  | executes {number : Nat} {call : Call R E} (reply : Reply R E) :
      s.dispatcher = .executing number → s.calls.get? number = some call →
      Turn s { s with
        calls := s.calls.set number { call with command := call.command.complete reply }
        dispatcher := .receiving
        completed := s.completed ++ [(number, reply)] }
  | cancelled : s.dispatcher = .receiving →
      Turn s { s with dispatcher := .leaving, cancelled := true }
  | left : s.dispatcher = .leaving → Turn s { s with dispatcher := .ended }
  | exit {s' : State R E} : ExitTurn s s' → Turn s s'

theorem exitGoes_turn {s s' : State R E} (h : s.exitGoes = some s') : ExitTurn s s' := by
  unfold State.exitGoes at h
  split at h
  · rename_i number hexit
    simp only [Option.bind_eq_bind, Option.bind_eq_some_iff] at h
    obtain ⟨call, hcall, h⟩ := h
    split at h
    · rename_i reply hstage
      split at h
      · rename_i hsuppressed
        obtain rfl := Option.some.inj h
        exact .flushed hexit hcall hstage hsuppressed
      · rename_i hraised
        obtain rfl := Option.some.inj h
        exact .flushRaised hexit hcall hstage (by simpa using hraised)
    · cases h
  · rename_i number hexit
    simp only [Option.bind_eq_bind, Option.bind_eq_some_iff] at h
    obtain ⟨call, hcall, h⟩ := h
    split at h
    · rename_i result hstage
      obtain rfl := Option.some.inj h
      exact .delivered hexit hcall hstage
    · rename_i exc hstage
      obtain rfl := Option.some.inj h
      exact .shutdownRaised hexit hcall hstage
    · cases h
  · rename_i hexit
    obtain rfl := Option.some.inj h
    exact .awaited hexit
  · rename_i hexit
    obtain rfl := Option.some.inj h
    exact .stops hexit
  · rename_i hexit
    simp only [Option.ite_none_right_eq_some, Option.some.injEq] at h
    obtain ⟨⟨hended, _⟩, rfl⟩ := h
    exact .returns hexit hended
  · cases h

/-- **The steps.** -/
theorem step_turn {s s' : State R E} {op : Op R E} (h : s.step op = some s') : Turn s s' := by
  have henter : ∀ kind, kind ≠ Kind.shutdown → some (s.enter kind) = some s' → Turn s s' := by
    intro kind hkind h
    rw [← Option.some.inj h, State.enter]
    split
    · exact .enters kind hkind
    · exact .rejected
  cases op with
  | putRecord stream userRecord => exact henter _ (by simp) h
  | flush timeout => exact henter _ (by simp) h
  | exitGoes => exact .exit (exitGoes_turn h)
  | exit =>
    simp only [State.step, Option.ite_none_right_eq_some, Option.some.injEq] at h
    obtain ⟨hexit, rfl⟩ := h
    exact .exit (.exits hexit)
  | cancelled =>
    simp only [State.step, Option.ite_none_right_eq_some, Option.some.injEq] at h
    obtain ⟨hreceiving, rfl⟩ := h
    exact .cancelled hreceiving
  | left =>
    simp only [State.step, Option.ite_none_right_eq_some, Option.some.injEq] at h
    obtain ⟨hleaving, rfl⟩ := h
    exact .left hleaving
  | execute reply =>
    simp only [State.step, Option.bind_eq_bind, Option.bind_eq_some_iff, Option.some.injEq] at h
    obtain ⟨number, hexecuting, call, hcall, rfl⟩ := h
    refine .executes reply ?_ hcall
    unfold Dispatcher.executing? at hexecuting
    split at hexecuting
    · rename_i hdispatcher
      rw [hdispatcher, Option.some.inj hexecuting]
    · cases hexecuting
  | bind number =>
    simp only [State.step, Option.bind_eq_bind, Option.bind_eq_some_iff] at h
    obtain ⟨call, hcall, h⟩ := h
    split at h
    · rename_i hstage
      split at h
      · obtain rfl := Option.some.inj h
        exact .moves .bound hcall (by rw [hstage]; rfl) rfl
      · rename_i hunset
        obtain rfl := Option.some.inj h
        exact .refuses _ hcall (by rw [hstage]; simpa [Stage.Refused] using hunset)
    · cases h
  | schedule number =>
    simp only [State.step, Option.bind_eq_bind, Option.bind_eq_some_iff] at h
    obtain ⟨call, hcall, h⟩ := h
    split at h
    · rename_i hstage
      split at h
      · obtain rfl := Option.some.inj h
        exact .moves .sending hcall (by rw [hstage]; rfl) rfl
      · rename_i hstopped
        obtain rfl := Option.some.inj h
        exact .refuses _ hcall (by rw [hstage]; simpa [Stage.Refused] using hstopped)
    · cases h
  | refuse number =>
    simp only [State.step, Option.bind_eq_bind, Option.bind_eq_some_iff] at h
    obtain ⟨call, hcall, h⟩ := h
    split at h
    · rename_i hstage
      rw [Option.ite_none_right_eq_some] at h
      obtain rfl := Option.some.inj h.2
      exact .refuses _ hcall (by rw [hstage]; exact h.1)
    · cases h
  | wake number =>
    simp only [State.step, Option.bind_eq_bind, Option.bind_eq_some_iff] at h
    obtain ⟨call, hcall, h⟩ := h
    split at h
    · rename_i hstage
      rw [Option.ite_none_right_eq_some] at h
      obtain rfl := Option.some.inj h.2
      exact .wakes hcall hstage h.1
    · cases h
  | receive number =>
    simp only [State.step, Option.bind_eq_bind, Option.bind_eq_some_iff] at h
    obtain ⟨call, hcall, h⟩ := h
    split at h
    · rename_i hstage
      rw [Option.ite_none_right_eq_some] at h
      obtain ⟨hreceiving, h⟩ := h
      obtain rfl := Option.some.inj h
      unfold State.take
      cases hkind : call.command.kind with
      | shutdown => exact .shuts hcall hstage hreceiving hkind
      | putRecord stream userRecord => exact .takes hcall hstage hreceiving (by simp [hkind])
      | flush timeout => exact .takes hcall hstage hreceiving (by simp [hkind])
    · cases h

/-! ## The calls -/

/-- The dispatcher takes no more commands, or `__exit__` no longer needs it. -/
def State.Over (s : State R E) : Prop := s.dispatcher.gone = true ∨ s.exit.torn = true

/-- What a call has come to. -/
inductive Fits (s : State R E) (number : Nat) (call : Call R E) : Prop
  | ahead : call.stage.isAhead = true → call.command.done = false → call.command.exc = none →
      number ∉ s.received → Fits s number call
  | working : call.stage = .waiting → call.command.done = false → call.command.exc = none →
      s.dispatcher = .executing number → Fits s number call
  | done : call.stage = .waiting → call.command.done = true →
      (number, call.command.reply) ∈ s.completed → Fits s number call
  | replied : call.stage = .replied call.command.reply → call.command.done = true →
      (number, call.command.reply) ∈ s.completed → Fits s number call
  | refused (exc : Raised E) : call.stage = .replied (.error exc) → call.command.done = false →
      number ∉ s.received → s.Over → Fits s number call

theorem Fits.later {s s' : State R E} {number : Nat} {call : Call R E} (h : Fits s number call)
    (hreceived : number ∈ s'.received → number ∈ s.received)
    (hcompleted : ∀ e ∈ s.completed, e ∈ s'.completed)
    (hexecuting : s.dispatcher = .executing number → s'.dispatcher = .executing number)
    (hover : s.Over → s'.Over) : Fits s' number call := by
  cases h with
  | ahead hstage hdone hexc hnot => exact .ahead hstage hdone hexc fun hin => hnot (hreceived hin)
  | working hstage hdone hexc hdispatcher =>
    exact .working hstage hdone hexc (hexecuting hdispatcher)
  | done hstage hdone hin => exact .done hstage hdone (hcompleted _ hin)
  | replied hstage hdone hin => exact .replied hstage hdone (hcompleted _ hin)
  | refused exc hstage hdone hnot hgone =>
    exact .refused exc hstage hdone (fun hin => hnot (hreceived hin)) (hover hgone)

/-- The calls, and the commands that have been received and completed. -/
structure Served (s : State R E) : Prop where
  fits : ∀ number call, s.calls.get? number = some call → Fits s number call
  fresh : ∀ number, s.nextCall ≤ number → s.calls.get? number = none
  known : ∀ number ∈ s.received, ∃ call, s.calls.get? number = some call
  serial : s.received = s.completed.map Prod.fst ++ s.dispatcher.executing?.toList
  nodup : s.received.Nodup
  links : s.commandSend = false ∨ s.portalRunning = false → s.exit.torn = true

theorem reply_complete {cmd : Command R E} (h : cmd.exc = none) (reply : Reply R E) :
    (cmd.complete reply).done = true ∧ (cmd.complete reply).reply = reply := by
  cases reply <;> simp [Command.complete, Command.reply, h]

/-- A step that exchanges one call. -/
theorem Served.exchange {s s' : State R E} (h : Served s) {number : Nat} {call call' : Call R E}
    (hcall : s.calls.get? number = some call) (hcalls : s'.calls = s.calls.set number call')
    (hnext : s'.nextCall = s.nextCall) (hown : Fits s' number call')
    (hothers : ∀ number' ≠ number, ∀ c, Fits s number' c → Fits s' number' c)
    (hreceived : ∀ n ∈ s'.received, n ∈ s.received ∨ n = number)
    (hserial : s'.received = s'.completed.map Prod.fst ++ s'.dispatcher.executing?.toList)
    (hnodup : s'.received.Nodup)
    (hlinks : s'.commandSend = false ∨ s'.portalRunning = false → s'.exit.torn = true) :
    Served s' := by
  constructor
  · intro number' c hc
    rw [hcalls, Dict.get?_set] at hc
    split at hc
    · rename_i hnumber
      rw [hnumber, ← Option.some.inj hc]
      exact hown
    · rename_i hnumber
      exact hothers number' hnumber c (h.fits number' c hc)
  · intro number' hle
    rw [hnext] at hle
    have hnone := h.fresh number' hle
    rw [hcalls, Dict.get?_set, if_neg]
    · exact hnone
    · rintro rfl
      rw [hcall] at hnone
      cases hnone
  · intro n hn
    rw [hcalls, Dict.get?_set]
    split
    · exact ⟨_, rfl⟩
    · rename_i hne
      rcases hreceived n hn with hold | hnumber
      · exact h.known n hold
      · exact absurd hnumber hne
  · exact hserial
  · exact hnodup
  · exact hlinks

/-- A step that makes a call. -/
theorem Served.dispatch {s s' : State R E} (h : Served s) (kind : Kind)
    (hcalls : s'.calls = s.calls.set s.nextCall { command := { kind } })
    (hnext : s'.nextCall = s.nextCall + 1) (hreceived : s'.received = s.received)
    (hcompleted : s'.completed = s.completed) (hdispatcher : s'.dispatcher = s.dispatcher)
    (hover : s.exit.torn = true → s'.exit.torn = true)
    (hlinks : s'.commandSend = s.commandSend ∧ s'.portalRunning = s.portalRunning) : Served s' := by
  have hnew : s.nextCall ∉ s.received := by
    intro hin
    obtain ⟨call, hcall⟩ := h.known _ hin
    rw [h.fresh _ le_rfl] at hcall
    cases hcall
  constructor
  · intro number c hc
    rw [hcalls, Dict.get?_set] at hc
    split at hc
    · rename_i hnumber
      rw [hnumber, ← Option.some.inj hc]
      apply Fits.ahead
      · rfl
      · rfl
      · rfl
      · rw [hreceived]
        exact hnew
    · apply (h.fits number c hc).later
      · rw [hreceived]
        exact id
      · rw [hcompleted]
        exact fun e he => he
      · rw [hdispatcher]
        exact id
      · rintro (hgone | htorn)
        · exact Or.inl (hdispatcher ▸ hgone)
        · exact Or.inr (hover htorn)
  · intro number hle
    rw [hnext] at hle
    rw [hcalls, Dict.get?_set, if_neg (by omega)]
    exact h.fresh number (by omega)
  · intro n hn
    rw [hreceived] at hn
    rw [hcalls, Dict.get?_set]
    split
    · exact ⟨_, rfl⟩
    · exact h.known n hn
  · rw [hreceived, hcompleted, hdispatcher]
    exact h.serial
  · rw [hreceived]
    exact h.nodup
  · rw [hlinks.1, hlinks.2]
    exact fun hunset => hover (h.links hunset)

/-- A step that leaves the calls alone. -/
theorem Served.passes {s s' : State R E} (h : Served s) (hcalls : s'.calls = s.calls)
    (hnext : s'.nextCall = s.nextCall) (hreceived : s'.received = s.received)
    (hcompleted : s'.completed = s.completed)
    (hdispatcher : s'.dispatcher.executing? = s.dispatcher.executing?)
    (hover : s.Over → s'.Over)
    (hlinks : s'.commandSend = false ∨ s'.portalRunning = false → s'.exit.torn = true) :
    Served s' := by
  constructor
  · intro number c hc
    rw [hcalls] at hc
    apply (h.fits number c hc).later
    · rw [hreceived]
      exact id
    · rw [hcompleted]
      exact fun e he => he
    · intro hexecuting
      rw [hexecuting] at hdispatcher
      cases hd : s'.dispatcher with
      | executing number' =>
        rw [hd] at hdispatcher
        rw [Option.some.inj hdispatcher]
      | receiving | leaving | ended =>
        rw [hd] at hdispatcher
        cases hdispatcher
    · exact hover
  · rw [hcalls, hnext]
    exact h.fresh
  · rw [hcalls, hreceived]
    exact h.known
  · rw [hreceived, hcompleted, hdispatcher]
    exact h.serial
  · rw [hreceived]
    exact h.nodup
  · exact hlinks

/-- A call that is ahead has not been received. -/
theorem Fits.ahead_spec {s : State R E} {number : Nat} {call : Call R E} (h : Fits s number call)
    (hstage : call.stage.isAhead = true) :
    call.command.done = false ∧ call.command.exc = none ∧ number ∉ s.received := by
  cases h with
  | ahead _ hdone hexc hnot => exact ⟨hdone, hexc, hnot⟩
  | working hwaiting | done hwaiting =>
    rw [hwaiting] at hstage
    cases hstage
  | replied hreplied | refused _ hreplied =>
    rw [hreplied] at hstage
    cases hstage

theorem isAhead_of_refused {s : State R E} {stage : Stage R E} (h : stage.Refused s) :
    stage.isAhead = true := by
  cases stage <;> first | rfl | exact h.elim

theorem Served.over_of_refused {s : State R E} (h : Served s) {stage : Stage R E}
    (hrefused : stage.Refused s) : s.Over := by
  cases stage with
  | starting => exact Or.inr (h.links (Or.inl hrefused))
  | bound => exact Or.inr (h.links (Or.inr hrefused))
  | sending => exact Or.inl hrefused
  | waiting | replied _ => exact hrefused.elim

theorem Served.receiving {s : State R E} (h : Served s) (hreceiving : s.dispatcher = .receiving) :
    s.received = s.completed.map Prod.fst := by
  rw [h.serial, hreceiving]
  exact List.append_nil _

theorem Served.receives {s : State R E} (h : Served s) {number : Nat} (hnot : number ∉ s.received) :
    (s.received ++ [number]).Nodup ∧
      ∀ number' ≠ number, number' ∈ s.received ++ [number] → number' ∈ s.received := by
  constructor
  · rw [List.nodup_append]
    refine ⟨h.nodup, List.nodup_singleton _, ?_⟩
    intro a ha b hb hab
    rw [List.mem_singleton.mp hb] at hab
    exact hnot (hab ▸ ha)
  · intro number' hne hin
    rcases List.mem_append.mp hin with hold | hnew
    · exact hold
    · exact absurd (List.mem_singleton.mp hnew) hne

theorem Served.mem_received {s : State R E} (h : Served s) {number : Nat} {reply : Reply R E}
    (hin : (number, reply) ∈ s.completed) : number ∈ s.received := by
  rw [h.serial]
  exact List.mem_append_left _ (List.mem_map_of_mem hin)

/-- A command is completed once. -/
theorem Served.reply_unique {s : State R E} (h : Served s) {number : Nat} {reply reply' : Reply R E}
    (hin : (number, reply) ∈ s.completed) (hin' : (number, reply') ∈ s.completed) :
    reply = reply' := by
  have hnodup := h.nodup
  rw [h.serial, List.nodup_append] at hnodup
  have heq := List.inj_on_of_nodup_map hnodup.1 hin hin' rfl
  exact (Prod.mk.inj heq).2

/-- The command that is being executed has not been completed. -/
theorem Served.uncompleted {s : State R E} (h : Served s) {number : Nat}
    (hexecuting : s.dispatcher = .executing number) (reply : Reply R E) :
    (number, reply) ∉ s.completed := by
  intro hin
  have hnodup := h.nodup
  rw [h.serial, hexecuting, List.nodup_append] at hnodup
  exact hnodup.2.2 number (List.mem_map_of_mem hin) number List.mem_cons_self rfl

theorem Served.working {s : State R E} (h : Served s) {number : Nat} {call : Call R E}
    (hexecuting : s.dispatcher = .executing number) (hcall : s.calls.get? number = some call) :
    call.stage = .waiting ∧ call.command.exc = none := by
  have hreceived : number ∈ s.received := by
    rw [h.serial, hexecuting]
    simp [Dispatcher.executing?]
  cases h.fits number call hcall with
  | working hstage _ hexc => exact ⟨hstage, hexc⟩
  | ahead _ _ _ hnot | refused _ _ _ hnot => exact absurd hreceived hnot
  | done _ _ hin | replied _ _ hin => exact absurd hin (h.uncompleted hexecuting _)

theorem exitTurn_served {s s' : State R E} (h : Served s) (hturn : ExitTurn s s') : Served s' := by
  have htorn : ∀ s' : State R E, s'.calls = s.calls → s'.nextCall = s.nextCall →
      s'.received = s.received → s'.completed = s.completed → s'.dispatcher = s.dispatcher →
      s'.exit.torn = true → Served s' := by
    intro s' hcalls hnext hreceived hcompleted hdispatcher htorn
    apply h.passes hcalls hnext hreceived hcompleted
    · rw [hdispatcher]
    · exact fun _ => Or.inr htorn
    · exact fun _ => htorn
  cases hturn with
  | exits hexit =>
    refine h.dispatch (.flush (some exitFlushTimeout)) rfl rfl rfl rfl rfl ?_ ?_
    · rw [hexit]
      rintro ⟨⟩
    · exact ⟨rfl, rfl⟩
  | flushed hexit _ _ _ =>
    refine h.dispatch .shutdown rfl rfl rfl rfl rfl ?_ ?_
    · rw [hexit]
      rintro ⟨⟩
    · exact ⟨rfl, rfl⟩
  | delivered hexit =>
    have hnot : s.exit.torn = false := by
      rw [hexit]
      rfl
    refine h.passes rfl rfl rfl rfl rfl ?_ ?_
    · rintro (hgone | htorn')
      · exact Or.inl hgone
      · rw [hnot] at htorn'
        cases htorn'
    · intro hunset
      have htorn' := h.links hunset
      rw [hnot] at htorn'
      cases htorn'
  | flushRaised | shutdownRaised | awaited | stops | returns =>
    exact htorn _ rfl rfl rfl rfl rfl rfl

theorem step_served {s s' : State R E} {op : Op R E} (h : Served s) (hstep : s.step op = some s') :
    Served s' := by
  cases step_turn hstep with
  | rejected => exact h
  | enters kind => exact h.dispatch kind rfl rfl rfl rfl rfl id ⟨rfl, rfl⟩
  | @moves number call stage hcall hahead hahead' =>
    obtain ⟨hdone, hexc, hnot⟩ := (h.fits number call hcall).ahead_spec hahead
    refine h.exchange hcall rfl rfl ?_ ?_ (fun n hn => Or.inl hn) h.serial h.nodup h.links
    · exact .ahead hahead' hdone hexc hnot
    · intro number' _ c hfits
      exact hfits.later id (fun e he => he) id id
  | @refuses number call exc hcall hrefused =>
    obtain ⟨hdone, _, hnot⟩ := (h.fits number call hcall).ahead_spec (isAhead_of_refused hrefused)
    refine h.exchange hcall rfl rfl ?_ ?_ (fun n hn => Or.inl hn) h.serial h.nodup h.links
    · exact .refused exc rfl hdone hnot (h.over_of_refused hrefused)
    · intro number' _ c hfits
      exact hfits.later id (fun e he => he) id id
  | @wakes number call hcall hwaiting hdone =>
    refine h.exchange hcall rfl rfl ?_ ?_ (fun n hn => Or.inl hn) h.serial h.nodup h.links
    · cases h.fits number call hcall with
      | done _ _ hin => exact .replied rfl hdone hin
      | working _ hundone =>
        rw [hdone] at hundone
        cases hundone
      | ahead hstage =>
        rw [hwaiting] at hstage
        cases hstage
      | replied hstage | refused _ hstage =>
        rw [hwaiting] at hstage
        cases hstage
    · intro number' _ c hfits
      exact hfits.later id (fun e he => he) id id
  | @takes number call hcall hsending hreceiving =>
    have hahead : call.stage.isAhead = true := by
      rw [hsending]
      rfl
    obtain ⟨hdone, hexc, hnot⟩ := (h.fits number call hcall).ahead_spec hahead
    obtain ⟨hnodup, hothers⟩ := h.receives hnot
    refine h.exchange hcall rfl rfl ?_ ?_ ?_ ?_ hnodup h.links
    · exact .working rfl hdone hexc rfl
    · intro number' hne c hfits
      refine hfits.later (hothers number' hne) (fun e he => he) ?_ ?_
      · rw [hreceiving]
        rintro ⟨⟩
      · rintro (hgone | htorn)
        · rw [hreceiving] at hgone
          cases hgone
        · exact Or.inr htorn
    · intro n hn
      exact (List.mem_append.mp hn).imp id List.mem_singleton.mp
    · have hserial := h.receiving hreceiving
      exact congrArg (· ++ [number]) hserial
  | @shuts number call hcall hsending hreceiving hkind =>
    have hahead : call.stage.isAhead = true := by
      rw [hsending]
      rfl
    obtain ⟨_, hexc, hnot⟩ := (h.fits number call hcall).ahead_spec hahead
    obtain ⟨hnodup, hothers⟩ := h.receives hnot
    obtain ⟨hdone', hreply⟩ := reply_complete hexc (.ok none)
    refine h.exchange hcall rfl rfl ?_ ?_ ?_ ?_ hnodup h.links
    · refine .done rfl hdone' ?_
      rw [hreply]
      exact List.mem_append_right _ List.mem_cons_self
    · intro number' hne c hfits
      refine hfits.later (hothers number' hne) (fun e he => List.mem_append_left _ he) ?_ ?_
      · rw [hreceiving]
        rintro ⟨⟩
      · exact fun _ => Or.inl rfl
    · intro n hn
      exact (List.mem_append.mp hn).imp id List.mem_singleton.mp
    · have hserial := h.receiving hreceiving
      simp [hserial, Dispatcher.executing?]
  | @executes number call reply hexecuting hcall =>
    have hserial := h.serial
    rw [hexecuting] at hserial
    have hwaiting := h.working hexecuting hcall
    obtain ⟨hdone', hreply⟩ := reply_complete hwaiting.2 reply
    refine h.exchange hcall rfl rfl ?_ ?_ (fun n hn => Or.inl hn) ?_ h.nodup h.links
    · refine .done hwaiting.1 hdone' ?_
      rw [hreply]
      exact List.mem_append_right _ List.mem_cons_self
    · intro number' hne c hfits
      refine hfits.later id (fun e he => List.mem_append_left _ he) ?_ ?_
      · rw [hexecuting]
        rintro ⟨⟩
        exact absurd rfl hne
      · rintro (hgone | htorn)
        · rw [hexecuting] at hgone
          cases hgone
        · exact Or.inr htorn
    · simpa [Dispatcher.executing?] using hserial
  | cancelled hreceiving =>
    refine h.passes rfl rfl rfl rfl ?_ (fun _ => Or.inl rfl) h.links
    rw [hreceiving]
    rfl
  | left hleaving =>
    refine h.passes rfl rfl rfl rfl ?_ (fun _ => Or.inl rfl) h.links
    rw [hleaving]
    rfl
  | exit hturn => exact exitTurn_served h hturn

theorem start_served {s : State R E} (h : State.start s) : Served s := by
  rw [h]
  constructor
  · intro number call hcall
    cases hcall
  · intro number _
    rfl
  · intro number hnumber
    cases hnumber
  · rfl
  · exact List.nodup_nil
  · simp

/-! ## The exit -/

/-- What becomes of a call: it keeps its kind, and a reply is final. -/
theorem turn_call {s s' : State R E} (h : Served s) (hturn : Turn s s') {number : Nat}
    {call : Call R E} (hcall : s.calls.get? number = some call) :
    ∃ call', s'.calls.get? number = some call' ∧ call'.command.kind = call.command.kind ∧
      ∀ reply, call.stage = .replied reply → call' = call := by
  have hsame : ∃ call', s.calls.get? number = some call' ∧
      call'.command.kind = call.command.kind ∧
        ∀ reply, call.stage = .replied reply → call' = call :=
    ⟨call, hcall, rfl, fun _ _ => rfl⟩
  have hset : ∀ number' old new, s.calls.get? number' = some old →
      new.command.kind = old.command.kind → (∀ reply, old.stage ≠ .replied reply) →
      ∃ call', (s.calls.set number' new).get? number = some call' ∧
        call'.command.kind = call.command.kind ∧
        ∀ reply, call.stage = .replied reply → call' = call := by
    intro number' old new hold hkind hstage
    rw [Dict.get?_set]
    split
    · rename_i hnumber
      rw [hnumber, hold] at hcall
      obtain rfl := Option.some.inj hcall
      exact ⟨new, rfl, hkind, fun reply hreplied => absurd hreplied (hstage reply)⟩
    · exact hsame
  have hdispatch : ∀ kind, ∃ call', (s.dispatch kind).calls.get? number = some call' ∧
      call'.command.kind = call.command.kind ∧
      ∀ reply, call.stage = .replied reply → call' = call := by
    intro kind
    have hne : number ≠ s.nextCall := by
      rintro rfl
      rw [h.fresh _ le_rfl] at hcall
      cases hcall
    rw [State.dispatch, Dict.get?_set_ne _ _ hne]
    exact hsame
  cases hturn with
  | rejected | cancelled | left => exact hsame
  | enters kind => exact hdispatch kind
  | moves stage hold hahead =>
    refine hset _ _ _ hold ?_ ?_
    · rfl
    · intro reply hstage
      rw [hstage] at hahead
      cases hahead
  | refuses exc hold hrefused =>
    refine hset _ _ _ hold ?_ ?_
    · rfl
    · intro reply hstage
      rw [hstage] at hrefused
      exact hrefused
  | wakes hold hwaiting | takes hold hwaiting =>
    refine hset _ _ _ hold ?_ ?_
    · rfl
    · intro reply hstage
      rw [hwaiting] at hstage
      cases hstage
  | shuts hold hsending =>
    refine hset _ _ _ hold ?_ ?_
    · rfl
    · intro reply hstage
      rw [hsending] at hstage
      cases hstage
  | executes reply hexecuting hold =>
    refine hset _ _ _ hold ?_ ?_
    · cases reply <;> rfl
    · intro reply' hstage
      rw [(h.working hexecuting hold).1] at hstage
      cases hstage
  | exit hturn =>
    cases hturn with
    | exits => exact hdispatch (.flush (some exitFlushTimeout))
    | flushed => exact hdispatch .shutdown
    | flushRaised | delivered | shutdownRaised | awaited | stops | returns => exact hsame

/-- The dispatcher's reply to the `flush` of `__exit__` is an exception that is not
    suppressed. -/
def State.FlushFailed (s : State R E) : Prop :=
  ∃ number exc, s.exitFlush = some number ∧ (number, .error exc) ∈ s.completed ∧
    exc ≠ .timeoutError

/-- The `flush` of `__exit__` has returned, or its exception has been suppressed. -/
def State.Flushed (s : State R E) : Prop :=
  ∃ number call reply, s.exitFlush = some number ∧ s.calls.get? number = some call ∧
    call.stage = .replied reply ∧ suppressed reply = true

/-- What `__exit__` has done so far. -/
def State.Progress (s : State R E) : Prop :=
  match s.exit with
  | .before => s.exitFlush = none ∧ s.exitShutdown = none
  | .flushing number => s.exitFlush = some number ∧ s.exitShutdown = none
  | .shuttingDown number =>
    s.exitShutdown = some number ∧ s.Flushed ∧
      ∃ call, s.calls.get? number = some call ∧ call.command.kind = .shutdown
  | .awaiting => s.Flushed ∧ s.taken.isSome = true
  | _ =>
    s.Flushed ∧ (s.taken.isSome = true ∨ s.cancelled = true) ∨
      s.exitShutdown = none ∧ (s.cancelled = true ∨ s.FlushFailed)

/-- The shutdown is taken last, and the dispatcher stops for it or for a cancellation. -/
structure Shut (s : State R E) : Prop where
  kinds : ∀ number call, s.calls.get? number = some call → call.command.kind = .shutdown →
    s.exitShutdown = some number ∧ (number ∈ s.received → s.taken = some number)
  taken : ∀ number, s.taken = some number →
    s.exitShutdown = some number ∧ s.received.getLast? = some number ∧
      s.dispatcher.gone = true ∧ s.cancelled = false
  gone : s.dispatcher.gone = true → s.taken.isSome = true ∨ s.cancelled = true
  cancelled : s.cancelled = true → s.dispatcher.gone = true
  progress : s.Progress

theorem State.Progress.later {s s' : State R E} (h : s.Progress) (hserved : Served s)
    (hturn : Turn s s') (hexit : s'.exit = s.exit) (hflush : s'.exitFlush = s.exitFlush)
    (hshutdown : s'.exitShutdown = s.exitShutdown)
    (htaken : s.taken.isSome = true → s'.taken.isSome = true)
    (hcancelled : s.cancelled = true → s'.cancelled = true)
    (hcompleted : ∀ e ∈ s.completed, e ∈ s'.completed) : s'.Progress := by
  have hflushed : s.Flushed → s'.Flushed := by
    rintro ⟨number, call, reply, hnumber, hcall, hstage, hsuppressed⟩
    obtain ⟨call', hcall', _, hfinal⟩ := turn_call hserved hturn hcall
    obtain rfl := hfinal reply hstage
    exact ⟨number, call', reply, hflush.trans hnumber, hcall', hstage, hsuppressed⟩
  have hfailed : s.FlushFailed → s'.FlushFailed := by
    rintro ⟨number, exc, hnumber, hin, hexc⟩
    exact ⟨number, exc, hflush.trans hnumber, hcompleted _ hin, hexc⟩
  have htorn : s.Flushed ∧ (s.taken.isSome = true ∨ s.cancelled = true) ∨
        s.exitShutdown = none ∧ (s.cancelled = true ∨ s.FlushFailed) →
      s'.Flushed ∧ (s'.taken.isSome = true ∨ s'.cancelled = true) ∨
        s'.exitShutdown = none ∧ (s'.cancelled = true ∨ s'.FlushFailed) := by
    rintro (⟨hf, hend⟩ | ⟨hnone, hend⟩)
    · exact Or.inl ⟨hflushed hf, hend.imp htaken hcancelled⟩
    · exact Or.inr ⟨hshutdown.trans hnone, hend.imp hcancelled hfailed⟩
  unfold State.Progress at h ⊢
  rw [hexit]
  cases hphase : s.exit with
  | before | flushing number =>
    rw [hphase] at h
    exact ⟨hflush.trans h.1, hshutdown.trans h.2⟩
  | shuttingDown number =>
    rw [hphase] at h
    obtain ⟨hnumber, hf, call, hcall, hkind⟩ := h
    obtain ⟨call', hcall', hkind', _⟩ := turn_call hserved hturn hcall
    exact ⟨hshutdown.trans hnumber, hflushed hf, call', hcall', hkind'.trans hkind⟩
  | awaiting =>
    rw [hphase] at h
    exact ⟨hflushed h.1, htaken h.2⟩
  | tearingDown | stoppingPortal | exited =>
    rw [hphase] at h
    exact htorn h

/-- A call of kind `shutdown` was there before, or `__exit__` has just made it. -/
theorem turn_shutdown {s s' : State R E} (hturn : Turn s s') {number : Nat} {call : Call R E}
    (hcall : s'.calls.get? number = some call) (hkind : call.command.kind = .shutdown) :
    (∃ old, s.calls.get? number = some old ∧ old.command.kind = .shutdown) ∨
      number = s.nextCall ∧ s'.exitShutdown = some number ∧ s'.received = s.received := by
  have hset : ∀ number' old new, s.calls.get? number' = some old →
      new.command.kind = old.command.kind → (s.calls.set number' new).get? number = some call →
      ∃ old, s.calls.get? number = some old ∧ old.command.kind = .shutdown := by
    intro number' old new hold hsame hcall
    rw [Dict.get?_set] at hcall
    split at hcall
    · rename_i hnumber
      rw [← Option.some.inj hcall, hsame] at hkind
      exact ⟨old, hnumber ▸ hold, hkind⟩
    · exact ⟨call, hcall, hkind⟩
  have hdispatch : ∀ kind, kind ≠ .shutdown → (s.dispatch kind).calls.get? number = some call →
      ∃ old, s.calls.get? number = some old ∧ old.command.kind = .shutdown := by
    intro kind hne hcall
    rw [State.dispatch, Dict.get?_set] at hcall
    split at hcall
    · rw [← Option.some.inj hcall] at hkind
      exact absurd hkind hne
    · exact ⟨call, hcall, hkind⟩
  cases hturn with
  | rejected | cancelled | left => exact Or.inl ⟨call, hcall, hkind⟩
  | enters kind hne => exact Or.inl (hdispatch kind hne hcall)
  | moves _ hold | refuses _ hold | wakes hold | takes hold =>
    refine Or.inl (hset _ _ _ hold ?_ hcall)
    rfl
  | shuts hold =>
    refine Or.inl (hset _ _ _ hold ?_ hcall)
    rfl
  | executes reply _ hold =>
    refine Or.inl (hset _ _ _ hold ?_ hcall)
    cases reply <;> rfl
  | exit hturn =>
    cases hturn with
    | exits => exact Or.inl (hdispatch _ (by simp) hcall)
    | flushed =>
      rw [State.dispatch, Dict.get?_set] at hcall
      split at hcall
      · rename_i hnumber
        exact Or.inr ⟨hnumber, congrArg some hnumber.symm, rfl⟩
      · exact Or.inl ⟨call, hcall, hkind⟩
    | flushRaised | delivered | shutdownRaised | awaited | stops | returns =>
      exact Or.inl ⟨call, hcall, hkind⟩

theorem Shut.untaken {s : State R E} (h : Shut s) (hgone : s.dispatcher.gone = false) :
    s.taken = none ∧ s.cancelled = false := by
  constructor
  · by_contra htaken
    obtain ⟨number, hnumber⟩ := Option.ne_none_iff_exists'.mp htaken
    have hgone' := (h.taken number hnumber).2.2.1
    rw [hgone] at hgone'
    cases hgone'
  · by_contra hcancelled
    have hgone' := h.cancelled (by simpa using hcancelled)
    rw [hgone] at hgone'
    cases hgone'

theorem Served.new {s : State R E} (h : Served s) : s.nextCall ∉ s.received := by
  intro hin
  obtain ⟨call, hcall⟩ := h.known _ hin
  rw [h.fresh _ le_rfl] at hcall
  cases hcall

/-- A step that takes no shutdown and does not stop the dispatcher. -/
theorem Shut.passes {s s' : State R E} (h : Shut s) (hserved : Served s) (hturn : Turn s s')
    (hreceived : ∀ n ∈ s'.received, n ∈ s.received ∨
      ∀ call, s.calls.get? n = some call → call.command.kind ≠ .shutdown)
    (hlast : s.dispatcher.gone = true → s'.received = s.received)
    (hshutdown : ∀ n, s.exitShutdown = some n → s'.exitShutdown = some n)
    (htaken : s'.taken = s.taken) (hcancelled : s'.cancelled = s.cancelled)
    (hgone : s'.dispatcher.gone = s.dispatcher.gone) (hprogress : s'.Progress) : Shut s' := by
  constructor
  · intro number call hcall hkind
    rcases turn_shutdown hturn hcall hkind with ⟨old, hold, hkind'⟩ | ⟨hnew, hexit, hsame⟩
    · obtain ⟨hexit, hin⟩ := h.kinds number old hold hkind'
      refine ⟨hshutdown number hexit, ?_⟩
      intro hreceived'
      rw [htaken]
      rcases hreceived number hreceived' with hbefore | hother
      · exact hin hbefore
      · exact absurd hkind' (hother old hold)
    · refine ⟨hexit, ?_⟩
      intro hin
      rw [hsame, hnew] at hin
      exact absurd hin hserved.new
  · intro number hnumber
    rw [htaken] at hnumber
    obtain ⟨hexit, hlast', hgone', hcancelled'⟩ := h.taken number hnumber
    refine ⟨hshutdown number hexit, ?_, hgone.trans hgone', hcancelled.trans hcancelled'⟩
    rw [hlast hgone']
    exact hlast'
  · rw [hgone, htaken, hcancelled]
    exact h.gone
  · rw [hcancelled, hgone]
    exact h.cancelled
  · exact hprogress

/-- A reply that was no refusal is the dispatcher's. -/
theorem Fits.of_replied {s : State R E} {number : Nat} {call : Call R E} {reply : Reply R E}
    (h : Fits s number call) (hstage : call.stage = .replied reply) :
    (number, reply) ∈ s.completed ∨ (∃ exc, reply = .error exc) ∧ number ∉ s.received ∧ s.Over := by
  cases h with
  | replied hreplied _ hin =>
    rw [hstage] at hreplied
    rw [(Stage.replied.injEq ..).mp hreplied]
    exact Or.inl hin
  | refused exc hreplied _ hnot hover =>
    rw [hstage] at hreplied
    exact Or.inr ⟨⟨exc, (Stage.replied.injEq ..).mp hreplied⟩, hnot, hover⟩
  | ahead hahead =>
    rw [hstage] at hahead
    cases hahead
  | working hwaiting | done hwaiting =>
    rw [hstage] at hwaiting
    cases hwaiting

/-- What a step of `__exit__` makes of its progress. -/
theorem exitTurn_progress {s s' : State R E} (hserved : Served s) (h : Shut s)
    (hturn : ExitTurn s s') : s'.Progress := by
  have hprogress := h.progress
  have hend : s.exit.torn = false → s.Over → s.taken.isSome = true ∨ s.cancelled = true := by
    rintro hnot (hgone | htorn)
    · exact h.gone hgone
    · rw [hnot] at htorn
      cases htorn
  unfold State.Progress at hprogress
  cases hturn with
  | exits hexit =>
    rw [hexit] at hprogress
    exact ⟨rfl, hprogress.2⟩
  | @flushed number call reply hexit hcall hstage hsuppressed =>
    rw [hexit] at hprogress
    have hne : number ≠ s.nextCall := by
      rintro rfl
      rw [hserved.fresh _ le_rfl] at hcall
      cases hcall
    refine ⟨rfl, ⟨number, call, reply, hprogress.1, ?_, hstage, hsuppressed⟩, ?_⟩
    · exact (Dict.get?_set_ne _ _ hne).trans hcall
    · exact ⟨_, Dict.get?_set_self .., rfl⟩
  | @flushRaised number call reply hexit hcall hstage hraised =>
    rw [hexit] at hprogress
    refine Or.inr ⟨hprogress.2, ?_⟩
    rcases (hserved.fits number call hcall).of_replied hstage with hin | ⟨_, _, hover⟩
    · cases reply with
      | ok result => cases hraised
      | error exc =>
        refine Or.inr ⟨number, exc, hprogress.1, hin, ?_⟩
        rintro rfl
        cases hraised
    · rcases hend (by rw [hexit]; rfl) hover with htaken | hcancelled
      · obtain ⟨m, hm⟩ := Option.isSome_iff_exists.mp htaken
        have hshutdown := (h.taken m hm).1
        rw [hprogress.2] at hshutdown
        cases hshutdown
      · exact Or.inl hcancelled
  | @delivered number call result hexit hcall hstage =>
    rw [hexit] at hprogress
    obtain ⟨_, hflushed, call', hcall', hkind⟩ := hprogress
    refine ⟨hflushed, ?_⟩
    obtain rfl := Option.some.inj (hcall.symm.trans hcall')
    rcases (hserved.fits number call hcall).of_replied hstage with hin | ⟨⟨exc, hexc⟩, _⟩
    · exact Option.isSome_iff_exists.mpr
        ⟨number, (h.kinds number call hcall hkind).2 (hserved.mem_received hin)⟩
    · cases hexc
  | @shutdownRaised number call exc hexit hcall hstage =>
    rw [hexit] at hprogress
    obtain ⟨_, hflushed, call', hcall', hkind⟩ := hprogress
    refine Or.inl ⟨hflushed, ?_⟩
    obtain rfl := Option.some.inj (hcall.symm.trans hcall')
    rcases (hserved.fits number call hcall).of_replied hstage with hin | ⟨_, _, hover⟩
    · exact Or.inl (Option.isSome_iff_exists.mpr
        ⟨number, (h.kinds number call hcall hkind).2 (hserved.mem_received hin)⟩)
    · exact hend (by rw [hexit]; rfl) hover
  | awaited hexit =>
    rw [hexit] at hprogress
    exact Or.inl ⟨hprogress.1, Or.inl hprogress.2⟩
  | stops hexit | returns hexit =>
    rw [hexit] at hprogress
    exact hprogress

theorem step_shut {s s' : State R E} {op : Op R E} (hserved : Served s) (h : Shut s)
    (hstep : s.step op = some s') : Shut s' := by
  have hturn := step_turn hstep
  have hsame : s'.exit = s.exit → s'.exitFlush = s.exitFlush → s'.exitShutdown = s.exitShutdown →
      s'.received = s.received → s'.taken = s.taken → s'.cancelled = s.cancelled →
      s'.dispatcher.gone = s.dispatcher.gone → (∀ e ∈ s.completed, e ∈ s'.completed) → Shut s' := by
    intro hexit hflush hshutdown hreceived htaken hcancelled hgone hcompleted
    refine h.passes hserved hturn ?_ (fun _ => hreceived) ?_ htaken hcancelled hgone ?_
    · rw [hreceived]
      exact fun n hn => Or.inl hn
    · rw [hshutdown]
      exact fun n hn => hn
    · apply h.progress.later hserved hturn hexit hflush hshutdown _ _ hcompleted
      · rw [htaken]
        exact id
      · rw [hcancelled]
        exact id
  cases hturn with
  | rejected => exact h
  | enters | moves | refuses | wakes => exact hsame rfl rfl rfl rfl rfl rfl rfl fun e he => he
  | executes reply hexecuting =>
    refine hsame rfl rfl rfl rfl rfl rfl ?_ fun e he => List.mem_append_left _ he
    rw [hexecuting]
    rfl
  | left hleaving =>
    refine hsame rfl rfl rfl rfl rfl rfl ?_ fun e he => he
    rw [hleaving]
    rfl
  | @takes number call hcall hsending hreceiving hkind =>
    have hgone : s.dispatcher.gone = false := by
      rw [hreceiving]
      rfl
    refine h.passes hserved (step_turn hstep) ?_ ?_ (fun n hn => hn) rfl rfl hgone.symm ?_
    · intro n hn
      rcases List.mem_append.mp hn with hold | hnew
      · exact Or.inl hold
      · right
        intro call' hcall'
        rw [List.mem_singleton.mp hnew, hcall] at hcall'
        obtain rfl := Option.some.inj hcall'
        exact hkind
    · intro hgone'
      rw [hgone] at hgone'
      cases hgone'
    · exact h.progress.later hserved (step_turn hstep) rfl rfl rfl id id fun e he => he
  | @shuts number call hcall hsending hreceiving hkind =>
    have hgone : s.dispatcher.gone = false := by
      rw [hreceiving]
      rfl
    obtain ⟨huntaken, huncancelled⟩ := h.untaken hgone
    have hnumber := (h.kinds number call hcall hkind).1
    constructor
    · intro number' call' hcall' hkind'
      have hshutdown : s.exitShutdown = some number' := by
        rcases turn_shutdown (step_turn hstep) hcall' hkind' with ⟨old, hold, hold'⟩ | ⟨_, hnew, _⟩
        · exact (h.kinds number' old hold hold').1
        · exact hnew
      refine ⟨hshutdown, ?_⟩
      intro _
      exact hnumber.symm.trans hshutdown
    · intro number' hnumber'
      obtain rfl := Option.some.inj hnumber'
      refine ⟨hnumber, ?_, rfl, huncancelled⟩
      simp
    · exact fun _ => Or.inl rfl
    · exact fun _ => rfl
    · apply h.progress.later hserved (step_turn hstep) rfl rfl rfl
      · exact fun _ => rfl
      · exact id
      · exact fun e he => List.mem_append_left _ he
  | cancelled hreceiving =>
    have hgone : s.dispatcher.gone = false := by
      rw [hreceiving]
      rfl
    obtain ⟨huntaken, _⟩ := h.untaken hgone
    constructor
    · exact h.kinds
    · intro number hnumber
      rw [huntaken] at hnumber
      cases hnumber
    · exact fun _ => Or.inr rfl
    · exact fun _ => rfl
    · exact h.progress.later hserved (step_turn hstep) rfl rfl rfl id (fun _ => rfl) fun e he => he
  | exit hturn =>
    have hkeeps : s'.received = s.received ∧ s'.taken = s.taken ∧ s'.cancelled = s.cancelled ∧
        s'.dispatcher = s.dispatcher ∧ ∀ n, s.exitShutdown = some n → s'.exitShutdown = some n := by
      cases hturn with
      | flushed hexit =>
        refine ⟨rfl, rfl, rfl, rfl, ?_⟩
        intro n hn
        have hprogress := h.progress
        unfold State.Progress at hprogress
        rw [hexit] at hprogress
        rw [hprogress.2] at hn
        cases hn
      | exits | flushRaised | delivered | shutdownRaised | awaited | stops | returns =>
        exact ⟨rfl, rfl, rfl, rfl, fun n hn => hn⟩
    obtain ⟨hreceived, htaken, hcancelled, hdispatcher, hshutdown⟩ := hkeeps
    refine h.passes hserved (.exit hturn) ?_ (fun _ => hreceived) hshutdown htaken hcancelled ?_
      (exitTurn_progress hserved h hturn)
    · rw [hreceived]
      exact fun n hn => Or.inl hn
    · rw [hdispatcher]

theorem start_shut {s : State R E} (h : State.start s) : Shut s := by
  rw [h]
  constructor
  · intro number call hcall
    cases hcall
  · intro number hnumber
    cases hnumber
  · intro hgone
    cases hgone
  · intro hcancelled
    cases hcancelled
  · exact ⟨rfl, rfl⟩

theorem reachable_served {ok : State R E → Op R E → Prop} {s : State R E}
    (h : Reachable State.start State.step ok s) : Served s :=
  h.invariant (fun _ => start_served) fun _ _ _ hs _ hstep => step_served hs hstep

theorem reachable_shut {ok : State R E → Op R E → Prop} {s : State R E}
    (h : Reachable State.start State.step ok s) : Shut s := by
  induction h with
  | start h0 => exact start_shut h0
  | next hprev _ hstep ih => exact step_shut (reachable_served hprev) ih hstep

/-! ## The protocol -/

/-- The dispatcher completes what it has received, one command at a time and each once;
    a caller whose command has been received is handed what it was completed with. -/
structure Serves (s : State R E) : Prop where
  once : s.received.Nodup
  serial : s.received = s.completed.map Prod.fst ++ s.dispatcher.executing?.toList
  completes : ∀ number reply, (number, reply) ∈ s.completed → ∃ call,
    s.calls.get? number = some call ∧ call.command.done = true ∧ call.command.reply = reply
  replies : ∀ number call reply, s.calls.get? number = some call →
    call.stage = .replied reply → number ∈ s.received → (number, reply) ∈ s.completed

theorem Served.serves {s : State R E} (h : Served s) : Serves s := by
  constructor
  · exact h.nodup
  · exact h.serial
  · intro number reply hin
    obtain ⟨call, hcall⟩ := h.known number (h.mem_received hin)
    refine ⟨call, hcall, ?_⟩
    cases h.fits number call hcall with
    | done _ hdone hin' | replied _ hdone hin' => exact ⟨hdone, h.reply_unique hin' hin⟩
    | working _ _ _ hexecuting => exact absurd hin (h.uncompleted hexecuting reply)
    | ahead _ _ _ hnot | refused _ _ _ hnot => exact absurd (h.mem_received hin) hnot
  · intro number call reply hcall hstage hin
    rcases (h.fits number call hcall).of_replied hstage with hcompleted | ⟨_, hnot, _⟩
    · exact hcompleted
    · exact absurd hin hnot

/-- Once `__exit__` is tearing down, the shutdown has been taken unless the dispatcher was
    cancelled or the exit's `flush` has failed. -/
theorem Served.taken_iff {s : State R E} (hserved : Served s) (hshut : Shut s)
    (htorn : s.exit.torn = true) :
    s.taken.isSome = true ↔ s.cancelled = false ∧ ¬ s.FlushFailed := by
  have hprogress : s.Flushed ∧ (s.taken.isSome = true ∨ s.cancelled = true) ∨
      s.exitShutdown = none ∧ (s.cancelled = true ∨ s.FlushFailed) := by
    have h := hshut.progress
    unfold State.Progress at h
    cases hexit : s.exit with
    | tearingDown | stoppingPortal | exited =>
      rw [hexit] at h
      exact h
    | before | flushing _ | shuttingDown _ | awaiting =>
      rw [hexit] at htorn
      cases htorn
  have huncancelled : s.taken.isSome = true → s.cancelled = false := by
    intro htaken
    obtain ⟨number, hnumber⟩ := Option.isSome_iff_exists.mp htaken
    exact (hshut.taken number hnumber).2.2.2
  rcases hprogress with ⟨hflushed, hend⟩ | ⟨hnone, hend⟩
  · have hnot : ¬ s.FlushFailed := by
      rintro ⟨number, exc, hnumber, hin, hexc⟩
      obtain ⟨number', call, reply, hnumber', hcall, hstage, hsuppressed⟩ := hflushed
      obtain rfl := Option.some.inj (hnumber.symm.trans hnumber')
      rcases (hserved.fits number call hcall).of_replied hstage with hin' | ⟨_, hnot, _⟩
      · rw [hserved.reply_unique hin' hin] at hsuppressed
        cases exc <;> first | exact hexc rfl | cases hsuppressed
      · exact hnot (hserved.mem_received hin)
    constructor
    · exact fun htaken => ⟨huncancelled htaken, hnot⟩
    · rintro ⟨hcancelled, _⟩
      rcases hend with htaken | hcancelled'
      · exact htaken
      · rw [hcancelled] at hcancelled'
        cases hcancelled'
  · constructor
    · intro htaken
      obtain ⟨number, hnumber⟩ := Option.isSome_iff_exists.mp htaken
      rw [(hshut.taken number hnumber).1] at hnone
      cases hnone
    · rintro ⟨hcancelled, hnot⟩
      rcases hend with hcancelled' | hfailed
      · rw [hcancelled] at hcancelled'
        cases hcancelled'
      · exact absurd hfailed hnot

/-- **The command protocol.**  In every run the dispatcher serves its callers and takes
    the shutdown last; and once `__exit__` is tearing down, the shutdown has been taken
    exactly if the dispatcher was not cancelled and its reply to the exit's `flush` was no
    exception but a `TimeoutError`. -/
theorem commands_served_and_shut (s : State R E)
    (hreach : Reachable State.start State.step anyStep s) :
    Serves s ∧
      (∀ number, s.taken = some number →
        s.exitShutdown = some number ∧ s.received.getLast? = some number ∧
          s.dispatcher.gone = true) ∧
      (s.exit.torn = true →
        (s.taken.isSome = true ↔ s.cancelled = false ∧ ¬ s.FlushFailed)) := by
  have hserved := reachable_served hreach
  have hshut := reachable_shut hreach
  refine ⟨hserved.serves, ?_, hserved.taken_iff hshut⟩
  intro number hnumber
  obtain ⟨hshutdown, hlast, hgone, _⟩ := hshut.taken number hnumber
  exact ⟨hshutdown, hlast, hgone⟩

/-- `__exit__` returns only from a dispatcher that has ended. -/
theorem exited_gone {ok : State R E → Op R E → Prop} {s : State R E}
    (hreach : Reachable State.start State.step ok s) (hexited : s.exit = .exited) :
    s.dispatcher.gone = true := by
  induction hreach with
  | start h0 =>
    rw [h0] at hexited
    cases hexited
  | @next s s' op _ _ hstep ih =>
    cases step_turn hstep with
    | rejected | enters | moves | refuses | wakes => exact ih hexited
    | takes _ _ hreceiving | shuts _ _ hreceiving | cancelled hreceiving =>
      have hgone := ih hexited
      rw [hreceiving] at hgone
      cases hgone
    | executes _ hexecuting =>
      have hgone := ih hexited
      rw [hexecuting] at hgone
      cases hgone
    | left => rfl
    | exit hturn =>
      cases hturn with
      | returns _ hended =>
        show s.dispatcher.gone = true
        rw [hended]
        rfl
      | exits | flushed | flushRaised | delivered | shutdownRaised | awaited | stops =>
        cases hexited

/-- An exit whose `flush` has failed does not return unless the dispatcher is cancelled. -/
theorem exited_cancelled_or_flushed {s : State R E}
    (hreach : Reachable State.start State.step anyStep s) (hexited : s.exit = .exited) :
    s.cancelled = true ∨ ¬ s.FlushFailed := by
  have htorn : s.exit.torn = true := by
    rw [hexited]
    rfl
  have hshut := reachable_shut hreach
  rcases hshut.gone (exited_gone hreach hexited) with htaken | hcancelled
  · exact Or.inr (((reachable_served hreach).taken_iff hshut htorn).mp htaken).2
  · exact Or.inl hcancelled

/-! ### Two exits -/

/-- The steps of a `_dispatch` up to the rendezvous. -/
def sends (number : Nat) : List (Op Nat String) := [.bind number, .schedule number, .receive number]

/-- A record is put, and `__exit__` flushes, delivers the shutdown and returns. -/
def cleanExit : List (Op Nat String) :=
  .putRecord "a" { partitionKey := "p", data := [] } :: sends 0 ++
    [.execute (.ok (some 7)), .wake 0] ++
    .exit :: sends 1 ++ [.execute (.error .timeoutError), .wake 1, .exitGoes] ++
    sends 2 ++ [.wake 2, .exitGoes, .left, .exitGoes, .exitGoes, .exitGoes]

theorem commands_served_and_shut_clean :
    ∃ s : State Nat String, Reachable State.start State.step anyStep s ∧ s.exit = .exited ∧
      s.received = [0, 1, 2] ∧ s.taken.isSome = true ∧ ¬ s.FlushFailed := by
  have hrun : (Lib.exec State.step anyStep ({} : State Nat String) cleanExit).map
      (fun s => (s.exit, s.received, s.taken)) = some (.exited, [0, 1, 2], some 2) := by
    decide +kernel
  obtain ⟨s, hexec, hout⟩ := Option.map_eq_some_iff.mp hrun
  obtain ⟨hexited, hrest⟩ := Prod.mk.inj hout
  obtain ⟨hreceived, htaken⟩ := Prod.mk.inj hrest
  have hreach : Reachable State.start State.step anyStep s := Reachable.exec (.start rfl) hexec
  have htorn : s.exit.torn = true := by
    rw [hexited]
    rfl
  have hsome : s.taken.isSome = true := by
    rw [htaken]
    rfl
  exact ⟨s, hreach, hexited, hreceived, hsome,
    (((commands_served_and_shut s hreach).2.2 htorn).mp hsome).2⟩

/-- The `flush` of the exit raises something else: the exit tears the portal down while
    the dispatcher waits for a command, and goes no further. -/
theorem exit_without_shutdown :
    ∃ s : State Nat String, Reachable State.start State.step anyStep s ∧ s.exit = .stoppingPortal ∧
      s.taken = none ∧ s.dispatcher = .receiving ∧ s.step .exitGoes = none := by
  have hrun : (Lib.exec State.step anyStep ({} : State Nat String)
      (.exit :: sends 0 ++ [.execute (.error (.other "boom")), .wake 0, .exitGoes, .exitGoes])).map
      (fun s => (s.exit, s.taken, s.dispatcher, (s.step .exitGoes).isNone)) =
        some (.stoppingPortal, none, .receiving, true) := by
    decide +kernel
  obtain ⟨s, hexec, hout⟩ := Option.map_eq_some_iff.mp hrun
  obtain ⟨hexit, hrest⟩ := Prod.mk.inj hout
  obtain ⟨htaken, hrest⟩ := Prod.mk.inj hrest
  obtain ⟨hdispatcher, hstuck⟩ := Prod.mk.inj hrest
  exact ⟨s, Reachable.exec (.start rfl) hexec, hexit, htaken, hdispatcher,
    Option.isNone_iff_eq_none.mp hstuck⟩

end SyncProducer

end Aiokpl
