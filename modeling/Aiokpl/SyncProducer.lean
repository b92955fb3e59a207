import Mathlib.Tactic
import Aiokpl.Lib.Dict
import Aiokpl.Lib.TransitionSystem
import Aiokpl.Aggregation
import Aiokpl.Reducer

/-!
# The synchronous façade (`aiokpl/sync.py`)

Any number of threads call `_dispatch`, which hands a command to the dispatcher task
through a memory object stream without a buffer and waits until it is done; one thread
runs `__exit__`.  The portal and the stream are anyio's: an item that is sent goes to one
receiver, or the send raises once the stream is closed, and a portal that has been told
to stop takes no more calls and is left when its tasks have ended.

A call of `_dispatch` has the number of its command.  What the async Producer makes of a
command is the input of the step, and the dispatcher may be cancelled while it waits for
one: the Producer's task group does that when a background task has crashed.
-/

namespace Aiokpl

open Lib Aggregation

namespace SyncProducer

/-! ## Commands -/

/-- What a command may raise; `R` is what it may return, `None` apart. -/
inductive Raised (E : Type)
  | timeoutError
  | assertionError
  | portalNotRunning
  | streamClosed
  | other (exc : E)
  deriving DecidableEq, Repr

/-- What `_dispatch` returns or raises. -/
abbrev Reply (R E : Type) := Except (Raised E) (Option R)

inductive Kind
  | putRecord (stream : String) (userRecord : UserRecord)
  | flush (timeout : Option Time)
  | shutdown

/-- `_Command`. -/
structure Command (R E : Type) where
  kind : Kind
  done : Bool := false
  result : Option R := none
  exc : Option (Raised E) := none

/-- The end of `_dispatch`, once the command is done. -/
def Command.reply {R E : Type} (cmd : Command R E) : Reply R E :=
  match cmd.exc with
  | some exc => .error exc
  | none => .ok cmd.result

/-- What the dispatcher writes into a command it has executed. -/
def Command.complete {R E : Type} (reply : Reply R E) (cmd : Command R E) : Command R E :=
  match reply with
  | .ok result => { cmd with result, done := true }
  | .error exc => { cmd with exc := some exc, done := true }

/-- How far a call of `_dispatch` has got: before its asserts, before `portal.call`, in
    `send`, in `done.wait`, and over. -/
inductive Stage (R E : Type)
  | starting
  | bound
  | sending
  | waiting
  | replied (reply : Reply R E)

structure Call (R E : Type) where
  command : Command R E
  stage : Stage R E := .starting

/-! ## The parties -/

/-- Where `_run_dispatcher` stands: in `receive`, in `_execute`, past its loop with the
    stream closed, and over. -/
inductive Dispatcher
  | receiving
  | executing (number : Nat)
  | leaving
  | ended
  deriving DecidableEq, Repr

/-- The loop is over, and the stream is closed. -/
def Dispatcher.gone : Dispatcher → Bool
  | .receiving => false
  | .executing _ => false
  | .leaving => true
  | .ended => true

/-- The command that is being executed. -/
def Dispatcher.executing? : Dispatcher → Option Nat
  | .executing number => some number
  | _ => none

/-- Where `__exit__` stands: in the `_dispatch` of its `flush` and of its `shutdown`, in
    the wait for `_dispatcher_stopped`, and in its `finally`, where it first unsets
    `_command_send` and then exits the portal. -/
inductive Exit
  | before
  | flushing (number : Nat)
  | shuttingDown (number : Nat)
  | awaiting
  | tearingDown
  | stoppingPortal
  | exited
  deriving DecidableEq, Repr

/-- The `finally` has been entered. -/
def Exit.torn : Exit → Bool
  | .tearingDown => true
  | .stoppingPortal => true
  | .exited => true
  | _ => false

/-- A `SyncProducer` that has been entered, with its calls, and the history of a run: the
    commands that the dispatcher received and completed, the commands of `__exit__`, the
    `shutdown` that was taken, and whether the dispatcher was cancelled. -/
structure State (R E : Type) where
  entered : Bool := true
  commandSend : Bool := true
  portalRunning : Bool := true
  dispatcher : Dispatcher := .receiving
  exit : Exit := .before
  calls : Dict Nat (Call R E) := .empty
  nextCall : Nat := 0
  received : List Nat := []
  completed : List (Nat × Reply R E) := []
  exitFlush : Option Nat := none
  exitShutdown : Option Nat := none
  taken : Option Nat := none
  cancelled : Bool := false

/-- What can happen.  `call` is `put_record` or `flush` on any thread, up to `_dispatch`;
    `bind`, `schedule`, `refuse` and `wake` are the steps of a `_dispatch`, and `receive`
    is the rendezvous; `exitGoes` is the next step of `__exit__`. -/
inductive Op (R E : Type)
  | putRecord (stream : String) (userRecord : UserRecord)
  | flush (timeout : Option Time)
  | bind (number : Nat)
  | schedule (number : Nat)
  | refuse (number : Nat)
  | wake (number : Nat)
  | receive (number : Nat)
  | execute (reply : Reply R E)
  | cancelled
  | left
  | exit
  | exitGoes

variable {R E : Type}

def State.setCall (number : Nat) (call : Call R E) (s : State R E) : State R E :=
  { s with calls := s.calls.set number call }

/-- A new call of `_dispatch`. -/
def State.dispatch (kind : Kind) (s : State R E) : State R E :=
  { s with calls := s.calls.set s.nextCall { command := { kind } }, nextCall := s.nextCall + 1 }

/-- `put_record` and `flush` up to `_dispatch`; a producer that has not been entered
    raises. -/
def State.enter (kind : Kind) (s : State R E) : State R E :=
  if s.entered then s.dispatch kind else s

/-- The call is over. -/
def State.replies (number : Nat) (call : Call R E) (reply : Reply R E)
    (s : State R E) : State R E :=
  s.setCall number { call with stage := .replied reply }

/-- `_DEFAULT_EXIT_FLUSH_TIMEOUT_S`. -/
def exitFlushTimeout : Time := 30

/-- `with contextlib.suppress(TimeoutError)`. -/
def suppressed : Reply R E → Bool
  | .ok _ => true
  | .error .timeoutError => true
  | .error _ => false

/-- The dispatcher has taken a command off the stream. -/
def State.take (number : Nat) (call : Call R E) (s : State R E) : State R E :=
  let s := { s with received := s.received ++ [number] }
  match call.command.kind with
  | .shutdown =>
    { s with
      calls := s.calls.set number { command := call.command.complete (.ok none), stage := .waiting }
      dispatcher := .leaving
      completed := s.completed ++ [(number, .ok none)]
      taken := some number }
  | _ =>
    { s with
      calls := s.calls.set number { call with stage := .waiting }
      dispatcher := .executing number }

/-- The `finally` of `__exit__`. -/
def State.tearDown (s : State R E) : State R E :=
  { s with exit := .tearingDown, commandSend := false }

/-- The next step of `__exit__`; `none` while it waits. -/
def State.exitGoes (s : State R E) : Option (State R E) :=
  match s.exit with
  | .flushing number => do
    let call ← s.calls.get? number
    match call.stage with
    | .replied reply =>
      if suppressed reply then
        let number := s.nextCall
        some (State.dispatch .shutdown
          { s with exit := .shuttingDown number, exitShutdown := some number })
      else some s.tearDown
    | _ => none
  | .shuttingDown number => do
    let call ← s.calls.get? number
    match call.stage with
    | .replied (.ok _) => some { s with exit := .awaiting }
    | .replied (.error _) => some s.tearDown
    | _ => none
  | .awaiting => some s.tearDown
  | .tearingDown => some { s with exit := .stoppingPortal, portalRunning := false }
  | .stoppingPortal =>
    let sending := s.calls.values.any fun call => match call.stage with
      | .sending => true
      | _ => false
    if s.dispatcher = .ended ∧ sending = false then some { s with exit := .exited } else none
  | _ => none

/-- One step, `none` when it cannot happen in this state. -/
def State.step (s : State R E) : Op R E → Option (State R E)
  | .putRecord stream userRecord => some (s.enter (.putRecord stream userRecord))
  | .flush timeout => some (s.enter (.flush timeout))
  | .bind number => do
    let call ← s.calls.get? number
    match call.stage with
    | .starting =>
      if s.commandSend then some (s.setCall number { call with stage := .bound })
      else some (s.replies number call (.error .assertionError))
    | _ => none
  | .schedule number => do
    let call ← s.calls.get? number
    match call.stage with
    | .bound =>
      if s.portalRunning then some (s.setCall number { call with stage := .sending })
      else some (s.replies number call (.error .portalNotRunning))
    | _ => none
  | .refuse number => do
    let call ← s.calls.get? number
    match call.stage with
    | .sending =>
      if s.dispatcher.gone then some (s.replies number call (.error .streamClosed)) else none
    | _ => none
  | .wake number => do
    let call ← s.calls.get? number
    match call.stage with
    | .waiting =>
      if call.command.done then some (s.replies number call call.command.reply) else none
    | _ => none
  | .receive number => do
    let call ← s.calls.get? number
    match call.stage with
    | .sending => if s.dispatcher = .receiving then some (s.take number call) else none
    | _ => none
  | .execute reply => do
    let number ← s.dispatcher.executing?
    let call ← s.calls.get? number
    some { s with
      calls := s.calls.set number { call with command := call.command.complete reply }
      dispatcher := .receiving
      completed := s.completed ++ [(number, reply)] }
  | .cancelled =>
    if s.dispatcher = .receiving then some { s with dispatcher := .leaving, cancelled := true }
    else none
  | .left => if s.dispatcher = .leaving then some { s with dispatcher := .ended } else none
  | .exit =>
    if s.exit = .before then
      let number := s.nextCall
      some (State.dispatch (.flush (some exitFlushTimeout))
        { s with entered := false, exit := .flushing number, exitFlush := some number })
    else none
  | .exitGoes => s.exitGoes

/-- A producer that has been entered, and its dispatcher started. -/
def State.start (s : State R E) : Prop := s = {}

end SyncProducer

end Aiokpl
