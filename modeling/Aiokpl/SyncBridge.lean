import Aiokpl.Producer
import Aiokpl.ProducerRunning
import Aiokpl.SyncProducer

/-!
# The dispatcher and its Producer (`aiokpl/sync.py`)

The dispatcher task owns an async Producer and executes each command on it: it awaits
`put_record`, or awaits `flush` and then polls `outstanding_records` until no record is
in flight.  Between any two awaits the tasks and timers of the Producer run, and the
threads go on calling.  After the loop the dispatcher leaves the Producer.

What a command raises is the input of the step; that it raises is not.  An exception in a
background task of the Producer ends its run: the Producer takes no further step, the
command that is being executed raises, and the dispatcher goes on with its commands or is
cancelled.  No clock is modelled here: a deadline of `fail_after` passes at any point of a
`flush` that has one, and the sleep between two polls is left out.  Inside the Producer
clocks are exact rationals.

Main results: `flush_is_a_barrier`, that the records of the calls answered before a `flush`
have finished when it returns, and `records_are_answers`, that the registered records are
the Outcomes that were given, in order, and one more at most (both in `SyncBridgeAnswers`).
-/

namespace Aiokpl

open Lib Aggregation

namespace SyncProducer

/-! ## Executing a command -/

/-- Where `_execute` stands: it has not called the Producer yet; it awaits the task of a
    `put_record`, or has the Outcome that this returned; it awaits the task of a `flush`,
    or polls; or what it awaited has raised. -/
inductive Execution
  | begins
  | putting (task : Nat)
  | returning (outcome : Nat)
  | flushing (task : Nat)
  | polling
  | raising
  deriving DecidableEq, Repr

/-- What a step of the Producer makes of it.  A flush has returned if the step that ended
    its task ran a frame and raised nothing. -/
def Execution.after (sys : Producer.System) (s s' : Producer.State) (op : Producer.Op) :
    Execution → Execution
  | .putting task =>
    if task ∈ s'.shared.returned then .returning task
    else if (s'.tasks.get? task).isSome then .putting task
    else .raising
  | .flushing task =>
    if (s'.tasks.get? task).isSome then .flushing task
    else if (s.ran sys op).isSome then .polling
    else .raising
  | execution => execution

/-- A `SyncProducer` and the Producer of its dispatcher; `execution` is set while the
    dispatcher executes a command.  An Outcome is named by its number. -/
structure Bridge (E : Type) where
  front : State Nat E := {}
  producer : Producer.State
  execution : Option Execution := none

/-- The kind of the command of a call. -/
def State.kind? {R E : Type} (s : State R E) (number : Nat) : Option Kind :=
  (s.calls.get? number).map fun call => call.command.kind

/-- The command that is being executed. -/
def Bridge.command {E : Type} (f : Bridge E) : Option Kind :=
  f.front.dispatcher.executing?.bind f.front.kind?

/-! ## The machine -/

/-- The steps of the Producer that only the dispatcher makes it take. -/
def ordered : Producer.Op → Bool
  | .putRecord _ _ => true
  | .flush => true
  | .exit => true
  | .cancel _ => true
  | _ => false

/-- The steps of the façade for which the dispatcher does not need its Producer, or need
    not wait for it. -/
def Bridge.admits {E : Type} (f : Bridge E) : Op Nat E → Bool
  | .execute _ => false
  | .receive _ => false
  | .cancelled => f.producer.crashed
  | .left => f.producer.exited || f.producer.crashed
  | _ => true

/-- What can happen.  `begins` is the call into the Producer, `returns`, `raises` and
    `polls` end the command, and `timesOut` is the deadline of `fail_after`; `leaves` is
    the `__aexit__` of the Producer. -/
inductive Bridge.Op (E : Type)
  | front (op : SyncProducer.Op Nat E)
  | producer (op : Producer.Op)
  | receive (number : Nat)
  | begins
  | returns
  | raises (exc : Raised E)
  | timesOut
  | polls
  | leaves

variable {E : Type}

/-- The dispatcher has a reply for its command. -/
def Bridge.complete (reply : Reply Nat E) (f : Bridge E) : Option (Bridge E) := do
  let front ← f.front.step (.execute reply)
  some { f with front, execution := none }

/-- One step, `none` when it cannot happen in this state. -/
def Bridge.step (sys : Producer.System) (f : Bridge E) : Bridge.Op E → Option (Bridge E)
  | .front op => do
    if f.admits op then
      let front ← f.front.step op
      some { f with front }
    else none
  | .producer op => do
    if ordered op then none
    else
      let producer ← f.producer.step sys op
      some { f with
        producer
        execution := f.execution.map (Execution.after sys f.producer producer op) }
  | .receive number => do
    let front ← f.front.step (.receive number)
    some { f with front, execution := front.dispatcher.executing?.map fun _ => .begins }
  | .begins =>
    match f.execution, f.command with
    | some .begins, some (.putRecord stream userRecord) =>
      if f.producer.shared.closed ∨ userRecord.partitionKey = "" then
        some { f with execution := some .raising }
      else do
        let producer ← f.producer.step sys (.putRecord stream userRecord)
        some { f with producer, execution := some (.putting f.producer.nextTask) }
    | some .begins, some (.flush _) => do
      let producer ← f.producer.step sys .flush
      some { f with producer, execution := some (.flushing f.producer.nextTask) }
    | _, _ => none
  | .returns =>
    match f.execution with
    | some (.returning outcome) => f.complete (.ok (some outcome))
    | _ => none
  | .raises exc =>
    if f.execution = some .raising ∨ (f.execution.isSome ∧ f.producer.crashed) then
      f.complete (.error exc)
    else none
  | .timesOut =>
    match f.execution, f.command with
    | some (.flushing task), some (.flush (some _)) => do
      let producer ← f.producer.step sys (.cancel task)
      { f with producer }.complete (.error .timeoutError)
    | some .polling, some (.flush (some _)) => f.complete (.error .timeoutError)
    | _, _ => none
  | .polls =>
    match f.execution with
    | some .polling =>
      if f.producer.shared.outstanding > 0 then none else f.complete (.ok none)
    | _ => none
  | .leaves => do
    if f.front.dispatcher = .leaving then
      let producer ← f.producer.step sys .exit
      some { f with producer }
    else none

/-- A façade whose dispatcher has entered its Producer. -/
def Bridge.start (sys : Producer.System) (f : Bridge E) : Prop :=
  f = { producer := { shared := { permits := sys.cfg.maxOutstandingRecords } } }

/-- The Outcome that a call of `put_record` was given, by its stream. -/
def State.answer (s : State Nat E) (e : Nat × Reply Nat E) : Option Producer.Token :=
  match s.kind? e.1, e.2 with
  | some (.putRecord stream _), .ok (some outcome) => some (stream, outcome)
  | _, _ => none

/-- The Outcomes that were given, in the order in which the dispatcher executed the calls. -/
def State.putReplies (s : State Nat E) : List Producer.Token := s.completed.filterMap s.answer

end SyncProducer

end Aiokpl
