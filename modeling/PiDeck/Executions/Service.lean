import Mathlib
import PiDeck.Executions.Store
import PiDeck.Transition.Machine

/-! The service that executes agents. A `runExecution`, the timer of an execution, `cancelExecution`
and `createExecution` go on beside each other; each step ends where the code awaits something, and a
transaction is one step, which fails as a whole when it is not committed. A restart forgets all that
is not stored. -/
namespace PiDeck.Executions
open PiDeck.Transition

/-- Why `runExecution` marks its execution as failed. -/
inductive Failure
  | agentStartFailed
  | invalidAgentEvent
  | agentStreamEnded
  | agentException
  deriving DecidableEq, Repr

namespace Failure

def code : Failure → String
  | .agentStartFailed => "agent_start_failed"
  | .invalidAgentEvent => "invalid_agent_event"
  | .agentStreamEnded => "agent_stream_ended"
  | .agentException => "agent_exception"

def message : Failure → String
  | .agentStartFailed => "The agent could not be started"
  | .invalidAgentEvent => "The agent emitted an invalid event"
  | .agentStreamEnded => "The agent ended without a terminal event"
  | .agentException => "The agent failed unexpectedly"

end Failure

/-- How far a `runExecution` is. -/
inductive RunPhase
  | scheduled
  | loaded
  | creatingAgent
  | agentCreated
  | streaming
  | received (event : ParsedEvent)
  | ended
  | threw
  | failing (failure : Failure)
  | finishing
  deriving DecidableEq, Repr

namespace RunPhase

/-- Where an exception of the code leads that a phase runs. Only the loop over the events and what
follows it are inside the inner `try`. -/
def caught : RunPhase → RunPhase
  | .streaming | .received _ | .ended => .threw
  | .failing .invalidAgentEvent | .failing .agentStreamEnded => .threw
  | _ => .finishing

end RunPhase

/-- A `runExecution` with its entry in `active`. -/
structure RunExecution where
  phase : RunPhase
  timer : Bool
  aborted : Bool
  deriving DecidableEq, Repr

inductive Call
  | searching (request : CreateExecutionRequest)
  | inserting (request : CreateExecutionRequest)
  | conflicting (request : CreateExecutionRequest)
  | inserted (executionId : String)
  | cancelLoading (executionId : String)
  | cancelling (executionId : String)
  deriving DecidableEq, Repr

/-- `recovering` lists what `start` has still to mark. -/
structure SupervisorService where
  tables : Tables
  started : Bool
  recovering : List String
  running : String → Option RunExecution
  timingOut : String → Bool
  call : ℕ → Option Call

inductive ExecutionAct
  | createExecution (call : ℕ) (request : CreateExecutionRequest)
  | findExisting (call : ℕ)
  | insertExecution (call : ℕ) (id now : String) (committed : Bool)
  | findConcurrent (call : ℕ)
  | schedule (call : ℕ)
  | loadExecution (executionId : String) (answered : Bool)
  | enterStarting (executionId now : String) (committed : Bool)
  | agentCreated (executionId : String) (succeeded : Bool)
  | enterRunning (executionId now : String) (committed : Bool)
  | agentYields (executionId : String) (event : RawEvent)
  | agentEnds (executionId : String) (threw : Bool)
  | persistAgentEvent (executionId now : String) (committed published : Bool)
  | checkStatus (executionId : String) (answered : Bool)
  | markFailed (executionId now : String) (committed published : Bool)
  | dispose (executionId : String)
  | timerFires (executionId : String)
  | timeoutExecution (executionId now : String) (committed published : Bool)
  | cancelExecution (call : ℕ) (executionId : String)
  | loadCancelled (call : ℕ)
  | markCancelled (call : ℕ) (now : String) (committed published : Bool)
  | callFails (call : ℕ)
  | restart
  | start (answered : Bool)
  | recover (now : String) (committed published : Bool)
  deriving DecidableEq, Repr

namespace SupervisorService

def setRunning (service : SupervisorService) (executionId : String) (run : Option RunExecution) :
    SupervisorService :=
  { service with running := Function.update service.running executionId run }

def setPhase (service : SupervisorService) (executionId : String) (run : RunExecution)
    (phase : RunPhase) : SupervisorService :=
  service.setRunning executionId (some { run with phase := phase })

def setCall (service : SupervisorService) (call : ℕ) (phase : Option Call) : SupervisorService :=
  { service with call := Function.update service.call call phase }

def setTables (service : SupervisorService) (tables : Tables) : SupervisorService :=
  { service with tables := tables }

def abort (service : SupervisorService) (executionId : String) : SupervisorService :=
  match service.running executionId with
  | some run => service.setRunning executionId (some { run with aborted := true })
  | none => service

/-- Whether the execution is there and has not ended. -/
def isOpen (service : SupervisorService) (executionId : String) : Bool :=
  (service.tables.getExecutionRow executionId).any fun row => !row.status.isTerminal

/-- A transaction that commits, unless something outside or the code itself makes it fail. -/
def commit {ε α : Type} (committed : Bool) (transaction : Except ε α) : Option α :=
  if committed then transaction.toOption else none

def searched (service : SupervisorService) (call : ℕ) : Option SupervisorService :=
  match service.call call with
  | some (.searching request) =>
    match service.tables.findByIdempotencyKey request.idempotencyKey with
    | some _ => some (service.setCall call none)
    | none => some (service.setCall call (some (.inserting request)))
  | _ => none

def inserted (service : SupervisorService) (call : ℕ) (id now : String) (committed : Bool) :
    Option SupervisorService :=
  match service.call call with
  | some (.inserting request) =>
    if committed then
      match service.tables.insertExecution request id now with
      | .ok tables => some ((service.setTables tables).setCall call (some (.inserted id)))
      | .error .unique => some (service.setCall call (some (.conflicting request)))
      | .error .primaryKey => some (service.setCall call none)
    else some (service.setCall call none)
  | _ => none

/-- The rest of `createExecution`; an execution that is not there is an error. -/
def scheduled (service : SupervisorService) (call : ℕ) : Option SupervisorService :=
  match service.call call with
  | some (.inserted executionId) =>
    match service.tables.getExecutionRow executionId with
    | some _ => some ((service.setRunning executionId (some ⟨.scheduled, false, false⟩)).setCall
        call none)
    | none => some (service.setCall call none)
  | _ => none

def loadExecution (service : SupervisorService) (executionId : String) (answered : Bool) :
    Option SupervisorService :=
  match service.running executionId with
  | some ⟨.scheduled, timer, aborted⟩ =>
    some (service.setPhase executionId ⟨.scheduled, timer, aborted⟩
      (if answered && service.isOpen executionId then .loaded else .finishing))
  | _ => none

/-- The timer is set once the execution is starting. -/
def enterStarting (service : SupervisorService) (executionId now : String) (committed : Bool) :
    Option SupervisorService :=
  match service.running executionId with
  | some ⟨.loaded, timer, aborted⟩ =>
    match commit committed (service.tables.transitionStatus executionId .starting now) with
    | some (tables, true) =>
      some ((service.setTables tables).setRunning executionId (some ⟨.creatingAgent, true, aborted⟩))
    | some (tables, false) =>
      some ((service.setTables tables).setRunning executionId (some ⟨.finishing, timer, aborted⟩))
    | none => some (service.setRunning executionId (some ⟨.finishing, timer, aborted⟩))
  | _ => none

def agentCreated (service : SupervisorService) (executionId : String) (succeeded : Bool) :
    Option SupervisorService :=
  match service.running executionId with
  | some ⟨.creatingAgent, timer, aborted⟩ =>
    some (service.setPhase executionId ⟨.creatingAgent, timer, aborted⟩
      (if succeeded then .agentCreated else .failing .agentStartFailed))
  | _ => none

def enterRunning (service : SupervisorService) (executionId now : String) (committed : Bool) :
    Option SupervisorService :=
  match service.running executionId with
  | some ⟨.agentCreated, timer, aborted⟩ =>
    match commit committed (service.tables.transitionStatus executionId .running now) with
    | some (tables, true) =>
      some ((service.setTables tables).setRunning executionId (some ⟨.streaming, timer, aborted⟩))
    | some (tables, false) =>
      some ((service.setTables tables).setRunning executionId (some ⟨.finishing, timer, aborted⟩))
    | none => some (service.setRunning executionId (some ⟨.finishing, timer, aborted⟩))
  | _ => none

def agentYields (service : SupervisorService) (executionId : String) (event : RawEvent) :
    Option SupervisorService :=
  match service.running executionId with
  | some ⟨.streaming, timer, aborted⟩ =>
    some (service.setPhase executionId ⟨.streaming, timer, aborted⟩
      (match event.safeParse with
      | some event => .received event
      | none => .failing .invalidAgentEvent))
  | _ => none

def agentEnds (service : SupervisorService) (executionId : String) (threw : Bool) :
    Option SupervisorService :=
  match service.running executionId with
  | some ⟨.streaming, timer, aborted⟩ =>
    some (service.setPhase executionId ⟨.streaming, timer, aborted⟩
      (if threw then .threw else .ended))
  | _ => none

/-- An event is stored and published; a listener that throws is an exception of the loop. -/
def persistAgentEvent (service : SupervisorService) (executionId now : String)
    (committed published : Bool) : Option SupervisorService :=
  match service.running executionId with
  | some ⟨.received event, timer, aborted⟩ =>
    match commit committed (service.tables.persistAgentEvent executionId event.val now) with
    | some (tables, result) =>
      some ((service.setTables tables).setRunning executionId (some ⟨
        if result.event.isSome && !published then .threw
        else if result.terminal then .ended else .streaming, timer, aborted⟩))
    | none => some (service.setRunning executionId (some ⟨.threw, timer, aborted⟩))
  | _ => none

/-- The check after the loop and the one in its `catch`. The first has no answer also when the agent
fails to stop. -/
def checkStatus (service : SupervisorService) (executionId : String) (answered : Bool) :
    Option SupervisorService :=
  match service.running executionId with
  | some ⟨phase, timer, aborted⟩ =>
    if phase = .ended ∨ phase = .threw then
      some (service.setPhase executionId ⟨phase, timer, aborted⟩
        (if answered then
          if service.isOpen executionId then
            .failing (if phase = .ended then .agentStreamEnded else .agentException)
          else .finishing
        else phase.caught))
    else none
  | none => none

/-- `runExecution` marks its execution as failed. After an invalid event it looks at the status
again; otherwise nothing follows. -/
def markFailed (service : SupervisorService) (executionId now : String)
    (committed published : Bool) : Option SupervisorService :=
  match service.running executionId with
  | some ⟨.failing failure, timer, aborted⟩ =>
    match commit committed (service.tables.markTerminal executionId .failed failure.code
        failure.message now) with
    | some (tables, changed) =>
      some ((service.setTables tables).setRunning executionId (some ⟨
        if changed && !published then RunPhase.caught (.failing failure)
        else if failure = .invalidAgentEvent then .ended else .finishing, timer, aborted⟩))
    | none =>
      some (service.setRunning executionId (some ⟨RunPhase.caught (.failing failure), timer,
        aborted⟩))
  | _ => none

/-- The `finally` of `runExecution`. -/
def dispose (service : SupervisorService) (executionId : String) : Option SupervisorService :=
  match service.running executionId with
  | some ⟨.finishing, _, _⟩ => some (service.setRunning executionId none)
  | _ => none

def timerFires (service : SupervisorService) (executionId : String) : Option SupervisorService :=
  match service.running executionId with
  | some ⟨phase, true, aborted⟩ =>
    some { service.setRunning executionId (some ⟨phase, false, aborted⟩) with
      timingOut := Function.update service.timingOut executionId true }
  | _ => none

def timeoutExecution (service : SupervisorService) (executionId now : String)
    (committed published : Bool) : Option SupervisorService :=
  if service.timingOut executionId then
    let service' := { service with
      timingOut := Function.update service.timingOut executionId false }
    match commit committed (service.tables.markTerminal executionId .timedOut
        "execution_timed_out" "Execution exceeded its timeout" now) with
    | some (tables, changed) =>
      if changed && published then some ((service'.setTables tables).abort executionId)
      else some (service'.setTables tables)
    | none => some service'
  else none

def loadCancelled (service : SupervisorService) (call : ℕ) : Option SupervisorService :=
  match service.call call with
  | some (.cancelLoading executionId) =>
    if service.isOpen executionId then
      some (service.setCall call (some (.cancelling executionId)))
    else some (service.setCall call none)
  | _ => none

def markCancelled (service : SupervisorService) (call : ℕ) (now : String)
    (committed published : Bool) : Option SupervisorService :=
  match service.call call with
  | some (.cancelling executionId) =>
    match commit committed (service.tables.markTerminal executionId .cancelled
        "execution_cancelled" "Execution was cancelled" now) with
    | some (tables, changed) =>
      if changed && published then
        some (((service.setTables tables).abort executionId).setCall call none)
      else some ((service.setTables tables).setCall call none)
    | none => some (service.setCall call none)
  | _ => none

/-- A new process over the same tables. -/
def restart (service : SupervisorService) : SupervisorService :=
  ⟨service.tables, false, [], fun _ => none, fun _ => false, fun _ => none⟩

/-- `start` reads what was interrupted. -/
def begin (service : SupervisorService) (answered : Bool) : Option SupervisorService :=
  if service.started then none
  else some { service with
    started := true
    recovering := if answered then (service.tables.executions.filter fun row =>
      row.status ∈ [.pending, .starting, .running]).map ExecutionRow.id else [] }

/-- `start` marks one execution; a failure ends it. -/
def recover (service : SupervisorService) (now : String) (committed published : Bool) :
    Option SupervisorService :=
  match service.recovering with
  | executionId :: rest =>
    match commit committed (service.tables.markTerminal executionId .failed "supervisor_restarted"
        "Execution was interrupted when the Supervisor restarted" now) with
    | some (tables, changed) =>
      some { service.setTables tables with
        recovering := if changed && !published then [] else rest }
    | none => some { service with recovering := [] }
  | [] => none

def step (service : SupervisorService) : ExecutionAct → Option SupervisorService
  | .createExecution call request =>
    if service.call call = none then some (service.setCall call (some (.searching request)))
    else none
  | .findExisting call => service.searched call
  | .insertExecution call id now committed => service.inserted call id now committed
  | .findConcurrent call =>
    match service.call call with
    | some (.conflicting _) => some (service.setCall call none)
    | _ => none
  | .schedule call => service.scheduled call
  | .loadExecution executionId answered => service.loadExecution executionId answered
  | .enterStarting executionId now committed => service.enterStarting executionId now committed
  | .agentCreated executionId succeeded => service.agentCreated executionId succeeded
  | .enterRunning executionId now committed => service.enterRunning executionId now committed
  | .agentYields executionId event => service.agentYields executionId event
  | .agentEnds executionId threw => service.agentEnds executionId threw
  | .persistAgentEvent executionId now committed published =>
    service.persistAgentEvent executionId now committed published
  | .checkStatus executionId answered => service.checkStatus executionId answered
  | .markFailed executionId now committed published =>
    service.markFailed executionId now committed published
  | .dispose executionId => service.dispose executionId
  | .timerFires executionId => service.timerFires executionId
  | .timeoutExecution executionId now committed published =>
    service.timeoutExecution executionId now committed published
  | .cancelExecution call executionId =>
    if service.call call = none then
      some (service.setCall call (some (.cancelLoading executionId)))
    else none
  | .loadCancelled call => service.loadCancelled call
  | .markCancelled call now committed published =>
    service.markCancelled call now committed published
  | .callFails call => some (service.setCall call none)
  | .restart => some service.restart
  | .start answered => service.begin answered
  | .recover now committed published => service.recover now committed published

def machine : Machine SupervisorService ExecutionAct := ⟨step⟩

/-- A service over an empty database. -/
def fresh : SupervisorService :=
  ⟨⟨[], [], []⟩, false, [], fun _ => none, fun _ => false, fun _ => none⟩

end SupervisorService
end PiDeck.Executions
