import Mathlib
import PiDeck.Collections.Keyed

/-! The tables of the executions and the transactions that write them. A JSON value stands as its
text. -/
namespace PiDeck.Executions
open PiDeck.Collections

inductive ExecutionStatus
  | pending
  | starting
  | running
  | succeeded
  | failed
  | cancelled
  | timedOut
  deriving DecidableEq, Repr

namespace ExecutionStatus

def transitions : ExecutionStatus → List ExecutionStatus
  | .pending => [.starting, .failed, .cancelled, .timedOut]
  | .starting => [.running, .failed, .cancelled, .timedOut]
  | .running => [.succeeded, .failed, .cancelled, .timedOut]
  | .succeeded => []
  | .failed => []
  | .cancelled => []
  | .timedOut => []

/-- `isTerminalExecutionStatus`. -/
def isTerminal (status : ExecutionStatus) : Bool := status.transitions.isEmpty

/-- `canTransitionExecution`. -/
def canTransition (source target : ExecutionStatus) : Bool := source.transitions.contains target

end ExecutionStatus

inductive ExecutionError
  | notFound (executionId : String)
  | invalidTransition (source target : ExecutionStatus)
  deriving DecidableEq, Repr

def assertExecutionTransition (source target : ExecutionStatus) : Except ExecutionError Unit :=
  if source.canTransition target then .ok () else .error (.invalidTransition source target)

inductive AgentEvent
  | started
  | message (text : String)
  | output (value : String)
  | completed
  | failed (code reason : String)
  deriving DecidableEq, Repr

/-- What `AgentEventSchema` asks of the texts of an event. -/
def AgentEvent.Valid : AgentEvent → Prop
  | .failed code reason => code ≠ "" ∧ reason ≠ ""
  | .started | .message _ | .output _ | .completed => True

instance : DecidablePred AgentEvent.Valid
  | .failed code reason => inferInstanceAs (Decidable (code ≠ "" ∧ reason ≠ ""))
  | .started | .message _ | .output _ | .completed => isTrue trivial

abbrev ParsedEvent := {event : AgentEvent // event.Valid}

/-- What an agent yields before `AgentEventSchema` has read it. -/
inductive RawEvent
  | typed (event : AgentEvent)
  | other
  deriving DecidableEq, Repr

def RawEvent.safeParse : RawEvent → Option ParsedEvent
  | .typed event => if valid : event.Valid then some ⟨event, valid⟩ else none
  | .other => none

inductive ExecutionEventType
  | started
  | message
  | output
  | completed
  | failed
  deriving DecidableEq, Repr

inductive EventPayload
  | empty
  | message (text : String)
  | output (value : String)
  | failure (code message : String)
  deriving DecidableEq, Repr

namespace AgentEvent

def type : AgentEvent → ExecutionEventType
  | .started => .started
  | .message _ => .message
  | .output _ => .output
  | .completed => .completed
  | .failed _ _ => .failed

def payload : AgentEvent → EventPayload
  | .started => .empty
  | .message text => .message text
  | .output value => .output value
  | .completed => .empty
  | .failed code reason => .failure code reason

end AgentEvent

structure CreateExecutionRequest where
  idempotencyKey : String
  agentType : String
  input : String
  config : String
  timeoutMs : ℕ
  deriving DecidableEq, Repr

structure ExecutionRow where
  id : String
  idempotencyKey : String
  agentType : String
  input : String
  config : String
  status : ExecutionStatus
  timeoutMs : ℕ
  outputJson : Option String
  errorCode : Option String
  errorMessage : Option String
  createdAt : String
  startedAt : Option String
  finishedAt : Option String
  deriving DecidableEq, Repr

/-- The row of a new execution. -/
def CreateExecutionRequest.values (request : CreateExecutionRequest) (id createdAt : String) :
    ExecutionRow where
  id := id
  idempotencyKey := request.idempotencyKey
  agentType := request.agentType
  input := request.input
  config := request.config
  status := .pending
  timeoutMs := request.timeoutMs
  outputJson := none
  errorCode := none
  errorMessage := none
  createdAt := createdAt
  startedAt := none
  finishedAt := none

structure ExecutionEventRow where
  executionId : String
  sequence : ℕ
  type : ExecutionEventType
  payload : EventPayload
  createdAt : String
  deriving DecidableEq, Repr

structure IdempotencyKeyRow where
  idempotencyKey : String
  executionId : String
  createdAt : String
  deriving DecidableEq, Repr

structure Tables where
  executions : List ExecutionRow
  events : List ExecutionEventRow
  idempotencyKeys : List IdempotencyKeyRow
  deriving DecidableEq, Repr

structure PersistResult where
  event : Option ExecutionEventRow
  ignored : Bool
  terminal : Bool
  deriving DecidableEq, Repr

/-- The statuses of `markTerminal`. -/
inductive Ending
  | failed
  | cancelled
  | timedOut
  deriving DecidableEq, Repr

def Ending.status : Ending → ExecutionStatus
  | .failed => .failed
  | .cancelled => .cancelled
  | .timedOut => .timedOut

/-- The statuses of `transitionStatus`. -/
inductive Progress
  | starting
  | running
  deriving DecidableEq, Repr

def Progress.status : Progress → ExecutionStatus
  | .starting => .starting
  | .running => .running

inductive Constraint
  | primaryKey
  | unique
  deriving DecidableEq, Repr

namespace Tables

def getExecutionRow (tables : Tables) (executionId : String) : Option ExecutionRow :=
  findRow ExecutionRow.id tables.executions executionId

def findByIdempotencyKey (tables : Tables) (idempotencyKey : String) : Option ExecutionRow :=
  (findRow IdempotencyKeyRow.idempotencyKey tables.idempotencyKeys idempotencyKey).bind fun key =>
    tables.getExecutionRow key.executionId

def eventsOf (tables : Tables) (executionId : String) : List ExecutionEventRow :=
  tables.events.filter (fun event => event.executionId = executionId)

def lastSequence (tables : Tables) (executionId : String) : ℕ :=
  ((tables.eventsOf executionId).map ExecutionEventRow.sequence).foldr max 0

def insertEvent (tables : Tables) (event : ExecutionEventRow) : Tables :=
  { tables with events := tables.events ++ [event] }

def updateExecution (tables : Tables) (row : ExecutionRow) : Tables :=
  { tables with executions := modifyRow ExecutionRow.id row.id (fun _ => row) tables.executions }

/-- The transaction of `createExecution`. -/
def insertExecution (tables : Tables) (request : CreateExecutionRequest) (id createdAt : String) :
    Except Constraint Tables :=
  if (tables.getExecutionRow id).isSome then .error .primaryKey
  else if (findRow IdempotencyKeyRow.idempotencyKey tables.idempotencyKeys
      request.idempotencyKey).isSome then .error .primaryKey
  else if (findRow IdempotencyKeyRow.executionId tables.idempotencyKeys id).isSome then
    .error .unique
  else .ok { tables with
    executions := tables.executions ++ [request.values id createdAt]
    idempotencyKeys := tables.idempotencyKeys ++ [⟨request.idempotencyKey, id, createdAt⟩] }

end Tables

/-- The update that goes with an event, and whether it ends the execution. -/
def ExecutionRow.update (row : ExecutionRow) (createdAt : String) :
    AgentEvent → Except ExecutionError (ExecutionRow × Bool)
  | .started =>
    if row.status = .starting then do
      assertExecutionTransition row.status .running
      return ({ row with status := .running, startedAt := row.startedAt.or (some createdAt) }, false)
    else return (row, false)
  | .message _ => return (row, false)
  | .output value => return ({ row with outputJson := some value }, false)
  | .completed => do
    assertExecutionTransition row.status .succeeded
    return ({ row with status := .succeeded, finishedAt := some createdAt }, true)
  | .failed code message => do
    assertExecutionTransition row.status .failed
    return ({ row with
      status := .failed
      errorCode := some code
      errorMessage := some message
      finishedAt := some createdAt }, true)

namespace Tables

/-- The transaction of `persistAgentEvent`. -/
def persistAgentEvent (tables : Tables) (executionId : String) (event : AgentEvent)
    (now : String) : Except ExecutionError (Tables × PersistResult) :=
  match tables.getExecutionRow executionId with
  | none => .error (.notFound executionId)
  | some row =>
    if row.status.isTerminal then return (tables, ⟨none, true, true⟩)
    else if event.type = .output ∧ row.outputJson ≠ none then return (tables, ⟨none, true, false⟩)
    else do
      let persisted : ExecutionEventRow :=
        ⟨executionId, tables.lastSequence executionId + 1, event.type, event.payload, now⟩
      let (updated, terminal) ← row.update now event
      return ((tables.insertEvent persisted).updateExecution updated,
        ⟨some persisted, false, terminal⟩)

/-- The transaction of `markTerminal`, and whether it changed the execution. -/
def markTerminal (tables : Tables) (executionId : String) (target : Ending)
    (code message now : String) : Except ExecutionError (Tables × Bool) :=
  match tables.getExecutionRow executionId with
  | none => .error (.notFound executionId)
  | some row =>
    if row.status.isTerminal then return (tables, false)
    else do
      assertExecutionTransition row.status target.status
      return ((tables.insertEvent ⟨executionId, tables.lastSequence executionId + 1, .failed,
          .failure code message, now⟩).updateExecution { row with
            status := target.status
            errorCode := some code
            errorMessage := some message
            finishedAt := some now }, true)

/-- The transaction of `transitionStatus`, and whether the execution goes on. -/
def transitionStatus (tables : Tables) (executionId : String) (target : Progress) (now : String) :
    Except ExecutionError (Tables × Bool) :=
  match tables.getExecutionRow executionId with
  | none => .error (.notFound executionId)
  | some row =>
    if row.status.isTerminal then return (tables, false)
    else if row.status = target.status then return (tables, true)
    else do
      assertExecutionTransition row.status target.status
      return (tables.updateExecution { row with
        status := target.status
        startedAt := if target = .running then row.startedAt.or (some now) else row.startedAt },
        true)

end Tables
end PiDeck.Executions
