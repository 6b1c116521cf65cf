import Mathlib
import PiDeck.Supervisor.Tables
import PiDeck.Transition.Machine

/-! The service that runs agents. The commands of one agent come one after the other; the operation
of a prompt, the handler of a failed event write and the event queue of the agent go on beside them.
Each step ends where the code awaits something, so anything may come between two steps of a call. A
call that is refused before it changes anything is no step. -/
namespace PiDeck.Supervisor
open PiDeck.Collections PiDeck.Transition

/-- Who waits for a `tryFinalizeRun`. -/
inductive Caller
  | command (agentId : String)
  | operation (runId : String) (generation : ℕ)
  | handler (runId : String)
  | deletion (agentId runId : String)
  deriving DecidableEq, Repr

/-- What waits in the event queue of an agent: an event of the session of a run, an event of a
command, or the end of a run. -/
inductive Work
  | session (runId : String) (event : SessionEvent)
  | custom (runId : Option String) (type : String)
  | finalize (runId : String) (final : FinalStatus) (eventType : String) (caller : Caller)
  deriving DecidableEq, Repr

structure QueuedWork where
  id : ℕ
  bytes : ℕ
  work : Work
  deriving DecidableEq, Repr

structure QueueLimits where
  maxCount : ℕ
  maxBytes : ℕ
  deriving DecidableEq, Repr

/-- `emitted` is what the session has emitted so far, accepted or not. -/
structure ActiveRun where
  agentId : String
  generation : ℕ
  acceptingEvents : Bool
  persistenceFailure : Bool
  emitted : List SessionEvent
  deriving DecidableEq, Repr

inductive Settlement
  | resolved
  | rejected
  | extensionRequestCancelled
  deriving DecidableEq, Repr

/-- Whether the run that an operation belongs to has been accepted; a follow-up has no such
question. -/
inductive RunAcceptance
  | undecided
  | accepted
  | rejected
  deriving DecidableEq, Repr

/-- `draining` is `completeRun` waiting for the last work that was queued. -/
inductive OperationPhase
  | prompting
  | settled (settlement : Settlement)
  | draining (tail : Option ℕ)
  | finalizing (final : FinalStatus)
  | returned (final : FinalStatus) (won : Bool)
  deriving DecidableEq, Repr

/-- `settledAfter` counts the events that the session had emitted when the prompt settled. -/
structure Operation where
  acceptance : RunAcceptance
  settledAfter : ℕ
  phase : OperationPhase
  deriving DecidableEq, Repr

inductive FailureCause
  | backpressure
  | persistence
  deriving DecidableEq, Repr

inductive FailureHandler
  | stopping (cause : FailureCause)
  | draining (cause : FailureCause) (tail : Option ℕ)
  | finalizing
  | returned
  deriving DecidableEq, Repr

inductive ExecutionMode
  | localMode
  | worktreeMode
  deriving DecidableEq, Repr

structure RunRequest where
  executionMode : ExecutionMode
  worktreeId : Option String
  deriving DecidableEq, Repr

inductive DeletionPhase
  | stopping
  | finalizing
  | returned
  deriving DecidableEq, Repr

/-- How far the command of an agent is. The phases up to `compensating` belong to `createRun`. -/
inductive Command
  | admitting (request : RunRequest)
  | resolved (request : RunRequest)
  | starting (runId : String)
  | started (runId : String)
  | identified (runId : String)
  | prompted (runId : String) (generation : ℕ)
  | accepted (runId : String) (generation : ℕ)
  | announcing (runId : String) (work : ℕ)
  | compensating (runId : String)
  | cancelling (runId : String)
  | cancelStopping (runId : String)
  | cancelDraining (runId : String) (tail : Option ℕ)
  | followingUp (runId : String)
  | marking (runId : String) (generation : ℕ)
  | marked (runId : String) (generation : ℕ)
  | steering (runId : String)
  | reporting (work : ℕ)
  | finalizing (runId : String)
  | returned (runId : String)
  | deleting (targets : List (String × DeletionPhase)) (late : Bool)
  deriving DecidableEq, Repr

/-- `sessions` holds the keys of `activeRuns`; an `ActiveRun` that has left it is still known to the
calls that captured it. `recovering` lists what `start` has still to finalize. -/
structure AgentService where
  limits : QueueLimits
  tables : Tables
  active : String → Option ActiveRun
  sessions : List String
  operation : String → ℕ → Option Operation
  handler : String → Option FailureHandler
  command : String → Option Command
  queue : String → List QueuedWork
  nextWork : ℕ
  outcome : ℕ → Option Bool
  degraded : List String
  recovering : Option (List (String × String))

namespace AgentService

def setCommand (service : AgentService) (agentId : String) (command : Option Command) :
    AgentService :=
  { service with command := Function.update service.command agentId command }

def setOperation (service : AgentService) (runId : String) (generation : ℕ)
    (operation : Option Operation) : AgentService :=
  { service with
    operation := Function.update service.operation runId
      (Function.update (service.operation runId) generation operation) }

def setHandler (service : AgentService) (runId : String) (handler : Option FailureHandler) :
    AgentService :=
  { service with handler := Function.update service.handler runId handler }

def setActive (service : AgentService) (runId : String) (active : ActiveRun) : AgentService :=
  { service with active := Function.update service.active runId (some active) }

def setTables (service : AgentService) (tables : Tables) : AgentService :=
  { service with tables := tables }

def markDegraded (service : AgentService) (runId : String) : AgentService :=
  { service with degraded := runId :: service.degraded }

/-- `disposeActiveRun`. -/
def dispose (service : AgentService) (runId : String) : AgentService :=
  { service with sessions := service.sessions.filter (· ≠ runId) }

/-- The generation of a run; commands and handlers raise it to make older operations stale. -/
def generation (service : AgentService) (runId : String) : Option ℕ :=
  (service.active runId).map ActiveRun.generation

def bump (service : AgentService) (runId : String) : AgentService :=
  match service.active runId with
  | some active => service.setActive runId { active with generation := active.generation + 1 }
  | none => service

/-- What `waitForEvents` waits for. -/
def tail (service : AgentService) (agentId : String) : Option ℕ :=
  (service.queue agentId).getLast?.map QueuedWork.id

/-- Whether a captured tail has settled, and how. -/
def settledTail (service : AgentService) : Option ℕ → Option Bool
  | none => some true
  | some work => service.outcome work

/-- `enqueueEventWork`; a work that the limits refuse is not queued. -/
def enqueue (service : AgentService) (agentId : String) (bytes : ℕ) (work : Work) :
    Option AgentService :=
  let queue := service.queue agentId
  if queue.length + 1 ≤ service.limits.maxCount ∧
      (queue.map QueuedWork.bytes).sum + bytes ≤ service.limits.maxBytes then
    some { service with
      queue := Function.update service.queue agentId (queue ++ [⟨service.nextWork, bytes, work⟩])
      nextWork := service.nextWork + 1 }
  else none

/-- The failure handlers: the first failure of a run that has a session stops its events and
invalidates its operation. -/
def handleEventFailure (service : AgentService) (runId : String) (cause : FailureCause) :
    AgentService :=
  match service.active runId with
  | some active =>
    if runId ∈ service.sessions ∧ active.persistenceFailure = false then
      (service.setActive runId { active with
        generation := active.generation + 1
        acceptingEvents := false
        persistenceFailure := true }).setHandler runId (some (.stopping cause))
    else service
  | none => service

/-- A command reports what it did in an event of its own, and ends when that is stored or
refused. -/
def enqueueCustomEvent (service : AgentService) (agentId : String) (runId : Option String)
    (bytes : ℕ) (type : String) : AgentService :=
  match service.enqueue agentId bytes (.custom runId type) with
  | some queued => queued.setCommand agentId (some (.reporting service.nextWork))
  | none => service.setCommand agentId none

/-- The answer of `tryFinalizeRun` reaches the call that waits for it. -/
def answer (service : AgentService) (runId : String) (won : Bool) : Caller → AgentService
  | .command agentId =>
    if service.command agentId = some (.finalizing runId) then
      service.setCommand agentId (some (.returned runId))
    else service
  | .operation runId generation =>
    match service.operation runId generation with
    | some ⟨acceptance, settledAfter, .finalizing final⟩ =>
      service.setOperation runId generation (some ⟨acceptance, settledAfter, .returned final won⟩)
    | _ => service
  | .handler runId =>
    if service.handler runId = some .finalizing then service.setHandler runId (some .returned)
    else service
  | .deletion agentId runId =>
    match service.command agentId with
    | some (.deleting targets late) =>
      service.setCommand agentId (some (.deleting (targets.map fun target =>
        if target = (runId, .finalizing) then (runId, .returned) else target) late))
    | _ => service

/-- The beginning of `tryFinalizeRun`: the run is degraded at once when its work is refused. The
caller waits in the phase that it has been put in. -/
def tryFinalizeRun (service : AgentService) (agentId runId : String)
    (final : FinalStatus) (eventType : String) (caller : Caller) : AgentService :=
  match service.enqueue agentId 512 (.finalize runId final eventType caller) with
  | some queued => queued
  | none => (service.markDegraded runId).answer runId false caller

def settleWork (service : AgentService) (id : ℕ) (succeeded : Bool) : AgentService :=
  { service with outcome := Function.update service.outcome id (some succeeded) }

/-- `persistEvent` of a queued work; `written` is false when the transaction fails for a reason
outside. -/
def persistWork (service : AgentService) (agentId : String) (written : Bool) (now : String) (id : ℕ)
    (runId : Option String) (event : StoredEvent) : Option AgentService :=
  if written then
    (service.tables.persistEvent agentId runId event now).map fun tables =>
      (service.setTables tables).settleWork id true
  else none

/-- A work of the queue of an agent runs. -/
def perform (service : AgentService) (agentId : String) (written : Bool) (now : String)
    (entry : QueuedWork) : AgentService :=
  match entry.work with
  | .session runId event =>
    (service.persistWork agentId written now entry.id (some runId) (.session event)).getD
      ((service.settleWork entry.id false).handleEventFailure runId .persistence)
  | .custom runId type =>
    (service.persistWork agentId written now entry.id runId (.custom type)).getD
      (service.settleWork entry.id false)
  | .finalize runId final eventType caller =>
    if written then
      let finalized := service.tables.finalizeRun agentId runId final eventType now
      ((service.setTables finalized.1).settleWork entry.id true).answer runId finalized.2 caller
    else ((service.settleWork entry.id false).markDegraded runId).answer runId false caller

end AgentService
end PiDeck.Supervisor
