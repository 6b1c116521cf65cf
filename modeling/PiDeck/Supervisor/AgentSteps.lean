import Mathlib
import PiDeck.Supervisor.AgentService

/-! The steps of the service that runs agents, and the machine they make. -/
namespace PiDeck.Supervisor
open PiDeck.Collections PiDeck.Transition

namespace AgentService

/-! ### Sessions, operations and failure handlers -/

/-- The session of a run emits an event. -/
def emit (service : AgentService) (runId : String) (event : SessionEvent) : Option AgentService :=
  (service.active runId).map fun active =>
    let emitting := service.setActive runId { active with emitted := active.emitted ++ [event] }
    if active.acceptingEvents ∧ runId ∈ service.sessions then
      (emitting.enqueue active.agentId event.encodedBytes (.session runId event)).getD
        (emitting.handleEventFailure runId .backpressure)
    else emitting

/-- The promise of a prompt settles. -/
def settle (service : AgentService) (runId : String) (generation : ℕ) (settlement : Settlement) :
    Option AgentService :=
  match service.operation runId generation, service.active runId with
  | some ⟨acceptance, _, .prompting⟩, some active =>
    some (service.setOperation runId generation
      (some ⟨acceptance, active.emitted.length, .settled settlement⟩))
  | _, _ => none

/-- The operation looks at the acceptance of its run and at the generation. -/
def operationCheck (service : AgentService) (runId : String) (generation : ℕ) :
    Option AgentService :=
  match service.operation runId generation, service.active runId with
  | some ⟨.accepted, settledAfter, .settled settlement⟩, some active =>
    if active.generation = generation then
      match settlement with
      | .resolved =>
        some (service.setOperation runId generation
          (some ⟨.accepted, settledAfter, .draining (service.tail active.agentId)⟩))
      | .rejected =>
        some ((service.setOperation runId generation
          (some ⟨.accepted, settledAfter, .finalizing .failed⟩)).tryFinalizeRun active.agentId runId
            .failed "supervisor.run_failed" (.operation runId generation))
      | .extensionRequestCancelled =>
        some ((service.setOperation runId generation
          (some ⟨.accepted, settledAfter, .finalizing .cancelled⟩)).tryFinalizeRun active.agentId
            runId .cancelled "supervisor.run_cancelled" (.operation runId generation))
    else some (service.setOperation runId generation none)
  | some ⟨.rejected, _, .settled _⟩, some _ =>
    some ((service.setOperation runId generation none).dispose runId)
  | _, _ => none

/-- `completeRun` after it has waited for the events. -/
def operationDrained (service : AgentService) (runId : String) (generation : ℕ) :
    Option AgentService :=
  match service.operation runId generation, service.active runId with
  | some ⟨acceptance, settledAfter, .draining tail⟩, some active =>
    match service.settledTail tail with
    | some true =>
      some ((service.setOperation runId generation
        (some ⟨acceptance, settledAfter, .finalizing .completed⟩)).tryFinalizeRun active.agentId
          runId .completed "supervisor.run_completed" (.operation runId generation))
    | some false => some (service.setOperation runId generation none)
    | none => none
  | _, _ => none

def operationReturn (service : AgentService) (runId : String) (generation : ℕ) :
    Option AgentService :=
  match service.operation runId generation with
  | some ⟨_, _, .returned final won⟩ =>
    let ended := service.setOperation runId generation none
    if final = .completed ∧ (won ∨ runId ∉ service.degraded) then some ended
    else some (ended.dispose runId)
  | _ => none

def handlerDrain (service : AgentService) (runId : String) : Option AgentService :=
  match service.handler runId, service.active runId with
  | some (.stopping cause), some active =>
    some (service.setHandler runId (some (.draining cause (service.tail active.agentId))))
  | _, _ => none

def FailureCause.eventType : FailureCause → String
  | .backpressure => "supervisor.event_backpressure_exceeded"
  | .persistence => "supervisor.run_failed"

def handlerFinalize (service : AgentService) (runId : String) : Option AgentService :=
  match service.handler runId, service.active runId with
  | some (.draining cause tail), some active =>
    if service.settledTail tail = none then none
    else some ((service.setHandler runId (some .finalizing)).tryFinalizeRun active.agentId runId
      .failed (FailureCause.eventType cause) (.handler runId))
  | _, _ => none

def handlerReturn (service : AgentService) (runId : String) : Option AgentService :=
  match service.handler runId with
  | some .returned => some ((service.setHandler runId none).dispose runId)
  | _ => none

/-- The queue of an agent runs its first work. -/
def runWork (service : AgentService) (agentId : String) (written : Bool) (now : String) :
    Option AgentService :=
  match service.queue agentId with
  | entry :: rest =>
    some (({ service with queue := Function.update service.queue agentId rest }).perform agentId
      written now entry)
  | [] => none

/-! ### createRun -/

/-- Nothing of the agent runs, and the call gets its turn. -/
def createRunFind (service : AgentService) (agentId : String) (request : RunRequest) :
    Option AgentService :=
  if service.recovering = none ∧ service.command agentId = none ∧
      service.tables.agents.any (fun agent => agent.id = agentId && !agent.deleted) ∧
      service.tables.agentBusy agentId = false then
    some (service.setCommand agentId (some (.admitting request)))
  else none

/-- `resolveRunWorkspace`; `found` says whether the directory is on disk and is the requested
one. -/
def createRunResolve (service : AgentService) (agentId : String) (found : Bool) :
    Option AgentService :=
  match service.command agentId with
  | some (.admitting request) =>
    let accepted := match request.executionMode, request.worktreeId with
      | .localMode, none => true
      | .worktreeMode, some worktree =>
        service.tables.worktreeStatus worktree = some WorktreeStatus.ready && found
      | _, _ => false
    some (service.setCommand agentId (if accepted then some (.resolved request) else none))
  | _ => none

def createRunInsert (service : AgentService) (agentId runId : String) (written : Bool) :
    Option AgentService :=
  match service.command agentId with
  | some (.resolved request) =>
    match if written then service.tables.admitRun ⟨runId, agentId, request.worktreeId, .queued⟩
      else none with
    | some tables => some ((service.setTables tables).setCommand agentId (some (.starting runId)))
    | none => some (service.setCommand agentId none)
  | _ => none

/-- The command waits for the answer of `tryFinalizeRun`. -/
def commandFinalizes (service : AgentService) (agentId runId : String)
    (final : FinalStatus) (eventType : String) : AgentService :=
  (service.setCommand agentId (some (.finalizing runId))).tryFinalizeRun agentId runId final
    eventType (.command agentId)

/-- The session of a new run is created, or its creation fails. -/
def startSession (service : AgentService) (agentId : String) (created : Bool) :
    Option AgentService :=
  match service.command agentId with
  | some (.starting runId) =>
    if created then
      some (({ service with sessions := runId :: service.sessions }.setActive runId
        ⟨agentId, 1, true, false, []⟩).setCommand agentId (some (.started runId)))
    else some (service.commandFinalizes agentId runId .failed "supervisor.run_failed")
  | _ => none

/-- `compensateAdmissionFailure`. -/
def compensateAdmissionFailure (service : AgentService) (agentId runId : String) : AgentService :=
  match service.active runId with
  | some active =>
    (service.setActive runId { active with
      generation := active.generation + 1
      acceptingEvents := false }).setCommand agentId (some (.compensating runId))
  | none => service.setCommand agentId (some (.compensating runId))

/-- The row of the run gets the identity of the session, if it is still queued. -/
def identify (service : AgentService) (agentId : String) (written : Bool) : Option AgentService :=
  match service.command agentId with
  | some (.started runId) =>
    if written ∧ (service.tables.getRunRow runId).map AgentRunRow.status = some .queued then
      some (service.setCommand agentId (some (.identified runId)))
    else some (service.compensateAdmissionFailure agentId runId)
  | _ => none

def startPrompt (service : AgentService) (agentId : String) : Option AgentService :=
  match service.command agentId with
  | some (.identified runId) =>
    (service.generation runId).map fun generation =>
      (service.setOperation runId generation (some ⟨.undecided, 0, .prompting⟩)).setCommand agentId
        (some (.prompted runId generation))
  | _ => none

/-- `resolveRunAcceptance`. -/
def resolveAcceptance (service : AgentService) (runId : String) (generation : ℕ)
    (acceptance : RunAcceptance) : AgentService :=
  match service.operation runId generation with
  | some operation =>
    service.setOperation runId generation (some { operation with acceptance := acceptance })
  | none => service

/-- What `startRun` does with the answer to the prompt: the run is running only if it is still
queued and no failure has come in between. -/
def preflight (service : AgentService) (agentId : String) (accepted written : Bool) :
    Option AgentService :=
  match service.command agentId with
  | some (.prompted runId generation) =>
    if accepted then
      if service.generation runId = some generation then
        if written ∧ (service.tables.setRunning runId).2 then
          some ((service.setTables (service.tables.setRunning runId).1).setCommand agentId
            (some (.accepted runId generation)))
        else
          some ((service.resolveAcceptance runId generation .rejected).compensateAdmissionFailure
            agentId runId)
      else some ((service.resolveAcceptance runId generation .rejected).setCommand agentId none)
    else
      some ((service.resolveAcceptance runId generation .rejected).commandFinalizes agentId runId
        .failed "supervisor.prompt_rejected")
  | _ => none

def announce (service : AgentService) (agentId : String) (bytes : ℕ) : Option AgentService :=
  match service.command agentId with
  | some (.accepted runId generation) =>
    let released := service.resolveAcceptance runId generation .accepted
    match released.enqueue agentId bytes (.custom (some runId) "supervisor.prompt_accepted") with
    | some queued => some (queued.setCommand agentId (some (.announcing runId service.nextWork)))
    | none => some (released.compensateAdmissionFailure agentId runId)
  | _ => none

def announced (service : AgentService) (agentId : String) : Option AgentService :=
  match service.command agentId with
  | some (.announcing runId work) =>
    (service.outcome work).map fun stored =>
      if stored then service.setCommand agentId none
      else service.compensateAdmissionFailure agentId runId
  | _ => none

/-- After the abort and the waits, each of which ends by a time-out at the latest. -/
def compensated (service : AgentService) (agentId : String) : Option AgentService :=
  match service.command agentId with
  | some (.compensating runId) =>
    some (service.commandFinalizes agentId runId .failed "supervisor.run_failed")
  | _ => none

/-- A command that has had its answer from `tryFinalizeRun` disposes the session and ends. -/
def finish (service : AgentService) (agentId : String) : Option AgentService :=
  match service.command agentId with
  | some (.returned runId) => some ((service.dispose runId).setCommand agentId none)
  | _ => none

/-! ### cancelRun, followUpRun and steerRun -/

/-- The command of a run gets its turn in the queue of the agent. -/
def runCommand (service : AgentService) (runId : String) (allowed : ManagedAgentRunStatus → Bool)
    (command : Command) : Option AgentService :=
  match service.tables.getRunRow runId with
  | some run =>
    if service.recovering = none ∧ service.command run.agentId = none ∧
        runId ∉ service.degraded ∧ allowed run.status then
      some (service.setCommand run.agentId (some command))
    else none
  | none => none

def cancelRun (service : AgentService) (runId : String) : Option AgentService :=
  service.runCommand runId ManagedAgentRunStatus.isActive (.cancelling runId)

def cancelStop (service : AgentService) (agentId : String) : Option AgentService :=
  match service.command agentId with
  | some (.cancelling runId) =>
    if runId ∈ service.sessions then
      some ((service.bump runId).setCommand agentId (some (.cancelStopping runId)))
    else some (service.commandFinalizes agentId runId .cancelled "supervisor.run_cancelled")
  | _ => none

def cancelDrain (service : AgentService) (agentId : String) : Option AgentService :=
  match service.command agentId with
  | some (.cancelStopping runId) =>
    some (service.setCommand agentId (some (.cancelDraining runId (service.tail agentId))))
  | _ => none

/-- When the events could not be written, the command waits for the failure handler of its run if
there is one, and ends without an effect of its own. -/
def cancelDrained (service : AgentService) (agentId : String) : Option AgentService :=
  match service.command agentId with
  | some (.cancelDraining runId tail) =>
    match service.settledTail tail with
    | some true => some (service.commandFinalizes agentId runId .cancelled "supervisor.run_cancelled")
    | some false =>
      if service.handler runId = none then some (service.setCommand agentId none) else none
    | none => none
  | _ => none

def followUpRun (service : AgentService) (runId : String) : Option AgentService :=
  if runId ∈ service.sessions then
    service.runCommand runId (fun status => status.isActive || status = .completed)
      (.followingUp runId)
  else none

/-- A session that streams takes the message itself; otherwise the run is to be marked running. -/
def followUp (service : AgentService) (agentId : String) (isStreaming : Bool) (bytes : ℕ) :
    Option AgentService :=
  match service.command agentId with
  | some (.followingUp runId) =>
    if isStreaming then
      some (service.enqueueCustomEvent agentId (some runId) bytes "supervisor.follow_up_accepted")
    else
      (service.generation runId).map fun generation =>
        (service.bump runId).setCommand agentId (some (.marking runId (generation + 1)))
  | _ => none

def followUpMark (service : AgentService) (agentId : String) (written : Bool) :
    Option AgentService :=
  match service.command agentId with
  | some (.marking runId generation) =>
    if written ∧ (service.tables.markRunRunning runId).2 then
      some ((service.setTables (service.tables.markRunRunning runId).1).setCommand agentId
        (some (.marked runId generation)))
    else some (service.setCommand agentId none)
  | _ => none

def followUpLaunch (service : AgentService) (agentId : String) (bytes : ℕ) : Option AgentService :=
  match service.command agentId with
  | some (.marked runId generation) =>
    if service.generation runId = some generation then
      some ((service.setOperation runId generation
        (some ⟨.accepted, 0, .prompting⟩)).enqueueCustomEvent agentId (some runId) bytes
          "supervisor.follow_up_accepted")
    else some (service.setCommand agentId none)
  | _ => none

def steerRun (service : AgentService) (runId : String) : Option AgentService :=
  if runId ∈ service.sessions then
    service.runCommand runId ManagedAgentRunStatus.isActive (.steering runId)
  else none

def steer (service : AgentService) (agentId : String) (bytes : ℕ) : Option AgentService :=
  match service.command agentId with
  | some (.steering runId) =>
    some (service.enqueueCustomEvent agentId (some runId) bytes "supervisor.steer_accepted")
  | _ => none

def reported (service : AgentService) (agentId : String) : Option AgentService :=
  match service.command agentId with
  | some (.reporting work) => (service.outcome work).map fun _ => service.setCommand agentId none
  | _ => none

/-- A command throws before it has changed anything. -/
def abandon (service : AgentService) (agentId : String) : Option AgentService :=
  match service.command agentId with
  | some (.admitting _) | some (.resolved _) | some (.cancelling _) | some (.followingUp _)
  | some (.steering _) => some (service.setCommand agentId none)
  | _ => none

/-! ### deleteAgent -/

/-- Invalidate and stop all sessions of an agent. -/
def stopSessions (service : AgentService) (agentId : String) (late : Bool) : AgentService :=
  let targets := service.sessions.filter fun runId =>
    (service.active runId).any (fun active => active.agentId = agentId)
  let bumped := fun runId =>
    if runId ∈ targets then
      (service.active runId).map fun active => { active with generation := active.generation + 1 }
    else service.active runId
  { service with active := bumped }.setCommand agentId
    (some (.deleting (targets.map fun runId => (runId, .stopping)) late))

def deleteAgent (service : AgentService) (agentId : String) : Option AgentService :=
  if service.recovering = none ∧ service.command agentId = none then
    some (service.stopSessions agentId false)
  else none

def deleteFinalize (service : AgentService) (agentId runId : String) : Option AgentService :=
  match service.command agentId with
  | some (.deleting targets late) =>
    if (runId, .stopping) ∈ targets then
      some ((service.setCommand agentId (some (.deleting
        (targets.map fun target =>
          if target = (runId, .stopping) then (runId, .finalizing) else target)
          late))).tryFinalizeRun agentId runId .cancelled "supervisor.run_cancelled"
            (.deletion agentId runId))
    else none
  | _ => none

def deleteDispose (service : AgentService) (agentId runId : String) : Option AgentService :=
  match service.command agentId with
  | some (.deleting targets late) =>
    if (runId, .returned) ∈ targets then
      some ((service.dispose runId).setCommand agentId
        (some (.deleting (targets.filter (· ≠ (runId, .returned))) late)))
    else none
  | _ => none

/-- The sessions are stopped twice, for starts that finish late; then the profile is deleted. -/
def deleteNext (service : AgentService) (agentId : String) : Option AgentService :=
  match service.command agentId with
  | some (.deleting [] false) => some (service.stopSessions agentId true)
  | some (.deleting [] true) =>
    some ((service.setTables { service.tables with
      agents := updateWhere (fun agent => agent.id = agentId) (fun agent => { agent with deleted := true })
        service.tables.agents }).setCommand agentId none)
  | _ => none

/-! ### createAgent and start -/

def createAgent (service : AgentService) (agentId : String) (bytes : ℕ) : Option AgentService :=
  if service.recovering = none ∧ service.tables.agents.all (fun agent => agent.id ≠ agentId) then
    let created := service.setTables { service.tables with
      agents := service.tables.agents ++ [⟨agentId, false⟩] }
    some ((created.enqueue agentId bytes (.custom none "supervisor.agent_created")).getD
      created)
  else none

/-- The process ends, and the next one starts on the same tables. -/
def restart (service : AgentService) (cutoff : Option String) : AgentService :=
  let tables := match cutoff with
    | some cutoff => service.tables.compactEvents cutoff
    | none => service.tables
  { limits := service.limits
    tables := tables
    active := fun _ => none
    sessions := []
    operation := fun _ _ => none
    handler := fun _ => none
    command := fun _ => none
    queue := fun _ => []
    nextWork := service.nextWork
    outcome := fun _ => none
    degraded := []
    recovering := some ((tables.runs.filter fun run => run.status.isActive).map fun run =>
      (run.agentId, run.id)) }

/-- `start` finalizes the next interrupted run. Its queue is empty, so the work runs alone. -/
def recover (service : AgentService) (written : Bool) (now : String) : Option AgentService :=
  match service.recovering with
  | some ((agentId, runId) :: rest) =>
    let next := { service with recovering := some rest }
    if written ∧ 1 ≤ service.limits.maxCount ∧ 512 ≤ service.limits.maxBytes then
      some (next.setTables
        (service.tables.finalizeRun agentId runId .failed "supervisor.run_failed" now).1)
    else some (next.markDegraded runId)
  | _ => none

/-- `start` resumes the session of a completed run. -/
def resume (service : AgentService) (runId : String) : Option AgentService :=
  match service.recovering, service.tables.getRunRow runId, service.active runId with
  | some [], some run, none =>
    if run.status = .completed then
      some ({ service with sessions := runId :: service.sessions }.setActive runId
        ⟨run.agentId, 1, true, false, []⟩)
    else none
  | _, _, _ => none

def opened (service : AgentService) : Option AgentService :=
  if service.recovering = some [] then some { service with recovering := none } else none

end AgentService

inductive AgentAct
  | emit (runId : String) (event : SessionEvent)
  | settle (runId : String) (generation : ℕ) (settlement : Settlement)
  | operationCheck (runId : String) (generation : ℕ)
  | operationDrained (runId : String) (generation : ℕ)
  | operationReturn (runId : String) (generation : ℕ)
  | handlerDrain (runId : String)
  | handlerFinalize (runId : String)
  | handlerReturn (runId : String)
  | runWork (agentId : String) (written : Bool) (now : String)
  | createRunFind (agentId : String) (request : RunRequest)
  | createRunResolve (agentId : String) (found : Bool)
  | createRunInsert (agentId runId : String) (written : Bool)
  | startSession (agentId : String) (created : Bool)
  | identify (agentId : String) (written : Bool)
  | startPrompt (agentId : String)
  | preflight (agentId : String) (accepted written : Bool)
  | announce (agentId : String) (bytes : ℕ)
  | announced (agentId : String)
  | compensated (agentId : String)
  | finish (agentId : String)
  | cancelRun (runId : String)
  | cancelStop (agentId : String)
  | cancelDrain (agentId : String)
  | cancelDrained (agentId : String)
  | followUpRun (runId : String)
  | followUp (agentId : String) (isStreaming : Bool) (bytes : ℕ)
  | followUpMark (agentId : String) (written : Bool)
  | followUpLaunch (agentId : String) (bytes : ℕ)
  | steerRun (runId : String)
  | steer (agentId : String) (bytes : ℕ)
  | reported (agentId : String)
  | abandon (agentId : String)
  | deleteAgent (agentId : String)
  | deleteFinalize (agentId runId : String)
  | deleteDispose (agentId runId : String)
  | deleteNext (agentId : String)
  | createAgent (agentId : String) (bytes : ℕ)
  | restart (cutoff : Option String)
  | recover (written : Bool) (now : String)
  | resume (runId : String)
  | opened
  | worktreesWritten (worktrees : List WorktreeRow)
  deriving Repr

namespace AgentService

/-- The last label stands for the other service that writes the worktrees. -/
def step (service : AgentService) : AgentAct → Option AgentService
  | .emit runId event => service.emit runId event
  | .settle runId generation settlement => service.settle runId generation settlement
  | .operationCheck runId generation => service.operationCheck runId generation
  | .operationDrained runId generation => service.operationDrained runId generation
  | .operationReturn runId generation => service.operationReturn runId generation
  | .handlerDrain runId => service.handlerDrain runId
  | .handlerFinalize runId => service.handlerFinalize runId
  | .handlerReturn runId => service.handlerReturn runId
  | .runWork agentId written now => service.runWork agentId written now
  | .createRunFind agentId request => service.createRunFind agentId request
  | .createRunResolve agentId found => service.createRunResolve agentId found
  | .createRunInsert agentId runId written => service.createRunInsert agentId runId written
  | .startSession agentId created => service.startSession agentId created
  | .identify agentId written => service.identify agentId written
  | .startPrompt agentId => service.startPrompt agentId
  | .preflight agentId accepted written => service.preflight agentId accepted written
  | .announce agentId bytes => service.announce agentId bytes
  | .announced agentId => service.announced agentId
  | .compensated agentId => service.compensated agentId
  | .finish agentId => service.finish agentId
  | .cancelRun runId => service.cancelRun runId
  | .cancelStop agentId => service.cancelStop agentId
  | .cancelDrain agentId => service.cancelDrain agentId
  | .cancelDrained agentId => service.cancelDrained agentId
  | .followUpRun runId => service.followUpRun runId
  | .followUp agentId isStreaming bytes => service.followUp agentId isStreaming bytes
  | .followUpMark agentId written => service.followUpMark agentId written
  | .followUpLaunch agentId bytes => service.followUpLaunch agentId bytes
  | .steerRun runId => service.steerRun runId
  | .steer agentId bytes => service.steer agentId bytes
  | .reported agentId => service.reported agentId
  | .abandon agentId => service.abandon agentId
  | .deleteAgent agentId => service.deleteAgent agentId
  | .deleteFinalize agentId runId => service.deleteFinalize agentId runId
  | .deleteDispose agentId runId => service.deleteDispose agentId runId
  | .deleteNext agentId => service.deleteNext agentId
  | .createAgent agentId bytes => service.createAgent agentId bytes
  | .restart cutoff => some (service.restart cutoff)
  | .recover written now => service.recover written now
  | .resume runId => service.resume runId
  | .opened => service.opened
  | .worktreesWritten worktrees =>
    some (service.setTables { service.tables with worktrees := worktrees })

def machine : Machine AgentService AgentAct := ⟨step⟩

/-- A service on an empty database. -/
def fresh (limits : QueueLimits) : AgentService where
  limits := limits
  tables := ⟨[], [], [], []⟩
  active := fun _ => none
  sessions := []
  operation := fun _ _ => none
  handler := fun _ => none
  command := fun _ => none
  queue := fun _ => []
  nextWork := 0
  outcome := fun _ => none
  degraded := []
  recovering := none

end AgentService
end PiDeck.Supervisor
