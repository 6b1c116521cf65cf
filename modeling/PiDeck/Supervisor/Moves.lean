import Mathlib
import PiDeck.Supervisor.AgentSteps

/-! The steps of the service as a relation with one rule for each branch of the code, for proofs by
cases. The moves of a command that change nothing but how far it is are listed on their own. -/
namespace PiDeck.Supervisor
open PiDeck.Collections PiDeck.Transition

def Tables.runStatus (tables : Tables) (runId : String) : Option ManagedAgentRunStatus :=
  (tables.getRunRow runId).map AgentRunRow.status

def Tables.runAgent (tables : Tables) (runId : String) : Option String :=
  (tables.getRunRow runId).map AgentRunRow.agentId

namespace AgentService

/-- How the command of an agent goes on without touching anything else. -/
inductive SlotMove (service : AgentService) (agentId : String) :
    AgentAct → Option Command → Option Command → Prop
  | admitRun (request : RunRequest) (opened : service.recovering = none) :
      SlotMove service agentId (.createRunFind agentId request) none (some (.admitting request))
  | resolve (request : RunRequest) (found : Bool) :
      SlotMove service agentId (.createRunResolve agentId found) (some (.admitting request))
        (some (.resolved request))
  | unresolved (request : RunRequest) (found : Bool) :
      SlotMove service agentId (.createRunResolve agentId found) (some (.admitting request)) none
  | refused (request : RunRequest) (runId : String) (written : Bool) :
      SlotMove service agentId (.createRunInsert agentId runId written) (some (.resolved request))
        none
  | identify (runId : String) (written : Bool) :
      SlotMove service agentId (.identify agentId written) (some (.started runId))
        (some (.identified runId))
  | announced (runId : String) (work : ℕ) :
      SlotMove service agentId (.announced agentId) (some (.announcing runId work)) none
  | cancel (runId : String) (run : service.tables.runAgent runId = some agentId) :
      SlotMove service agentId (.cancelRun runId) none (some (.cancelling runId))
  | followUp (runId : String) (run : service.tables.runAgent runId = some agentId) :
      SlotMove service agentId (.followUpRun runId) none (some (.followingUp runId))
  | steer (runId : String) (run : service.tables.runAgent runId = some agentId) :
      SlotMove service agentId (.steerRun runId) none (some (.steering runId))
  | cancelDrain (runId : String) :
      SlotMove service agentId (.cancelDrain agentId) (some (.cancelStopping runId))
        (some (.cancelDraining runId (service.tail agentId)))
  | cancelFails (runId : String) (tail : Option ℕ) (failed : service.settledTail tail = some false) :
      SlotMove service agentId (.cancelDrained agentId) (some (.cancelDraining runId tail)) none
  | notMarked (runId : String) (generation : ℕ) (written : Bool) :
      SlotMove service agentId (.followUpMark agentId written) (some (.marking runId generation))
        none
  | stale (runId : String) (generation bytes : ℕ)
      (raised : service.generation runId ≠ some generation) :
      SlotMove service agentId (.followUpLaunch agentId bytes) (some (.marked runId generation)) none
  | reported (work : ℕ) :
      SlotMove service agentId (.reported agentId) (some (.reporting work)) none
  | abandonAdmitting (request : RunRequest) :
      SlotMove service agentId (.abandon agentId) (some (.admitting request)) none
  | abandonResolved (request : RunRequest) :
      SlotMove service agentId (.abandon agentId) (some (.resolved request)) none
  | abandonCancelling (runId : String) :
      SlotMove service agentId (.abandon agentId) (some (.cancelling runId)) none
  | abandonFollowingUp (runId : String) :
      SlotMove service agentId (.abandon agentId) (some (.followingUp runId)) none
  | abandonSteering (runId : String) :
      SlotMove service agentId (.abandon agentId) (some (.steering runId)) none

/-- What a command does once it calls `tryFinalizeRun`. -/
inductive Finalizes (service : AgentService) (agentId runId : String) :
    AgentAct → Command → FinalStatus → String → Prop
  | startSession :
      Finalizes service agentId runId (.startSession agentId false) (.starting runId) .failed
        "supervisor.run_failed"
  | compensated :
      Finalizes service agentId runId (.compensated agentId) (.compensating runId) .failed
        "supervisor.run_failed"
  | cancelStop :
      Finalizes service agentId runId (.cancelStop agentId) (.cancelling runId) .cancelled
        "supervisor.run_cancelled"
  | cancelDrained (tail : Option ℕ) :
      Finalizes service agentId runId (.cancelDrained agentId) (.cancelDraining runId tail) .cancelled
        "supervisor.run_cancelled"

/-- What runs when the head of a queue does. -/
inductive Performs (service : AgentService) (agentId : String) (written : Bool) (now : String)
    (id : ℕ) : Work → AgentService → Prop
  | stored (runId : Option String) (event : StoredEvent) (work : Work) (tables : Tables)
      (kind : (∃ run e, runId = some run ∧ event = .session e ∧ work = .session run e) ∨
        ∃ type, event = .custom type ∧ work = .custom runId type)
      (persisted : service.tables.persistEvent agentId runId event now = some tables) :
      Performs service agentId written now id work ((service.setTables tables).settleWork id true)
  | sessionFails (runId : String) (event : SessionEvent) :
      Performs service agentId written now id (.session runId event)
        ((service.settleWork id false).handleEventFailure runId .persistence)
  | customFails (runId : Option String) (type : String) :
      Performs service agentId written now id (.custom runId type) (service.settleWork id false)
  | finalized (runId : String) (final : FinalStatus) (eventType : String) (caller : Caller) :
      Performs service agentId written now id (.finalize runId final eventType caller)
        (((service.setTables
          (service.tables.finalizeRun agentId runId final eventType now).1).settleWork id true).answer
            runId (service.tables.finalizeRun agentId runId final eventType now).2 caller)
  | finalizeFails (runId : String) (final : FinalStatus) (eventType : String) (caller : Caller) :
      Performs service agentId written now id (.finalize runId final eventType caller)
        (((service.settleWork id false).markDegraded runId).answer runId false caller)

theorem performs {service : AgentService} {agentId now : String} {written : Bool}
    {entry : QueuedWork} :
    Performs service agentId written now entry.id entry.work
      (service.perform agentId written now entry) := by
  have stored : ∀ {target : Option String} {event : StoredEvent} {service' : AgentService},
      service.persistWork agentId written now entry.id target event = some service' →
      ∃ tables, service.tables.persistEvent agentId target event now = some tables ∧
        service' = (service.setTables tables).settleWork entry.id true := by
    intro target event service' h
    unfold persistWork at h
    split at h
    · obtain ⟨tables, htables, rfl⟩ := Option.map_eq_some_iff.mp h
      exact ⟨tables, htables, rfl⟩
    · cases h
  unfold perform
  cases hwork : entry.work with
  | session runId event =>
    dsimp only
    cases hp : service.persistWork agentId written now entry.id (some runId) (.session event) with
    | none => exact .sessionFails runId event
    | some service' =>
      obtain ⟨tables, htables, rfl⟩ := stored hp
      exact .stored (some runId) (.session event) _ tables (.inl ⟨runId, event, rfl, rfl, rfl⟩) htables
  | custom runId type =>
    dsimp only
    cases hp : service.persistWork agentId written now entry.id runId (.custom type) with
    | none => exact .customFails runId type
    | some service' =>
      obtain ⟨tables, htables, rfl⟩ := stored hp
      exact .stored runId (.custom type) _ tables (.inr ⟨type, rfl, rfl⟩) htables
  | finalize runId final eventType caller =>
    cases written with
    | false => exact .finalizeFails runId final eventType caller
    | true => exact .finalized runId final eventType caller

/-- The steps of the service, one rule for each branch. -/
inductive Move (service : AgentService) : AgentAct → AgentService → Prop
  | slot (agentId : String) (act : AgentAct) (old new : Option Command)
      (current : service.command agentId = old) (move : SlotMove service agentId act old new) :
      Move service act (service.setCommand agentId new)
  | finalizes (agentId runId : String) (act : AgentAct) (command : Command) (final : FinalStatus)
      (eventType : String) (current : service.command agentId = some command)
      (calls : Finalizes service agentId runId act command final eventType) :
      Move service act (service.commandFinalizes agentId runId final eventType)
  | emitDropped (runId : String) (event : SessionEvent) (active : ActiveRun)
      (found : service.active runId = some active)
      (dropped : ¬(active.acceptingEvents = true ∧ runId ∈ service.sessions)) :
      Move service (.emit runId event)
        (service.setActive runId { active with emitted := active.emitted ++ [event] })
  | emitQueued (runId : String) (event : SessionEvent) (active : ActiveRun) (queued : AgentService)
      (found : service.active runId = some active)
      (accepting : active.acceptingEvents = true ∧ runId ∈ service.sessions)
      (room : (service.setActive runId
        { active with emitted := active.emitted ++ [event] }).enqueue active.agentId
          event.encodedBytes (.session runId event) = some queued) :
      Move service (.emit runId event) queued
  | emitRefused (runId : String) (event : SessionEvent) (active : ActiveRun)
      (found : service.active runId = some active)
      (accepting : active.acceptingEvents = true ∧ runId ∈ service.sessions) :
      Move service (.emit runId event) ((service.setActive runId
        { active with emitted := active.emitted ++ [event] }).handleEventFailure runId .backpressure)
  | settle (runId : String) (generation settledAfter : ℕ) (settlement : Settlement)
      (acceptance : RunAcceptance) (active : ActiveRun)
      (prompting : service.operation runId generation = some ⟨acceptance, settledAfter, .prompting⟩)
      (found : service.active runId = some active) :
      Move service (.settle runId generation settlement) (service.setOperation runId generation
        (some ⟨acceptance, active.emitted.length, .settled settlement⟩))
  | checkResolved (runId : String) (generation settledAfter : ℕ) (active : ActiveRun)
      (settled : service.operation runId generation =
        some ⟨.accepted, settledAfter, .settled .resolved⟩)
      (found : service.active runId = some active) (current : active.generation = generation) :
      Move service (.operationCheck runId generation) (service.setOperation runId generation
        (some ⟨.accepted, settledAfter, .draining (service.tail active.agentId)⟩))
  | checkRejected (runId : String) (generation settledAfter : ℕ) (settlement : Settlement)
      (final : FinalStatus) (eventType : String) (active : ActiveRun)
      (settled : service.operation runId generation =
        some ⟨.accepted, settledAfter, .settled settlement⟩)
      (found : service.active runId = some active) (current : active.generation = generation)
      (unsuccessful : final ≠ .completed) :
      Move service (.operationCheck runId generation) ((service.setOperation runId generation
        (some ⟨.accepted, settledAfter, .finalizing final⟩)).tryFinalizeRun active.agentId runId
          final eventType (.operation runId generation))
  | checkStale (runId : String) (generation settledAfter : ℕ) (settlement : Settlement)
      (active : ActiveRun)
      (settled : service.operation runId generation =
        some ⟨.accepted, settledAfter, .settled settlement⟩)
      (found : service.active runId = some active) (raised : active.generation ≠ generation) :
      Move service (.operationCheck runId generation) (service.setOperation runId generation none)
  | checkUnaccepted (runId : String) (generation settledAfter : ℕ) (settlement : Settlement)
      (settled : service.operation runId generation =
        some ⟨.rejected, settledAfter, .settled settlement⟩) :
      Move service (.operationCheck runId generation)
        ((service.setOperation runId generation none).dispose runId)
  | drained (runId : String) (generation settledAfter : ℕ) (acceptance : RunAcceptance)
      (tail : Option ℕ) (active : ActiveRun)
      (draining : service.operation runId generation =
        some ⟨acceptance, settledAfter, .draining tail⟩)
      (found : service.active runId = some active) (written : service.settledTail tail = some true) :
      Move service (.operationDrained runId generation) ((service.setOperation runId generation
        (some ⟨acceptance, settledAfter, .finalizing .completed⟩)).tryFinalizeRun active.agentId
          runId .completed "supervisor.run_completed" (.operation runId generation))
  | drainFailed (runId : String) (generation settledAfter : ℕ) (acceptance : RunAcceptance)
      (tail : Option ℕ) (active : ActiveRun)
      (draining : service.operation runId generation =
        some ⟨acceptance, settledAfter, .draining tail⟩)
      (found : service.active runId = some active) (failed : service.settledTail tail = some false) :
      Move service (.operationDrained runId generation) (service.setOperation runId generation none)
  | operationReturn (runId : String) (generation settledAfter : ℕ) (acceptance : RunAcceptance)
      (final : FinalStatus) (won : Bool) (service' : AgentService)
      (returned : service.operation runId generation =
        some ⟨acceptance, settledAfter, .returned final won⟩)
      (ended : service' = service.setOperation runId generation none ∨
        service' = (service.setOperation runId generation none).dispose runId) :
      Move service (.operationReturn runId generation) service'
  | handlerDrain (runId : String) (cause : FailureCause) (active : ActiveRun)
      (stopping : service.handler runId = some (.stopping cause))
      (found : service.active runId = some active) :
      Move service (.handlerDrain runId)
        (service.setHandler runId (some (.draining cause (service.tail active.agentId))))
  | handlerFinalize (runId : String) (cause : FailureCause) (tail : Option ℕ) (active : ActiveRun)
      (draining : service.handler runId = some (.draining cause tail))
      (found : service.active runId = some active) :
      Move service (.handlerFinalize runId)
        ((service.setHandler runId (some .finalizing)).tryFinalizeRun active.agentId runId .failed
          (FailureCause.eventType cause) (.handler runId))
  | handlerReturn (runId : String) (returned : service.handler runId = some .returned) :
      Move service (.handlerReturn runId) ((service.setHandler runId none).dispose runId)
  | work (agentId now : String) (written : Bool) (entry : QueuedWork) (rest : List QueuedWork)
      (service' : AgentService) (head : service.queue agentId = entry :: rest)
      (performed : Performs { service with queue := Function.update service.queue agentId rest }
        agentId written now entry.id entry.work service') :
      Move service (.runWork agentId written now) service'
  | inserted (agentId runId : String) (written : Bool) (request : RunRequest) (tables : Tables)
      (current : service.command agentId = some (.resolved request))
      (admitted : service.tables.admitRun ⟨runId, agentId, request.worktreeId, .queued⟩ = some tables) :
      Move service (.createRunInsert agentId runId written)
        ((service.setTables tables).setCommand agentId (some (.starting runId)))
  | sessionCreated (agentId runId : String)
      (current : service.command agentId = some (.starting runId)) :
      Move service (.startSession agentId true)
        (({ service with sessions := runId :: service.sessions }.setActive runId
          ⟨agentId, 1, true, false, []⟩).setCommand agentId (some (.started runId)))
  | compensates (agentId runId : String) (act : AgentAct) (command : Command)
      (current : service.command agentId = some command)
      (failed : (∃ written, act = .identify agentId written ∧ command = .started runId) ∨
        ∃ work, act = .announced agentId ∧ command = .announcing runId work) :
      Move service act (service.compensateAdmissionFailure agentId runId)
  | prompted (agentId runId : String) (generation : ℕ)
      (current : service.command agentId = some (.identified runId))
      (found : service.generation runId = some generation) :
      Move service (.startPrompt agentId) ((service.setOperation runId generation
        (some ⟨.undecided, 0, .prompting⟩)).setCommand agentId (some (.prompted runId generation)))
  | accepted (agentId runId : String) (generation : ℕ) (written : Bool)
      (current : service.command agentId = some (.prompted runId generation))
      (found : service.generation runId = some generation) :
      Move service (.preflight agentId true written)
        ((service.setTables (service.tables.setRunning runId).1).setCommand agentId
          (some (.accepted runId generation)))
  | unaccepted (agentId runId : String) (generation : ℕ) (written : Bool)
      (current : service.command agentId = some (.prompted runId generation))
      (found : service.generation runId = some generation) :
      Move service (.preflight agentId true written)
        ((service.resolveAcceptance runId generation .rejected).compensateAdmissionFailure agentId
          runId)
  | overtaken (agentId runId : String) (generation : ℕ) (written : Bool)
      (current : service.command agentId = some (.prompted runId generation))
      (raised : service.generation runId ≠ some generation) :
      Move service (.preflight agentId true written)
        ((service.resolveAcceptance runId generation .rejected).setCommand agentId none)
  | promptRejected (agentId runId : String) (generation : ℕ) (written : Bool)
      (current : service.command agentId = some (.prompted runId generation)) :
      Move service (.preflight agentId false written)
        ((service.resolveAcceptance runId generation .rejected).commandFinalizes agentId runId
          .failed "supervisor.prompt_rejected")
  | announces (agentId runId : String) (generation bytes : ℕ) (queued : AgentService)
      (current : service.command agentId = some (.accepted runId generation))
      (room : (service.resolveAcceptance runId generation .accepted).enqueue agentId bytes
        (.custom (some runId) "supervisor.prompt_accepted") = some queued) :
      Move service (.announce agentId bytes)
        (queued.setCommand agentId (some (.announcing runId service.nextWork)))
  | unannounced (agentId runId : String) (generation bytes : ℕ)
      (current : service.command agentId = some (.accepted runId generation)) :
      Move service (.announce agentId bytes)
        ((service.resolveAcceptance runId generation .accepted).compensateAdmissionFailure agentId
          runId)
  | finish (agentId runId : String) (current : service.command agentId = some (.returned runId)) :
      Move service (.finish agentId) ((service.dispose runId).setCommand agentId none)
  | cancelStop (agentId runId : String)
      (current : service.command agentId = some (.cancelling runId)) :
      Move service (.cancelStop agentId)
        ((service.bump runId).setCommand agentId (some (.cancelStopping runId)))
  | streams (agentId runId : String) (act : AgentAct) (bytes : ℕ) (type : String) (command : Command)
      (current : service.command agentId = some command)
      (told : (act = .followUp agentId true bytes ∧ command = .followingUp runId) ∨
        (act = .steer agentId bytes ∧ command = .steering runId)) :
      Move service act (service.enqueueCustomEvent agentId (some runId) bytes type)
  | bumps (agentId runId : String) (bytes generation : ℕ)
      (current : service.command agentId = some (.followingUp runId))
      (found : service.generation runId = some generation) :
      Move service (.followUp agentId false bytes)
        ((service.bump runId).setCommand agentId (some (.marking runId (generation + 1))))
  | marks (agentId runId : String) (generation : ℕ)
      (current : service.command agentId = some (.marking runId generation))
      (marked : (service.tables.markRunRunning runId).2 = true) :
      Move service (.followUpMark agentId true)
        ((service.setTables (service.tables.markRunRunning runId).1).setCommand agentId
          (some (.marked runId generation)))
  | launches (agentId runId : String) (generation bytes : ℕ)
      (current : service.command agentId = some (.marked runId generation))
      (found : service.generation runId = some generation) :
      Move service (.followUpLaunch agentId bytes) ((service.setOperation runId generation
        (some ⟨.accepted, 0, .prompting⟩)).enqueueCustomEvent agentId (some runId) bytes
          "supervisor.follow_up_accepted")
  | stops (agentId : String) (late : Bool) (act : AgentAct)
      (free : (act = .deleteAgent agentId ∧ service.command agentId = none) ∨
        (act = .deleteNext agentId ∧ service.command agentId = some (.deleting [] false))) :
      Move service act (service.stopSessions agentId late)
  | deletionFinalizes (agentId runId : String) (targets : List (String × DeletionPhase)) (late : Bool)
      (current : service.command agentId = some (.deleting targets late))
      (target : (runId, .stopping) ∈ targets) :
      Move service (.deleteFinalize agentId runId) ((service.setCommand agentId (some (.deleting
        (targets.map fun target =>
          if target = (runId, .stopping) then (runId, .finalizing) else target)
          late))).tryFinalizeRun agentId runId .cancelled "supervisor.run_cancelled"
            (.deletion agentId runId))
  | deletionDisposes (agentId runId : String) (targets : List (String × DeletionPhase)) (late : Bool)
      (current : service.command agentId = some (.deleting targets late)) :
      Move service (.deleteDispose agentId runId) ((service.dispose runId).setCommand agentId
        (some (.deleting (targets.filter (· ≠ (runId, .returned))) late)))
  | deleted (agentId : String) (agents : List AgentRow)
      (current : service.command agentId = some (.deleting [] true)) :
      Move service (.deleteNext agentId)
        ((service.setTables { service.tables with agents := agents }).setCommand agentId none)
  | agentCreated (agentId : String) (bytes : ℕ) (agents : List AgentRow) (service' : AgentService)
      (reported : (service.setTables { service.tables with agents := agents }).enqueue agentId bytes
          (.custom none "supervisor.agent_created") = some service' ∨
        service' = service.setTables { service.tables with agents := agents }) :
      Move service (.createAgent agentId bytes) service'
  | restart (cutoff : Option String) : Move service (.restart cutoff) (service.restart cutoff)
  | recovered (agentId runId now : String) (written : Bool) (rest : List (String × String))
      (interrupted : service.recovering = some ((agentId, runId) :: rest)) :
      Move service (.recover written now) ({ service with recovering := some rest }.setTables
        (service.tables.finalizeRun agentId runId .failed "supervisor.run_failed" now).1)
  | unrecovered (agentId runId now : String) (written : Bool) (rest : List (String × String))
      (interrupted : service.recovering = some ((agentId, runId) :: rest)) :
      Move service (.recover written now)
        ({ service with recovering := some rest }.markDegraded runId)
  | resumed (runId : String) (run : AgentRunRow) (started : service.recovering = some [])
      (found : service.tables.getRunRow runId = some run) (completed : run.status = .completed)
      (detached : service.active runId = none) :
      Move service (.resume runId) ({ service with sessions := runId :: service.sessions }.setActive
        runId ⟨run.agentId, 1, true, false, []⟩)
  | opened (started : service.recovering = some []) :
      Move service .opened { service with recovering := none }
  | worktrees (worktrees : List WorktreeRow) :
      Move service (.worktreesWritten worktrees)
        (service.setTables { service.tables with worktrees := worktrees })

variable {service service' : AgentService} {act : AgentAct} {agentId runId now : String}

theorem runCommand_cases {allowed : ManagedAgentRunStatus → Bool} {command : Command}
    (h : service.runCommand runId allowed command = some service') :
    ∃ agentId, service.tables.runAgent runId = some agentId ∧ service.command agentId = none ∧
      service' = service.setCommand agentId (some command) := by
  unfold runCommand at h
  split at h
  · rename_i run hrun
    split at h
    · rename_i hguard
      exact ⟨run.agentId, by simp [Tables.runAgent, hrun], hguard.2.1, (Option.some.inj h).symm⟩
    · cases h
  · cases h

theorem move_operations
    (h : machine.step service act = some service')
    (hact : (∃ runId event, act = .emit runId event) ∨
      (∃ runId generation settlement, act = .settle runId generation settlement) ∨
      (∃ runId generation, act = .operationCheck runId generation) ∨
      (∃ runId generation, act = .operationDrained runId generation) ∨
      ∃ runId generation, act = .operationReturn runId generation) : Move service act service' := by
  rcases hact with ⟨runId, event, rfl⟩ | ⟨runId, generation, settlement, rfl⟩ |
    ⟨runId, generation, rfl⟩ | ⟨runId, generation, rfl⟩ | ⟨runId, generation, rfl⟩
  · obtain ⟨active, hactive, rfl⟩ := Option.map_eq_some_iff.mp h
    dsimp only
    by_cases haccept : active.acceptingEvents = true ∧ runId ∈ service.sessions
    · rw [if_pos haccept]
      cases hq : (service.setActive runId
          { active with emitted := active.emitted ++ [event] }).enqueue active.agentId
            event.encodedBytes (.session runId event) with
      | none => exact .emitRefused runId event active hactive haccept
      | some queued => exact .emitQueued runId event active queued hactive haccept hq
    · rw [if_neg haccept]
      exact .emitDropped runId event active hactive haccept
  · simp only [machine, step, settle] at h
    split at h
    · rename_i acceptance settledAfter active hop hactive
      obtain rfl := Option.some.inj h
      exact .settle runId generation settledAfter settlement acceptance active hop hactive
    · cases h
  · simp only [machine, step, operationCheck] at h
    split at h
    · rename_i settledAfter settlement active hop hactive
      split at h
      · rename_i hgen
        cases settlement with
        | resolved =>
          obtain rfl := Option.some.inj h
          exact .checkResolved runId generation settledAfter active hop hactive hgen
        | rejected =>
          obtain rfl := Option.some.inj h
          exact .checkRejected runId generation settledAfter _ .failed _ active hop hactive hgen
            (by decide)
        | extensionRequestCancelled =>
          obtain rfl := Option.some.inj h
          exact .checkRejected runId generation settledAfter _ .cancelled _ active hop hactive hgen
            (by decide)
      · rename_i hgen
        obtain rfl := Option.some.inj h
        exact .checkStale runId generation settledAfter settlement active hop hactive hgen
    · rename_i settledAfter settlement active hop hactive
      obtain rfl := Option.some.inj h
      exact .checkUnaccepted runId generation settledAfter settlement hop
    · cases h
  · simp only [machine, step, operationDrained] at h
    split at h
    · rename_i acceptance settledAfter tail active hop hactive
      split at h
      · rename_i htail
        obtain rfl := Option.some.inj h
        exact .drained runId generation settledAfter acceptance tail active hop hactive htail
      · rename_i htail
        obtain rfl := Option.some.inj h
        exact .drainFailed runId generation settledAfter acceptance tail active hop hactive htail
      · cases h
    · cases h
  · simp only [machine, step, operationReturn] at h
    split at h
    · rename_i acceptance settledAfter final won hop
      split at h
      · obtain rfl := Option.some.inj h
        exact .operationReturn runId generation settledAfter acceptance final won _ hop (.inl rfl)
      · obtain rfl := Option.some.inj h
        exact .operationReturn runId generation settledAfter acceptance final won _ hop (.inr rfl)
    · cases h

theorem move_of_step (h : machine.step service act = some service') : Move service act service' := by
  cases act with
  | emit runId event => exact move_operations h (.inl ⟨_, _, rfl⟩)
  | settle runId generation settlement => exact move_operations h (.inr (.inl ⟨_, _, _, rfl⟩))
  | operationCheck runId generation => exact move_operations h (.inr (.inr (.inl ⟨_, _, rfl⟩)))
  | operationDrained runId generation =>
    exact move_operations h (.inr (.inr (.inr (.inl ⟨_, _, rfl⟩))))
  | operationReturn runId generation =>
    exact move_operations h (.inr (.inr (.inr (.inr ⟨_, _, rfl⟩))))
  | handlerDrain runId =>
    simp only [machine, step, handlerDrain] at h
    split at h
    · rename_i cause active hhandler hactive
      obtain rfl := Option.some.inj h
      exact .handlerDrain runId cause active hhandler hactive
    · cases h
  | handlerFinalize runId =>
    simp only [machine, step, handlerFinalize] at h
    split at h
    · rename_i cause tail active hhandler hactive
      split at h
      · cases h
      · obtain rfl := Option.some.inj h
        exact .handlerFinalize runId cause tail active hhandler hactive
    · cases h
  | handlerReturn runId =>
    simp only [machine, step, handlerReturn] at h
    split at h
    · rename_i hhandler
      obtain rfl := Option.some.inj h
      exact .handlerReturn runId hhandler
    · cases h
  | runWork agentId written now =>
    simp only [machine, step, runWork] at h
    split at h
    · rename_i entry rest hqueue
      obtain rfl := Option.some.inj h
      exact .work agentId now written entry rest _ hqueue performs
    · cases h
  | createRunFind agentId request =>
    simp only [machine, step, createRunFind] at h
    split at h
    · rename_i hguard
      obtain rfl := Option.some.inj h
      exact .slot agentId _ _ _ hguard.2.1 (.admitRun request hguard.1)
    · cases h
  | createRunResolve agentId found =>
    simp only [machine, step, createRunResolve] at h
    split at h
    · rename_i request hcommand
      have decided : ∀ accepted : Bool, Move service (.createRunResolve agentId found)
          (service.setCommand agentId (if accepted then some (.resolved request) else none)) := by
        intro accepted
        cases accepted with
        | true => exact .slot agentId _ _ _ hcommand (.resolve request found)
        | false => exact .slot agentId _ _ _ hcommand (.unresolved request found)
      obtain rfl := Option.some.inj h
      exact decided _
    · cases h
  | createRunInsert agentId runId written =>
    simp only [machine, step, createRunInsert] at h
    split at h
    · rename_i request hcommand
      split at h
      · rename_i tables htables
        obtain rfl := Option.some.inj h
        cases written with
        | false => cases htables
        | true => exact .inserted agentId runId true request tables hcommand htables
      · obtain rfl := Option.some.inj h
        exact .slot agentId _ _ _ hcommand (.refused request runId written)
    · cases h
  | startSession agentId created =>
    simp only [machine, step, startSession] at h
    split at h
    · rename_i runId hcommand
      cases created with
      | true =>
        obtain rfl := Option.some.inj h
        exact .sessionCreated agentId runId hcommand
      | false =>
        obtain rfl := Option.some.inj h
        exact .finalizes agentId runId _ _ _ _ hcommand .startSession
    · cases h
  | identify agentId written =>
    simp only [machine, step, identify] at h
    split at h
    · rename_i runId hcommand
      split at h
      · obtain rfl := Option.some.inj h
        exact .slot agentId _ _ _ hcommand (.identify runId written)
      · obtain rfl := Option.some.inj h
        exact .compensates agentId runId _ _ hcommand (.inl ⟨written, rfl, rfl⟩)
    · cases h
  | startPrompt agentId =>
    simp only [machine, step, startPrompt] at h
    split at h
    · rename_i runId hcommand
      obtain ⟨generation, hgeneration, rfl⟩ := Option.map_eq_some_iff.mp h
      exact .prompted agentId runId generation hcommand hgeneration
    · cases h
  | preflight agentId accepted written =>
    simp only [machine, step, preflight] at h
    split at h
    · rename_i runId generation hcommand
      cases accepted with
      | true =>
        rw [if_pos rfl] at h
        split at h
        · rename_i hgeneration
          split at h
          · obtain rfl := Option.some.inj h
            exact .accepted agentId runId generation written hcommand hgeneration
          · obtain rfl := Option.some.inj h
            exact .unaccepted agentId runId generation written hcommand hgeneration
        · rename_i hgeneration
          obtain rfl := Option.some.inj h
          exact .overtaken agentId runId generation written hcommand hgeneration
      | false =>
        obtain rfl := Option.some.inj h
        exact .promptRejected agentId runId generation written hcommand
    · cases h
  | announce agentId bytes =>
    simp only [machine, step, announce] at h
    split at h
    · rename_i runId generation hcommand
      split at h
      · rename_i queued hqueued
        obtain rfl := Option.some.inj h
        exact .announces agentId runId generation bytes queued hcommand hqueued
      · obtain rfl := Option.some.inj h
        exact .unannounced agentId runId generation bytes hcommand
    · cases h
  | announced agentId =>
    simp only [machine, step, announced] at h
    split at h
    · rename_i runId work hcommand
      obtain ⟨stored, -, rfl⟩ := Option.map_eq_some_iff.mp h
      cases stored with
      | true => exact .slot agentId _ _ _ hcommand (.announced runId work)
      | false => exact .compensates agentId runId _ _ hcommand (.inr ⟨work, rfl, rfl⟩)
    · cases h
  | compensated agentId =>
    simp only [machine, step, compensated] at h
    split at h
    · rename_i runId hcommand
      obtain rfl := Option.some.inj h
      exact .finalizes agentId runId _ _ _ _ hcommand .compensated
    · cases h
  | finish agentId =>
    simp only [machine, step, finish] at h
    split at h
    · rename_i runId hcommand
      obtain rfl := Option.some.inj h
      exact .finish agentId runId hcommand
    · cases h
  | cancelRun runId =>
    obtain ⟨agentId, hagent, hfree, rfl⟩ := runCommand_cases h
    exact .slot agentId _ _ _ hfree (.cancel runId hagent)
  | cancelStop agentId =>
    simp only [machine, step, cancelStop] at h
    split at h
    · rename_i runId hcommand
      split at h
      · obtain rfl := Option.some.inj h
        exact .cancelStop agentId runId hcommand
      · obtain rfl := Option.some.inj h
        exact .finalizes agentId runId _ _ _ _ hcommand .cancelStop
    · cases h
  | cancelDrain agentId =>
    simp only [machine, step, cancelDrain] at h
    split at h
    · rename_i runId hcommand
      obtain rfl := Option.some.inj h
      exact .slot agentId _ _ _ hcommand (.cancelDrain runId)
    · cases h
  | cancelDrained agentId =>
    simp only [machine, step, cancelDrained] at h
    split at h
    · rename_i runId tail hcommand
      split at h
      · obtain rfl := Option.some.inj h
        exact .finalizes agentId runId _ _ _ _ hcommand (.cancelDrained tail)
      · rename_i hfailed
        split at h
        · obtain rfl := Option.some.inj h
          exact .slot agentId _ _ _ hcommand (.cancelFails runId tail hfailed)
        · cases h
      · cases h
    · cases h
  | followUpRun runId =>
    simp only [machine, step, followUpRun] at h
    split at h
    · obtain ⟨agentId, hagent, hfree, rfl⟩ := runCommand_cases h
      exact .slot agentId _ _ _ hfree (.followUp runId hagent)
    · cases h
  | followUp agentId isStreaming bytes =>
    simp only [machine, step, followUp] at h
    split at h
    · rename_i runId hcommand
      cases isStreaming with
      | true =>
        obtain rfl := Option.some.inj h
        exact .streams agentId runId _ bytes _ _ hcommand (.inl ⟨rfl, rfl⟩)
      | false =>
        obtain ⟨generation, hgeneration, rfl⟩ := Option.map_eq_some_iff.mp h
        exact .bumps agentId runId bytes generation hcommand hgeneration
    · cases h
  | followUpMark agentId written =>
    simp only [machine, step, followUpMark] at h
    split at h
    · rename_i runId generation hcommand
      split at h
      · rename_i hmarked
        obtain rfl := Option.some.inj h
        obtain ⟨rfl, hmarked⟩ := hmarked
        exact .marks agentId runId generation hcommand hmarked
      · obtain rfl := Option.some.inj h
        exact .slot agentId _ _ _ hcommand (.notMarked runId generation written)
    · cases h
  | followUpLaunch agentId bytes =>
    simp only [machine, step, followUpLaunch] at h
    split at h
    · rename_i runId generation hcommand
      split at h
      · rename_i hgeneration
        obtain rfl := Option.some.inj h
        exact .launches agentId runId generation bytes hcommand hgeneration
      · rename_i hgeneration
        obtain rfl := Option.some.inj h
        exact .slot agentId _ _ _ hcommand (.stale runId generation bytes hgeneration)
    · cases h
  | steerRun runId =>
    simp only [machine, step, steerRun] at h
    split at h
    · obtain ⟨agentId, hagent, hfree, rfl⟩ := runCommand_cases h
      exact .slot agentId _ _ _ hfree (.steer runId hagent)
    · cases h
  | steer agentId bytes =>
    simp only [machine, step, steer] at h
    split at h
    · rename_i runId hcommand
      obtain rfl := Option.some.inj h
      exact .streams agentId runId _ bytes _ _ hcommand (.inr ⟨rfl, rfl⟩)
    · cases h
  | reported agentId =>
    simp only [machine, step, reported] at h
    split at h
    · rename_i work hcommand
      obtain ⟨-, -, rfl⟩ := Option.map_eq_some_iff.mp h
      exact .slot agentId _ _ _ hcommand (.reported work)
    · cases h
  | abandon agentId =>
    simp only [machine, step, abandon] at h
    split at h
    · rename_i request hcommand
      obtain rfl := Option.some.inj h
      exact .slot agentId _ _ _ hcommand (.abandonAdmitting request)
    · rename_i request hcommand
      obtain rfl := Option.some.inj h
      exact .slot agentId _ _ _ hcommand (.abandonResolved request)
    · rename_i runId hcommand
      obtain rfl := Option.some.inj h
      exact .slot agentId _ _ _ hcommand (.abandonCancelling runId)
    · rename_i runId hcommand
      obtain rfl := Option.some.inj h
      exact .slot agentId _ _ _ hcommand (.abandonFollowingUp runId)
    · rename_i runId hcommand
      obtain rfl := Option.some.inj h
      exact .slot agentId _ _ _ hcommand (.abandonSteering runId)
    · cases h
  | deleteAgent agentId =>
    simp only [machine, step, deleteAgent] at h
    split at h
    · rename_i hguard
      obtain rfl := Option.some.inj h
      exact .stops agentId false _ (.inl ⟨rfl, hguard.2⟩)
    · cases h
  | deleteFinalize agentId runId =>
    simp only [machine, step, deleteFinalize] at h
    split at h
    · rename_i targets late hcommand
      split at h
      · rename_i htarget
        obtain rfl := Option.some.inj h
        exact .deletionFinalizes agentId runId targets late hcommand htarget
      · cases h
    · cases h
  | deleteDispose agentId runId =>
    simp only [machine, step, deleteDispose] at h
    split at h
    · rename_i targets late hcommand
      split at h
      · obtain rfl := Option.some.inj h
        exact .deletionDisposes agentId runId targets late hcommand
      · cases h
    · cases h
  | deleteNext agentId =>
    simp only [machine, step, deleteNext] at h
    split at h
    · rename_i hcommand
      obtain rfl := Option.some.inj h
      exact .stops agentId true _ (.inr ⟨rfl, hcommand⟩)
    · rename_i hcommand
      obtain rfl := Option.some.inj h
      exact .deleted agentId _ hcommand
    · cases h
  | createAgent agentId bytes =>
    simp only [machine, step, createAgent] at h
    split at h
    · obtain rfl := Option.some.inj h
      cases hq : (service.setTables { service.tables with
          agents := service.tables.agents ++ [⟨agentId, false⟩] }).enqueue agentId bytes
            (.custom none "supervisor.agent_created") with
      | none => exact .agentCreated agentId bytes _ _ (.inr rfl)
      | some queued => exact .agentCreated agentId bytes _ queued (.inl hq)
    · cases h
  | restart cutoff =>
    obtain rfl := Option.some.inj h
    exact .restart cutoff
  | recover written now =>
    simp only [machine, step, recover] at h
    split at h
    · rename_i agentId runId rest hrecovering
      split at h
      · obtain rfl := Option.some.inj h
        exact .recovered agentId runId now written rest hrecovering
      · obtain rfl := Option.some.inj h
        exact .unrecovered agentId runId now written rest hrecovering
    · cases h
  | resume runId =>
    simp only [machine, step, resume] at h
    split at h
    · rename_i run hrecovering hrun hactive
      split at h
      · rename_i hcompleted
        obtain rfl := Option.some.inj h
        exact .resumed runId run hrecovering hrun hcompleted hactive
      · cases h
    · cases h
  | opened =>
    simp only [machine, step, opened] at h
    split at h
    · rename_i hrecovering
      obtain rfl := Option.some.inj h
      exact .opened hrecovering
    · cases h
  | worktreesWritten worktrees =>
    obtain rfl := Option.some.inj h
    exact .worktrees worktrees

end AgentService
end PiDeck.Supervisor
