import Mathlib
import PiDeck.Supervisor.Moves

/-! What one step of the service can do to the tables: at most one statement, and which. -/
namespace PiDeck.Supervisor
open PiDeck.Transition

/-- The statement that a step with label `act` makes. -/
inductive Write (act : AgentAct) (tables : Tables) : Tables → Prop
  | none : Write act tables tables
  | agents (agents : List AgentRow) : Write act tables { tables with agents := agents }
  | worktrees (worktrees : List WorktreeRow) (hact : act = .worktreesWritten worktrees) :
      Write act tables { tables with worktrees := worktrees }
  | admitRun {tables' : Tables} (run : AgentRunRow) (queued : run.status = .queued)
      (admitted : tables.admitRun run = some tables') : Write act tables tables'
  | setRunning (runId : String) : Write act tables (tables.setRunning runId).1
  | markRunRunning (agentId runId : String) (hact : act = .followUpMark agentId true) :
      Write act tables (tables.markRunRunning runId).1
  | session {tables' : Tables} (agentId runId : String) (event : SessionEvent) (now : String)
      (persisted : tables.persistEvent agentId (some runId) (.session event) now = some tables') :
      Write act tables tables'
  | custom {tables' : Tables} (agentId : String) (runId : Option String) (type now : String)
      (persisted : tables.persistEvent agentId runId (.custom type) now = some tables') :
      Write act tables tables'
  | finalize (agentId runId : String) (final : FinalStatus) (eventType now : String) :
      Write act tables (tables.finalizeRun agentId runId final eventType now).1
  | compact (cutoff : String) (hact : act = .restart (some cutoff)) :
      Write act tables (tables.compactEvents cutoff)

namespace AgentService
variable {service service' : AgentService} {act : AgentAct} {agentId runId now : String}

@[simp] theorem tables_setCommand {command : Option Command} :
    (service.setCommand agentId command).tables = service.tables := rfl

@[simp] theorem tables_setOperation {generation : ℕ} {operation : Option Operation} :
    (service.setOperation runId generation operation).tables = service.tables := rfl

@[simp] theorem tables_setHandler {handler : Option FailureHandler} :
    (service.setHandler runId handler).tables = service.tables := rfl

@[simp] theorem tables_setActive {active : ActiveRun} :
    (service.setActive runId active).tables = service.tables := rfl

@[simp] theorem tables_setTables {tables : Tables} : (service.setTables tables).tables = tables := rfl

@[simp] theorem tables_markDegraded : (service.markDegraded runId).tables = service.tables := rfl

@[simp] theorem tables_dispose : (service.dispose runId).tables = service.tables := rfl

@[simp] theorem tables_settleWork {id : ℕ} {succeeded : Bool} :
    (service.settleWork id succeeded).tables = service.tables := rfl

@[simp] theorem tables_bump : (service.bump runId).tables = service.tables := by
  unfold bump
  split <;> rfl

theorem tables_enqueue {bytes : ℕ} {work : Work}
    (h : service.enqueue agentId bytes work = some service') : service'.tables = service.tables := by
  unfold enqueue at h
  dsimp only at h
  split at h
  · obtain rfl := Option.some.inj h
    rfl
  · cases h

@[simp] theorem tables_handleEventFailure {cause : FailureCause} :
    (service.handleEventFailure runId cause).tables = service.tables := by
  unfold handleEventFailure
  split
  · split <;> rfl
  · rfl

@[simp] theorem tables_enqueueCustomEvent {runId : Option String} {bytes : ℕ} {type : String} :
    (service.enqueueCustomEvent agentId runId bytes type).tables = service.tables := by
  unfold enqueueCustomEvent
  split
  · rename_i queued hqueued
    rw [tables_setCommand]
    exact tables_enqueue hqueued
  · rfl

@[simp] theorem tables_answer {won : Bool} {caller : Caller} :
    (service.answer runId won caller).tables = service.tables := by
  cases caller with
  | command agentId =>
    unfold answer
    dsimp only
    split <;> rfl
  | handler runId =>
    unfold answer
    dsimp only
    split <;> rfl
  | operation runId generation =>
    unfold answer
    dsimp only
    split <;> rfl
  | deletion agentId runId =>
    unfold answer
    dsimp only
    split <;> rfl

@[simp] theorem tables_tryFinalizeRun {final : FinalStatus} {eventType : String} {caller : Caller} :
    (service.tryFinalizeRun agentId runId final eventType caller).tables = service.tables := by
  unfold tryFinalizeRun
  split
  · rename_i queued hqueued
    exact tables_enqueue hqueued
  · simp

@[simp] theorem tables_commandFinalizes {final : FinalStatus} {eventType : String} :
    (service.commandFinalizes agentId runId final eventType).tables = service.tables := by
  simp [commandFinalizes]

@[simp] theorem tables_compensateAdmissionFailure :
    (service.compensateAdmissionFailure agentId runId).tables = service.tables := by
  unfold compensateAdmissionFailure
  split <;> rfl

@[simp] theorem tables_resolveAcceptance {generation : ℕ} {acceptance : RunAcceptance} :
    (service.resolveAcceptance runId generation acceptance).tables = service.tables := by
  unfold resolveAcceptance
  split <;> rfl

@[simp] theorem tables_stopSessions {late : Bool} :
    (service.stopSessions agentId late).tables = service.tables := rfl

theorem writes_performs {written : Bool} {id : ℕ} {work : Work}
    (h : Performs service agentId written now id work service') :
    Write act service.tables service'.tables := by
  cases h with
  | stored target event _ tables kind persisted =>
    rcases kind with ⟨run, e, rfl, rfl, -⟩ | ⟨type, rfl, -⟩
    · exact .session agentId run e now persisted
    · exact .custom agentId target type now persisted
  | sessionFails runId event => simpa using Write.none
  | customFails target type => exact .none
  | finalized runId final eventType caller =>
    simpa using Write.finalize agentId runId final eventType now
  | finalizeFails runId final eventType caller => simpa using Write.none

/-- A step that leaves the tables alone. -/
theorem Write.of_eq {tables tables' : Tables} (h : tables' = tables) : Write act tables tables' := by
  subst h
  exact .none

theorem writes_move (h : Move service act service') : Write act service.tables service'.tables := by
  cases h with
  | work agentId now written entry rest service' head performed =>
    have hwrite : Write (.runWork agentId written now) { service with
        queue := Function.update service.queue agentId rest }.tables service'.tables :=
      writes_performs performed
    exact hwrite
  | inserted agentId runId written request tables current admitted =>
    exact .admitRun _ rfl admitted
  | accepted agentId runId generation written current found => exact .setRunning runId
  | marks agentId runId generation current marked => exact .markRunRunning agentId runId rfl
  | deleted agentId agents current => exact .agents agents
  | agentCreated agentId bytes agents service' reported =>
    rcases reported with hq | rfl
    · rw [tables_enqueue hq]
      exact .agents agents
    · exact .agents agents
  | restart cutoff =>
    cases cutoff with
    | none => exact .none
    | some cutoff => exact .compact cutoff rfl
  | recovered agentId runId now written rest interrupted =>
    exact .finalize agentId runId .failed _ now
  | worktrees worktrees => exact .worktrees worktrees rfl
  | emitQueued runId event active queued found accepting room =>
    apply Write.of_eq
    rw [tables_enqueue room, tables_setActive]
  | announces agentId runId generation bytes queued current room =>
    apply Write.of_eq
    rw [tables_setCommand, tables_enqueue room, tables_resolveAcceptance]
  | operationReturn runId generation settledAfter acceptance final won service' returned ended =>
    apply Write.of_eq
    rcases ended with rfl | rfl <;> rfl
  | _ =>
    apply Write.of_eq
    simp

theorem writes_step (h : machine.step service act = some service') :
    Write act service.tables service'.tables := writes_move (move_of_step h)

end AgentService
end PiDeck.Supervisor
