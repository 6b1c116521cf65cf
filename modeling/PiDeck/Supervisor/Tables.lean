import Mathlib
import PiDeck.Collections.Statements

/-! The tables that the supervisor's services share, and the statements and transactions that read
and write them. Each of these is atomic; what a service does between two of them is not. -/
namespace PiDeck.Supervisor
open PiDeck.Collections

inductive ManagedAgentRunStatus
  | queued
  | running
  | completed
  | failed
  | cancelled
  deriving DecidableEq, Repr

def ManagedAgentRunStatus.isActive : ManagedAgentRunStatus → Bool
  | .queued | .running => true
  | .completed | .failed | .cancelled => false

/-- The statuses that `finalizeRun` may write. -/
inductive FinalStatus
  | completed
  | failed
  | cancelled
  deriving DecidableEq, Repr

def FinalStatus.status : FinalStatus → ManagedAgentRunStatus
  | .completed => .completed
  | .failed => .failed
  | .cancelled => .cancelled

@[simp] theorem FinalStatus.isActive_status (final : FinalStatus) : final.status.isActive = false := by
  cases final <;> rfl

inductive WorktreeStatus
  | creating
  | ready
  | busy
  | releasing
  | deleted
  | failed
  deriving DecidableEq, Repr

structure AgentRunRow where
  id : String
  agentId : String
  worktreeId : Option String
  status : ManagedAgentRunStatus
  deriving DecidableEq, Repr

structure WorktreeRow where
  id : String
  path : String
  status : WorktreeStatus
  deriving DecidableEq, Repr

/-- What a session emits, after `normalizeSessionEvent`. -/
structure SessionEvent where
  type : String
  payload : String
  truncated : Option String
  encodedBytes : ℕ
  deriving DecidableEq, Repr

/-- The content of a stored event, told apart by who writes it: the session of the run, a command,
or the transaction that ends the run. -/
inductive StoredEvent
  | session (event : SessionEvent)
  | custom (type : String)
  | terminal (type : String)
  deriving DecidableEq, Repr

/-- The column `event_type`. -/
def StoredEvent.type : StoredEvent → String
  | .session event => if event.truncated.isSome then "supervisor.event_truncated" else event.type
  | .custom type | .terminal type => type

structure AgentEventRow where
  agentId : String
  runId : Option String
  sequence : ℕ
  event : StoredEvent
  createdAt : String
  deriving DecidableEq, Repr

structure AgentRow where
  id : String
  deleted : Bool
  deriving DecidableEq, Repr

structure Tables where
  agents : List AgentRow
  runs : List AgentRunRow
  worktrees : List WorktreeRow
  events : List AgentEventRow
  deriving DecidableEq, Repr

def AgentRunRow.uses (worktree : String) (run : AgentRunRow) : Bool :=
  run.status.isActive && run.worktreeId = some worktree

namespace Tables

def getRunRow (tables : Tables) (runId : String) : Option AgentRunRow :=
  findRow AgentRunRow.id tables.runs runId

def getWorktree (tables : Tables) (id : String) : Option WorktreeRow :=
  findRow WorktreeRow.id tables.worktrees id

def worktreeStatus (tables : Tables) (id : String) : Option WorktreeStatus :=
  (tables.getWorktree id).map WorktreeRow.status

/-- How many queued or running runs refer to a worktree. -/
def users (tables : Tables) (worktree : String) : ℕ := tables.runs.countP (AgentRunRow.uses worktree)

/-- What the partial unique index on the active runs of an agent looks at. -/
def agentBusy (tables : Tables) (agentId : String) : Bool :=
  tables.runs.any (fun run => run.agentId = agentId && run.status.isActive)

def updateRuns (tables : Tables) (p : AgentRunRow → Bool) (status : ManagedAgentRunStatus) : Tables :=
  { tables with runs := updateWhere p (fun run => { run with status := status }) tables.runs }

/-- `update supervisor_worktrees set status = … where id = … and …`. -/
def setWorktree (tables : Tables) (id : String) (among : WorktreeStatus → Bool)
    (status : WorktreeStatus) : Tables :=
  { tables with
    worktrees := updateWhere (fun row => row.id = id && among row.status)
      (fun row => { row with status := status }) tables.worktrees }

/-- A row that the primary key or the partial unique index refuses fails the statement. -/
def insertRun (tables : Tables) (run : AgentRunRow) : Option Tables :=
  if tables.getRunRow run.id = none ∧ tables.agentBusy run.agentId = false then
    some { tables with runs := tables.runs ++ [run] }
  else none

/-- The transaction of `createRunAdmitted`: nothing of it stays when one of its statements
fails. -/
def admitRun (tables : Tables) (run : AgentRunRow) : Option Tables :=
  match run.worktreeId with
  | some worktree =>
    let claims := fun row : WorktreeRow => row.id = worktree && row.status = .ready
    if tables.worktrees.countP claims = 1 then
      (tables.setWorktree worktree (· = .ready) .busy).insertRun run
    else none
  | none => tables.insertRun run

/-- `update supervisor_agent_runs set status = … where id = … and status = …`. -/
def changeStatus (tables : Tables) (runId : String) (old new : ManagedAgentRunStatus) : Tables :=
  tables.updateRuns (fun run => run.id = runId && run.status = old) new

/-- `startRun`, once the prompt is accepted. The flag says whether a row was updated. -/
def setRunning (tables : Tables) (runId : String) : Tables × Bool :=
  (tables.changeStatus runId .queued .running,
    tables.runs.countP (fun run => run.id = runId && run.status = .queued) ≠ 0)

/-- The run that `markRunRunning` makes active again: the partial unique index fails the statement
while another run of its agent is active. -/
def reactivates (tables : Tables) (runId : String) : Option AgentRunRow :=
  (tables.runs.find? (fun run => run.id = runId && run.status = .completed)).filter
    (fun run => !tables.agentBusy run.agentId)

def markRunRunning (tables : Tables) (runId : String) : Tables × Bool :=
  match tables.reactivates runId with
  | some _ => (tables.changeStatus runId .completed .running, true)
  | none => (tables, false)

/-- The highest stored sequence of an agent. -/
def lastSequence (tables : Tables) (agentId : String) : ℕ :=
  ((tables.events.filter (fun row => row.agentId = agentId)).map AgentEventRow.sequence).foldr max 0

def insertEvent (tables : Tables) (agentId : String) (runId : Option String) (event : StoredEvent)
    (createdAt : String) : Tables :=
  { tables with
    events := tables.events ++ [⟨agentId, runId, tables.lastSequence agentId + 1, event, createdAt⟩] }

/-- The transaction of `persistEvent`, which needs the rows that the event refers to. -/
def persistEvent (tables : Tables) (agentId : String) (runId : Option String) (event : StoredEvent)
    (createdAt : String) : Option Tables :=
  if tables.agents.any (fun row => row.id = agentId) ∧ runId.all (fun runId =>
      tables.runs.any (fun run => run.id = runId && run.agentId = agentId)) then
    some (tables.insertEvent agentId runId event createdAt)
  else none

/-- `compactEventsIfConfigured`, with what is left of the events after it. -/
def compactEvents (tables : Tables) (cutoff : String) : Tables :=
  { tables with events := tables.events.filter (fun row => ¬row.createdAt < cutoff) }

def freeWorktree (tables : Tables) : Option String → Tables
  | some worktree => tables.setWorktree worktree (· = .busy) .ready
  | none => tables

/-- The transaction of `finalizeRun`: the status, the worktree and the terminal event. -/
def finalizeRun (tables : Tables) (agentId runId : String) (final : FinalStatus)
    (eventType createdAt : String) : Tables × Bool :=
  let run := tables.runs.find? (fun run => run.id = runId && run.agentId = agentId)
  let unfinished := fun run : AgentRunRow =>
    run.id = runId && run.agentId = agentId && run.status.isActive
  if tables.runs.countP unfinished = 0 then (tables, false)
  else
    let freed := (tables.updateRuns unfinished final.status).freeWorktree (run.bind AgentRunRow.worktreeId)
    (freed.insertEvent agentId (some runId) (.terminal eventType) createdAt, true)

/-- A worktree is inserted with an identifier and a path that no row has. -/
def insertWorktree (tables : Tables) (id path : String) : Option Tables :=
  if tables.getWorktree id = none ∧ ∀ row ∈ tables.worktrees, row.path ≠ path then
    some { tables with worktrees := tables.worktrees ++ [⟨id, path, .creating⟩] }
  else none

variable {tables tables' : Tables} {id w agentId runId : String}

@[simp] theorem runs_setWorktree {among : WorktreeStatus → Bool} {status : WorktreeStatus} :
    (tables.setWorktree id among status).runs = tables.runs := rfl

@[simp] theorem agents_setWorktree {among : WorktreeStatus → Bool} {status : WorktreeStatus} :
    (tables.setWorktree id among status).agents = tables.agents := rfl

@[simp] theorem worktrees_updateRuns {p : AgentRunRow → Bool} {status : ManagedAgentRunStatus} :
    (tables.updateRuns p status).worktrees = tables.worktrees := rfl

@[simp] theorem worktreeStatus_updateRuns {p : AgentRunRow → Bool}
    {status : ManagedAgentRunStatus} :
    (tables.updateRuns p status).worktreeStatus w = tables.worktreeStatus w := rfl

theorem getWorktree_setWorktree {among : WorktreeStatus → Bool} {status : WorktreeStatus} :
    (tables.setWorktree id among status).getWorktree w = (tables.getWorktree w).map (fun row =>
      if (decide (row.id = id) && among row.status) = true then { row with status := status }
      else row) := by
  unfold getWorktree setWorktree
  dsimp only
  apply findRow_updateWhere
  exact fun _ _ => rfl

theorem worktreeStatus_setWorktree {among : WorktreeStatus → Bool} {status : WorktreeStatus} :
    (tables.setWorktree id among status).worktreeStatus w =
      (tables.worktreeStatus w).map (fun old => if w = id ∧ among old = true then status else old) := by
  unfold worktreeStatus
  rw [getWorktree_setWorktree]
  cases hrow : tables.getWorktree w with
  | none => rfl
  | some row =>
    have hid : row.id = w := findRow_key hrow
    by_cases hw : w = id
    · by_cases hs : among row.status = true
      · simp [hid, hw, hs]
      · simp [hid, hw, hs]
    · simp [hid, hw]

/-- The update changes no other worktree, and one whose status it does not look for neither. -/
theorem worktreeStatus_setWorktree_ne {among : WorktreeStatus → Bool} {status : WorktreeStatus}
    (h : w = id → ∀ old, tables.worktreeStatus w = some old → among old = false) :
    (tables.setWorktree id among status).worktreeStatus w = tables.worktreeStatus w := by
  rw [worktreeStatus_setWorktree]
  cases hs : tables.worktreeStatus w with
  | none => rfl
  | some old =>
    by_cases hw : w = id
    · simp [hw, h hw old hs]
    · simp [hw]

end Tables
end PiDeck.Supervisor
