import Mathlib
import PiDeck.Collections.Keyed
import PiDeck.Tasks.Model
import PiDeck.Transition.Machine

/-! The stored status of a run. The handler that creates a run, the task that reads the output of
its Pi process and the handlers that cancel it write the status in calls of their own, in whatever
order they come, and none of these writes looks at the status it replaces. -/
namespace PiDeck.Agents
open PiDeck.Collections PiDeck.Transition
open PiDeck.Tasks (Value)

inductive RunStatus
  | queued
  | running
  | completed
  | failed
  | cancelled
  deriving DecidableEq, Repr

def RunStatus.isActive : RunStatus → Bool
  | .queued | .running => true
  | .completed | .failed | .cancelled => false

structure RunError where
  code : String
  message : String
  deriving DecidableEq, Repr

structure RunRow where
  id : String
  agentId : String
  status : RunStatus
  error : Option RunError
  completedAt : Option String
  deriving DecidableEq, Repr

/-- What the reader makes of a line of the process. -/
inductive PiLine
  | settled
  | promptRejected (message : String)
  | other
  deriving DecidableEq, Repr

def textOr (value : Option Value) (fallback : String) : String :=
  match value with
  | some (.string text) => text
  | _ => fallback

def classify (value : Value) : PiLine :=
  let kind := textOr (value.get "type") "pi.event"
  if kind = "response" then
    match value.get "success" with
    | some (.bool false) =>
      if textOr (value.get "command") "unknown" = "prompt" then
        .promptRejected (textOr (value.get "error") "Pi rejected the command")
      else .other
    | _ => .other
  else if kind = "agent_settled" then .settled
  else .other

/-- How far `create_run` is with a stored run. -/
inductive Launch
  | admitted
  | attached
  deriving DecidableEq, Repr

/-- How far a `cancel_run` is: it has found the run active, it holds the input of its process, it
has sent the abort. -/
inductive Cancel
  | checked
  | holding
  | aborted
  deriving DecidableEq, Repr

/-- How far the task that reads a process is: after the loop it detaches the run, waits for the
process, and if it finds the run running it fails it. -/
inductive Reader
  | reading
  | leaving
  | waiting
  | exiting
  deriving DecidableEq, Repr

/-- The table of runs, the attached runs, and the tasks that are under way. -/
structure Host where
  rows : List RunRow
  active : List String
  launch : String → Option Launch
  cancel : ℕ → Option (String × Cancel)
  reader : String → Option Reader

/-- `update_run_status`; its write may fail, and nobody looks. -/
def updateRunStatus (host : Host) (written : Bool) (id : String) (status : RunStatus)
    (error : Option RunError) (now : String) : Host :=
  if written then
    { host with
      rows := modifyRow RunRow.id id (fun row => { row with status, error, completedAt := some now })
        host.rows }
  else host

def completeRun (host : Host) (written : Bool) (id now : String) : Host :=
  updateRunStatus host written id .completed none now

def failRun (host : Host) (written : Bool) (id code message now : String) : Host :=
  updateRunStatus host written id .failed (some ⟨code, message⟩) now

def reconcileRun (now : String) (row : RunRow) : RunRow :=
  if row.status.isActive then
    { row with
      status := .failed
      error := some ⟨"host_restarted", "The unified host restarted"⟩
      completedAt := some now }
  else row

def reconcileRuns (rows : List RunRow) (now : String) : List RunRow := rows.map (reconcileRun now)

/-- The next call of one of the tasks. `written` says whether a write succeeds. -/
inductive RunStep
  | createRun (id agentId : String)
  | launchReturns (id : String)
  | launchFails (id message now : String) (written : Bool)
  | attach (id : String)
  | promptSent (id : String)
  | promptFails (id now : String) (written : Bool)
  | cancelFind (handler : ℕ) (id : String)
  | cancelLookup (handler : ℕ)
  | cancelAbort (handler : ℕ) (sent : Bool)
  | cancelWrite (handler : ℕ) (now : String) (written : Bool)
  | line (id : String) (value : Value) (now : String) (written : Bool)
  | endOfOutput (id : String)
  | detach (id : String)
  | checkExit (id : String) (found : Bool)
  | exitWrite (id now : String) (written : Bool)
  | restart (now : String)

namespace Host

/-- The host after a start: runs that an earlier host left active have failed. -/
def start (rows : List RunRow) (now : String) : Host :=
  ⟨reconcileRuns rows now, [], fun _ => none, fun _ => none, fun _ => none⟩

def status (host : Host) (id : String) : Option RunStatus :=
  (findRow RunRow.id host.rows id).map (·.status)

@[simps]
def setLaunch (host : Host) (id : String) (launch : Option Launch) : Host :=
  { host with launch := Function.update host.launch id launch }

@[simps]
def setCancel (host : Host) (handler : ℕ) (cancel : Option (String × Cancel)) : Host :=
  { host with cancel := Function.update host.cancel handler cancel }

@[simps]
def setReader (host : Host) (id : String) (reader : Option Reader) : Host :=
  { host with reader := Function.update host.reader id reader }

@[simps]
def pushRow (host : Host) (row : RunRow) : Host := { host with rows := host.rows ++ [row] }

@[simps]
def activate (host : Host) (id : String) : Host := { host with active := id :: host.active }

@[simps]
def deactivate (host : Host) (id : String) : Host :=
  { host with active := host.active.filter (· ≠ id) }

/-- The unique index on the agents of active runs. -/
def agentBusy (host : Host) (agentId : String) : Bool :=
  host.rows.any fun row => decide (row.agentId = agentId) && row.status.isActive

def step (host : Host) : RunStep → Option Host
  | .createRun id agentId =>
    if host.status id = none ∧ host.agentBusy agentId = false then
      some ((host.pushRow ⟨id, agentId, .running, none, none⟩).setLaunch id (some .admitted))
    else none
  -- The admission event could not be stored, or the request was dropped: the run stays without
  -- a process.
  | .launchReturns id => if host.launch id ≠ none then some (host.setLaunch id none) else none
  | .launchFails id message now written =>
    if host.launch id = some .admitted then
      some ((failRun host written id "agent_start_failed" message now).setLaunch id none)
    else none
  | .attach id =>
    if host.launch id = some .admitted then
      some ((host.activate id).setLaunch id (some .attached))
    else none
  | .promptSent id =>
    if host.launch id = some .attached then
      some ((host.setLaunch id none).setReader id (some .reading))
    else none
  | .promptFails id now written =>
    if host.launch id = some .attached then
      some ((failRun host written id "agent_start_failed" "Could not send prompt to Pi"
        now).setLaunch id none)
    else none
  | .cancelFind handler id =>
    if host.cancel handler = none ∧ (host.status id).any RunStatus.isActive = true then
      some (host.setCancel handler (some (id, .checked)))
    else none
  | .cancelLookup handler =>
    match host.cancel handler with
    | some (id, .checked) =>
      some (host.setCancel handler (if id ∈ host.active then some (id, .holding) else none))
    | _ => none
  | .cancelAbort handler sent =>
    match host.cancel handler with
    | some (id, .holding) =>
      some (host.setCancel handler (if sent then some (id, .aborted) else none))
    | _ => none
  | .cancelWrite handler now written =>
    match host.cancel handler with
    | some (id, .aborted) =>
      some ((updateRunStatus host written id .cancelled none now).setCancel handler none)
    | _ => none
  | .line id value now written =>
    if host.reader id = some .reading then
      match classify value with
      | .settled => some (completeRun host written id now)
      | .promptRejected message =>
        some ((failRun host written id "agent_start_failed" message now).setReader id
          (some .leaving))
      | .other => some host
    else none
  | .endOfOutput id =>
    if host.reader id = some .reading then some (host.setReader id (some .leaving)) else none
  | .detach id =>
    if host.reader id = some .leaving then
      some ((host.deactivate id).setReader id (some .waiting))
    else none
  | .checkExit id found =>
    if host.reader id = some .waiting then
      some (host.setReader id
        (if found = true ∧ host.status id = some .running then some .exiting else none))
    else none
  | .exitWrite id now written =>
    if host.reader id = some .exiting then
      some ((failRun host written id "agent_process_exited" "Pi process exited before settling"
        now).setReader id none)
    else none
  | .restart now => some (start host.rows now)

def machine : Machine Host RunStep := ⟨step⟩

section Reads
variable {host : Host} {id k : String} {handler : ℕ}

@[simp] theorem status_setLaunch {launch} : (host.setLaunch id launch).status k = host.status k :=
  rfl

@[simp] theorem status_setCancel {cancel} :
    (host.setCancel handler cancel).status k = host.status k := rfl

@[simp] theorem status_setReader {reader} : (host.setReader id reader).status k = host.status k :=
  rfl

@[simp] theorem status_activate : (host.activate id).status k = host.status k := rfl

@[simp] theorem status_deactivate : (host.deactivate id).status k = host.status k := rfl

theorem status_pushRow (row : RunRow) (fresh : host.status row.id = none) :
    (host.pushRow row).status k = if k = row.id then some row.status else host.status k := by
  have hfree : findRow RunRow.id host.rows row.id = none := Option.map_eq_none_iff.mp fresh
  unfold status pushRow
  rw [findRow_push hfree]
  split <;> rfl

theorem status_updateRunStatus {written : Bool} {new : RunStatus} {error : Option RunError}
    {now : String} : (updateRunStatus host written id new error now).status k =
      if written = true ∧ k = id then (host.status id).map fun _ => new else host.status k := by
  cases written with
  | false => simp [updateRunStatus]
  | true =>
    simp only [updateRunStatus, if_true, status, true_and]
    rw [findRow_modifyRow (by intro _ h; exact h)]
    split <;> simp [Function.comp_def]

theorem status_start {rows : List RunRow} {now : String} :
    (start rows now).status k = (findRow RunRow.id rows k).map fun row =>
      if row.status.isActive then .failed else row.status := by
  have hid : ∀ row, (reconcileRun now row).id = row.id := by
    intro row
    unfold reconcileRun
    split <;> rfl
  simp only [status, start, reconcileRuns, findRow_map hid, Option.map_map]
  congr 1
  funext row
  simp only [Function.comp_apply, reconcileRun]
  split <;> rfl

end Reads

end Host
end PiDeck.Agents
