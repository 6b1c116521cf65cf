import Mathlib
import PiDeck.Supervisor.RunLifecycle

/-! The service that creates and releases worktrees, beside the one that runs agents in them. They
share the tables and nothing else: a release reads, checks, marks and removes in statements of its
own. -/
namespace PiDeck.Supervisor
open PiDeck.Collections PiDeck.Transition

/-- How far a call is. Creation: the row is inserted, the directory is there, or git has failed.
Release: the row has been read as releasable, no active run was found, the directory was looked at,
the row is marked, the directory is removed, or git has failed. -/
inductive WorkspaceCall
  | inserted (id path : String)
  | added (id : String)
  | notAdded (id : String)
  | read (row : WorktreeRow) (force : Bool)
  | idle (row : WorktreeRow) (force : Bool)
  | probed (row : WorktreeRow)
  | marked (row : WorktreeRow)
  | removed (row : WorktreeRow)
  | notRemoved (row : WorktreeRow)
  deriving DecidableEq, Repr

structure Services where
  service : AgentService
  directories : List String
  call : ℕ → Option WorkspaceCall

inductive SupervisorAct
  | agent (act : AgentAct)
  | createWorktree (call : ℕ) (id path : String)
  | addWorktree (call : ℕ) (added : Bool)
  | createdWorktree (call : ℕ) (written : Bool)
  | releaseWorktree (call : ℕ) (id : String) (force : Bool)
  | findActiveRun (call : ℕ)
  | probeWorktree (call : ℕ) (dirty : Bool)
  | markReleasing (call : ℕ) (written : Bool)
  | removeWorktree (call : ℕ) (removed : Bool)
  | releasedWorktree (call : ℕ) (written : Bool)
  | raise (call : ℕ)
  deriving Repr

namespace Services

def setCall (services : Services) (call : ℕ) (phase : Option WorkspaceCall) : Services :=
  { services with call := Function.update services.call call phase }

def tables (services : Services) : Tables := services.service.tables

def setTables (services : Services) (tables : Tables) : Services :=
  { services with service := services.service.setTables tables }

/-- An unconditional `update supervisor_worktrees set status = … where id = …`. -/
def writeStatus (services : Services) (id : String) (status : WorktreeStatus) : Services :=
  services.setTables (services.tables.setWorktree id (fun _ => true) status)

def step (services : Services) : SupervisorAct → Option Services
  -- Only the calls below write the worktrees from outside.
  | .agent (.worktreesWritten _) => none
  -- A restart of the process ends the calls as well.
  | .agent (.restart cutoff) =>
    some { services with
      service := services.service.restart cutoff
      call := fun _ => none }
  | .agent act =>
    (AgentService.machine.step services.service act).map fun service =>
      { services with service := service }
  | .createWorktree call id path =>
    if services.call call = none then
      (services.tables.insertWorktree id path).map fun tables =>
        (services.setTables tables).setCall call (some (.inserted id path))
    else none
  | .addWorktree call added =>
    match services.call call with
    | some (.inserted id path) =>
      if added then
        some ({ services with directories := path :: services.directories }.setCall call
          (some (.added id)))
      else some (services.setCall call (some (.notAdded id)))
    | _ => none
  | .createdWorktree call written =>
    match services.call call with
    | some (.added id) =>
      if written then some ((services.writeStatus id .ready).setCall call none)
      else some (services.setCall call (some (.notAdded id)))
    | some (.notAdded id) =>
      if written then some ((services.writeStatus id .failed).setCall call none)
      else some (services.setCall call none)
    | _ => none
  | .releaseWorktree call id force =>
    match services.call call, services.tables.getWorktree id with
    | none, some row =>
      if row.status = .ready ∨ row.status = .failed then
        some (services.setCall call (some (.read row force)))
      else none
    | _, _ => none
  | .findActiveRun call =>
    match services.call call with
    | some (.read row force) =>
      if services.tables.runs.any (AgentRunRow.uses row.id) then some (services.setCall call none)
      else some (services.setCall call (some (.idle row force)))
    | _ => none
  | .probeWorktree call dirty =>
    match services.call call with
    | some (.idle row force) =>
      if dirty && !force then some (services.setCall call none)
      else some (services.setCall call (some (.probed row)))
    | _ => none
  | .markReleasing call written =>
    match services.call call with
    | some (.probed row) =>
      if written then
        some ((services.writeStatus row.id .releasing).setCall call (some (.marked row)))
      else some (services.setCall call none)
    | _ => none
  | .removeWorktree call removed =>
    match services.call call with
    | some (.marked row) =>
      if removed then
        some ({ services with directories := services.directories.filter (· ≠ row.path) }.setCall
          call (some (.removed row)))
      else some (services.setCall call (some (.notRemoved row)))
    | _ => none
  | .releasedWorktree call written =>
    match services.call call with
    | some (.removed row) =>
      if written then some ((services.writeStatus row.id .deleted).setCall call none)
      else some (services.setCall call (some (.notRemoved row)))
    | some (.notRemoved row) =>
      if written then some ((services.writeStatus row.id .failed).setCall call none)
      else some (services.setCall call none)
    | _ => none
  | .raise call =>
    match services.call call with
    | some (.read _ _) | some (.idle _ _) | some (.probed _) => some (services.setCall call none)
    | _ => none

def machine : Machine Services SupervisorAct := ⟨step⟩

def start (limits : QueueLimits) : Services := ⟨AgentService.fresh limits, [], fun _ => none⟩

end Services
end PiDeck.Supervisor
