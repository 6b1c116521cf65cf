import Mathlib
import PiDeck.Collections.Keyed
import PiDeck.Transition.Machine

/-! The scheduler in front of a terminal worker. Each terminal has a lane, a pump serves the lanes
in turn by weighted deficits, and at most one command of a lane is with the worker. The pump runs
in a microtask of its own, so whether one is due is part of the state. Dispatching a command is
handing it to the worker, which always takes it. -/
namespace PiDeck.Worker
open PiDeck.Collections PiDeck.Transition

structure WorkerPriority where
  visible : Bool
  focused : Bool
  deriving DecidableEq, Repr

def weight (priority : WorkerPriority) : ℕ :=
  if priority.visible && priority.focused then 8
  else if priority.visible then 4
  else 1

structure Pending (κ α : Type*) where
  value : α
  bytes : ℕ
  key : κ
  deriving DecidableEq

structure Lane (κ α : Type*) where
  queue : List (Pending κ α)
  priority : WorkerPriority
  deficit : ℕ
  inFlightKey : Option κ
  deriving DecidableEq

def maxBytes : ℕ := 32 * 1024 * 1024
def maxCommands : ℕ := 8192
def maxInFlight : ℕ := 8
def quantumBytes : ℕ := 64 * 1024

/-- `lanes` and `order` are the map and the array of the source, `cursor` the lane to serve next. -/
structure FairWorkerScheduler (κ α : Type*) where
  lanes : List (String × Lane κ α)
  order : List String
  cursor : ℕ
  bytes : ℤ
  commands : ℤ
  inFlight : ℤ
  scheduled : Bool
  deriving DecidableEq

variable {κ α : Type*}

namespace Lane

def bytes (lane : Lane κ α) : ℕ := (lane.queue.map Pending.bytes).sum

def flying (lane : Lane κ α) : ℕ := if lane.inFlightKey.isSome then 1 else 0

def dispatchable (lane : Lane κ α) : Bool := lane.inFlightKey.isNone && !lane.queue.isEmpty

end Lane

namespace FairWorkerScheduler

def empty : FairWorkerScheduler κ α := ⟨[], [], 0, 0, 0, 0, false⟩

def lane (s : FairWorkerScheduler κ α) (terminalId : String) : Option (Lane κ α) :=
  (findRow Prod.fst s.lanes terminalId).map Prod.snd

def addLane (s : FairWorkerScheduler κ α) (terminalId : String) (lane : Lane κ α) :
    FairWorkerScheduler κ α :=
  { s with lanes := s.lanes ++ [(terminalId, lane)], order := s.order ++ [terminalId] }

def setLane (s : FairWorkerScheduler κ α) (terminalId : String) (lane : Lane κ α) :
    FairWorkerScheduler κ α :=
  { s with lanes := modifyRow Prod.fst terminalId (fun entry => (entry.1, lane)) s.lanes }

def deleteLane (s : FairWorkerScheduler κ α) (terminalId : String) : FairWorkerScheduler κ α :=
  let order := s.order.filter (· ≠ terminalId)
  { s with
    lanes := s.lanes.filter fun entry => entry.1 ≠ terminalId
    order
    cursor := s.cursor % max 1 order.length }

def schedule (s : FairWorkerScheduler κ α) : FairWorkerScheduler κ α := { s with scheduled := true }

/-- `none` is the exception of a full scheduler. -/
def enqueue (s : FairWorkerScheduler κ α) (terminalId : String) (value : α) (bytes : ℕ)
    (priority : WorkerPriority) (key : κ) : Option (FairWorkerScheduler κ α) :=
  let cost := max 1 bytes
  if s.bytes + cost > maxBytes ∨ s.commands + 1 > maxCommands then none
  else
    let found := match s.lane terminalId with
      | some lane => (s, lane)
      | none => (s.addLane terminalId ⟨[], priority, 0, none⟩, ⟨[], priority, 0, none⟩)
    let lane := { found.2 with priority, queue := found.2.queue ++ [⟨value, cost, key⟩] }
    let s := found.1.setLane terminalId lane
    some { s with bytes := s.bytes + cost, commands := s.commands + 1, scheduled := true }

def setPriority (s : FairWorkerScheduler κ α) (terminalId : String) (priority : WorkerPriority) :
    FairWorkerScheduler κ α :=
  match s.lane terminalId with
  | some lane => s.setLane terminalId { lane with priority }
  | none => s

def cleanup (s : FairWorkerScheduler κ α) (terminalId : String) (lane : Lane κ α) :
    FairWorkerScheduler κ α :=
  if lane.inFlightKey.isSome || !lane.queue.isEmpty then s else s.deleteLane terminalId

def complete [DecidableEq κ] (s : FairWorkerScheduler κ α) (terminalId : String) (key : κ) :
    FairWorkerScheduler κ α :=
  match s.lane terminalId with
  | some lane =>
    if lane.inFlightKey = some key then
      let lane := { lane with inFlightKey := none }
      let s := s.setLane terminalId lane
      ({ s with inFlight := s.inFlight - 1 }.cleanup terminalId lane).schedule
    else s
  | none => s

def cancel (s : FairWorkerScheduler κ α) (terminalId : String) : FairWorkerScheduler κ α :=
  match s.lane terminalId with
  | some lane =>
    { s with
      bytes := s.bytes - lane.bytes
      commands := s.commands - lane.queue.length
      inFlight := s.inFlight - lane.flying }.deleteLane terminalId
  | none => s

def reset (s : FairWorkerScheduler κ α) : FairWorkerScheduler κ α :=
  { s with lanes := [], order := [], cursor := 0, bytes := 0, commands := 0, inFlight := 0 }

/-- One attempt of the pump, with what it dispatches. -/
def attempt (s : FairWorkerScheduler κ α) : FairWorkerScheduler κ α × List (String × α) :=
  let terminalId := s.order[s.cursor]?
  let s := { s with cursor := (s.cursor + 1) % s.order.length }
  match terminalId with
  | none => (s, [])
  | some terminalId =>
    match s.lane terminalId with
    | none => (s, [])
    | some lane =>
      match lane.inFlightKey, lane.queue with
      | none, pending :: rest =>
        let deficit := lane.deficit + quantumBytes * weight lane.priority
        if pending.bytes > deficit then (s.setLane terminalId { lane with deficit }, [])
        else
          let s := s.setLane terminalId
            { lane with
              queue := rest
              deficit := deficit - pending.bytes
              inFlightKey := some pending.key }
          ({ s with
            bytes := s.bytes - pending.bytes
            commands := s.commands - 1
            inFlight := s.inFlight + 1 }, [(terminalId, pending.value)])
      | _, _ => (s, [])

def attempts : ℕ → FairWorkerScheduler κ α → FairWorkerScheduler κ α × List (String × α)
  | 0, s => (s, [])
  | n + 1, s =>
    if s.inFlight < maxInFlight then
      let first := s.attempt
      let rest := attempts n first.1
      (rest.1, first.2 ++ rest.2)
    else (s, [])

def pump (s : FairWorkerScheduler κ α) : FairWorkerScheduler κ α × List (String × α) :=
  if s.order.length = 0 ∨ s.inFlight ≥ maxInFlight then (s, [])
  else
    let served := attempts (s.order.length * 32) s
    if served.1.inFlight < maxInFlight ∧ served.1.lanes.any (fun entry => entry.2.dispatchable) then
      (served.1.schedule, served.2)
    else served

/-- The microtask that `schedule` queues. -/
def microtask (s : FairWorkerScheduler κ α) : FairWorkerScheduler κ α × List (String × α) :=
  { s with scheduled := false }.pump

end FairWorkerScheduler
end PiDeck.Worker
