import Mathlib
import PiDeck.Collections.IndexMap

/-! The lease and mutation-fence registry of the terminal runtime. Every operation reads the clock
and may draw fresh identifiers; both are arguments here. Operations return the new state together
with their result because a failing call still keeps the expiry it performed. -/
namespace PiDeck.Terminal
open PiDeck.Collections

inductive TerminalLeaseMode
  | writer
  | observer
  deriving DecidableEq, Repr

/-- A lease. The rendered `acquired_at` and `expires_at` texts are kept as the instants they
render. -/
structure RuntimeTerminalLease where
  terminalId : String
  terminalEpoch : String
  leaseId : String
  leaseGeneration : ℕ
  principalId : String
  connectionId : String
  mode : TerminalLeaseMode
  acquiredAtMs : ℤ
  expiresAtMs : ℤ
  deriving DecidableEq

structure TerminalLeaseRequest where
  terminalId : String
  terminalEpoch : String
  principalId : String
  connectionId : String
  mode : TerminalLeaseMode
  deriving DecidableEq

structure TerminalMutationFence where
  terminalId : String
  terminalEpoch : String
  leaseId : String
  leaseGeneration : ℕ
  principalId : String
  connectionId : String
  commandId : String
  deriving DecidableEq

inductive TerminalControlErrorCode
  | terminalNotFound
  | terminalEpochStale
  | writerLeaseRequired
  | writerLeaseStale
  | leaseNotHeld
  | commandDuplicate
  deriving DecidableEq, Repr

def TerminalControlErrorCode.asWireCode : TerminalControlErrorCode → String
  | terminalNotFound => "TERMINAL_NOT_FOUND"
  | terminalEpochStale => "TERMINAL_EPOCH_STALE"
  | writerLeaseRequired => "WRITER_LEASE_REQUIRED"
  | writerLeaseStale => "WRITER_LEASE_STALE"
  | leaseNotHeld => "LEASE_NOT_HELD"
  | commandDuplicate => "COMMAND_DUPLICATE"

structure TerminalControlError where
  code : TerminalControlErrorCode
  terminalId : String
  message : String
  leaseId : Option String
  deriving DecidableEq

def maxCommandIds : ℕ := 1024
def defaultLeaseTtlMs : ℤ := 15000

abbrev LeaseMap := IndexMap String RuntimeTerminalLease

structure TerminalControlState where
  terminalEpoch : String
  leaseGeneration : ℕ
  primaryWriterId : Option String
  writers : LeaseMap
  observers : LeaseMap
  commandIds : IndexMap String ℤ
  deriving DecidableEq

/-- `u64::saturating_add(1)`. -/
def saturatingSucc (n : ℕ) : ℕ := if n < 2 ^ 64 - 1 then n + 1 else n

/-- `i64::saturating_add`. -/
def saturatingAdd (a b : ℤ) : ℤ := max (-2 ^ 63) (min (a + b) (2 ^ 63 - 1))

def RuntimeTerminalLease.heldBy (lease : RuntimeTerminalLease) (principalId connectionId : String) :
    Bool :=
  lease.principalId = principalId && lease.connectionId = connectionId

def RuntimeTerminalLease.extendTo (expiresAtMs : ℤ) (lease : RuntimeTerminalLease) :
    RuntimeTerminalLease :=
  { lease with expiresAtMs := expiresAtMs }

/-- The identifier of the oldest lease that `principalId` holds on `connectionId`. -/
def heldLeaseId (leases : LeaseMap) (principalId connectionId : String) : Option String :=
  (leases.values.find? fun lease => lease.heldBy principalId connectionId).map (·.leaseId)

def firstId (leases : LeaseMap) : Option String := leases.first?.map Prod.fst

namespace TerminalControlState

/-- Drop the expired leases and restore the primary writer. -/
def purge (state : TerminalControlState) (now : ℤ) : TerminalControlState :=
  let writers := state.writers.retain fun _ lease => decide (now < lease.expiresAtMs)
  { state with
    writers := writers
    primaryWriterId :=
      if state.primaryWriterId.all fun id => !writers.contains id then firstId writers
      else state.primaryWriterId
    observers := state.observers.retain fun _ lease => decide (now < lease.expiresAtMs) }

def findLease (state : TerminalControlState) (leaseId : String) : Option RuntimeTerminalLease :=
  (state.writers.get? leaseId).or (state.observers.get? leaseId)

def renewLease (state : TerminalControlState) (leaseId : String) (now ttl : ℤ) :
    TerminalControlState × Except TerminalControlError RuntimeTerminalLease :=
  let extend := RuntimeTerminalLease.extendTo (saturatingAdd now ttl)
  match state.writers.get? leaseId with
  | some lease => ({ state with writers := state.writers.modify leaseId extend }, .ok (extend lease))
  | none =>
    match state.observers.get? leaseId with
    | some lease =>
      ({ state with observers := state.observers.modify leaseId extend }, .ok (extend lease))
    | none =>
      (state, .error ⟨.writerLeaseStale, "", "terminal lease is missing or expired", some leaseId⟩)

def newLease (state : TerminalControlState) (request : TerminalLeaseRequest)
    (leaseGeneration : ℕ) (now ttl : ℤ) (id : String) : RuntimeTerminalLease :=
  { terminalId := request.terminalId
    terminalEpoch := state.terminalEpoch
    leaseId := "lease-" ++ id
    leaseGeneration := leaseGeneration
    principalId := request.principalId
    connectionId := request.connectionId
    mode := request.mode
    acquiredAtMs := now
    expiresAtMs := saturatingAdd now ttl }

/-- Insert a new writer lease; it becomes the primary writer if there is none. -/
def addWriter (state : TerminalControlState) (lease : RuntimeTerminalLease) :
    TerminalControlState :=
  { state with
    writers := state.writers.insert lease.leaseId lease
    primaryWriterId := state.primaryWriterId.or (some lease.leaseId) }

/-- The writer arm of `acquire` for a holder without a writer lease. -/
def admitWriter (state : TerminalControlState) (request : TerminalLeaseRequest) (now ttl : ℤ)
    (id : String) : TerminalControlState × Except TerminalControlError RuntimeTerminalLease :=
  let observers :=
    match heldLeaseId state.observers request.principalId request.connectionId with
    | some observerId => state.observers.shiftRemove observerId
    | none => state.observers
  let generation :=
    if state.primaryWriterId.isNone then saturatingSucc state.leaseGeneration
    else state.leaseGeneration
  let state := { state with observers := observers, leaseGeneration := generation }
  let lease := state.newLease request generation now ttl id
  (state.addWriter lease, .ok lease)

/-- The observer arm of `acquire` for a holder without an observer lease. -/
def admitObserver (state : TerminalControlState) (request : TerminalLeaseRequest) (now ttl : ℤ)
    (id : String) : TerminalControlState × Except TerminalControlError RuntimeTerminalLease :=
  let lease := state.newLease request state.leaseGeneration now ttl id
  ({ state with observers := state.observers.insert lease.leaseId lease }, .ok lease)

def acquire (state : TerminalControlState) (request : TerminalLeaseRequest) (now ttl : ℤ)
    (id : String) : TerminalControlState × Except TerminalControlError RuntimeTerminalLease :=
  let state := state.purge now
  match request.mode with
  | .writer =>
    match heldLeaseId state.writers request.principalId request.connectionId with
    | some existingId => state.renewLease existingId now ttl
    | none => state.admitWriter request now ttl id
  | .observer =>
    match heldLeaseId state.observers request.principalId request.connectionId with
    | some existingId => state.renewLease existingId now ttl
    | none => state.admitObserver request now ttl id

def renew (state : TerminalControlState) (terminalId leaseId principalId connectionId : String)
    (now ttl : ℤ) : TerminalControlState × Except TerminalControlError RuntimeTerminalLease :=
  let state := state.purge now
  match state.findLease leaseId with
  | none =>
    (state, .error ⟨.writerLeaseStale, terminalId, "terminal lease is missing or expired",
      some leaseId⟩)
  | some lease =>
    if lease.heldBy principalId connectionId then state.renewLease leaseId now ttl
    else
      (state, .error ⟨.writerLeaseStale, terminalId, "terminal lease belongs to another connection",
        some leaseId⟩)

/-- Remove a lease; a removed primary writer is replaced by the oldest remaining writer. The source
does not expire leases here. -/
def dropLease (state : TerminalControlState) (leaseId : String) : TerminalControlState :=
  let writers := state.writers.shiftRemove leaseId
  { state with
    writers := writers
    primaryWriterId :=
      if state.writers.contains leaseId && decide (state.primaryWriterId = some leaseId)
      then firstId writers else state.primaryWriterId
    observers := state.observers.shiftRemove leaseId }

def release (state : TerminalControlState) (terminalId leaseId principalId connectionId : String) :
    TerminalControlState × Except TerminalControlError Unit :=
  match state.findLease leaseId with
  | none => (state, .ok ())
  | some lease =>
    if lease.heldBy principalId connectionId then (state.dropLease leaseId, .ok ())
    else
      (state, .error ⟨.leaseNotHeld, terminalId, "terminal lease belongs to another connection",
        some leaseId⟩)

/-- Remove every lease held on a connection, without promotion. -/
def dropConnection (state : TerminalControlState) (connectionId : String) : TerminalControlState :=
  let writers := state.writers.retain fun _ lease => decide (lease.connectionId ≠ connectionId)
  let primary :=
    if state.primaryWriterId.any fun id => state.writers.contains id && !writers.contains id
    then none else state.primaryWriterId
  { state with
    writers := writers
    primaryWriterId := if primary.isNone then firstId writers else primary
    observers := state.observers.retain fun _ lease => decide (lease.connectionId ≠ connectionId) }

/-- Make the oldest observer the only writer, under a new generation. -/
def promoteObserver (state : TerminalControlState) (now ttl : ℤ) (id : String) :
    TerminalControlState :=
  match state.observers.first? with
  | none => state
  | some (_, observer) =>
    let generation := saturatingSucc state.leaseGeneration
    let state :=
      { state with observers := state.observers.dropOldest 1, leaseGeneration := generation }
    let request : TerminalLeaseRequest :=
      { terminalId := observer.terminalId
        terminalEpoch := observer.terminalEpoch
        principalId := observer.principalId
        connectionId := observer.connectionId
        mode := .writer }
    let promoted := state.newLease request generation now ttl id
    { state with
      primaryWriterId := some promoted.leaseId
      writers := state.writers.insert promoted.leaseId promoted }

/-- The body of the loop of `release_connection` for one terminal. -/
def releaseConnection (state : TerminalControlState) (connectionId : String) (now ttl : ℤ)
    (id : String) : TerminalControlState :=
  let state := state.purge now
  let writerDisconnected :=
    state.writers.values.any fun lease => decide (lease.connectionId = connectionId)
  let state := state.dropConnection connectionId
  if writerDisconnected && state.writers.isEmpty then state.promoteObserver now ttl id else state

def forceTakeover (state : TerminalControlState) (request : TerminalLeaseRequest) (now ttl : ℤ)
    (id : String) : TerminalControlState × Except TerminalControlError RuntimeTerminalLease :=
  let generation := saturatingSucc state.leaseGeneration
  let observers := state.observers.retain fun _ lease =>
    !lease.heldBy request.principalId request.connectionId
  let state :=
    { state with
      primaryWriterId := none
      writers := .empty
      observers := observers
      leaseGeneration := generation }
  let lease := state.newLease request generation now ttl id
  (state.addWriter lease, .ok lease)

/-- The ownership check of `transfer`. -/
def checkWriter (state : TerminalControlState) (terminalId leaseId principalId connectionId : String) :
    Except TerminalControlError Unit :=
  match state.writers.get? leaseId with
  | none =>
    .error ⟨.writerLeaseStale, terminalId, "only the active writer can transfer control",
      some leaseId⟩
  | some lease =>
    if lease.heldBy principalId connectionId then .ok ()
    else .error ⟨.leaseNotHeld, terminalId, "terminal lease belongs to another connection",
      some leaseId⟩

/-- Both halves of `transfer` read the clock. -/
def transfer (state : TerminalControlState) (terminalId leaseId principalId connectionId : String)
    (target : TerminalLeaseRequest) (now later ttl : ℤ) (id : String) :
    TerminalControlState × Except TerminalControlError RuntimeTerminalLease :=
  let state := state.purge now
  match state.checkWriter terminalId leaseId principalId connectionId with
  | .error e => (state, .error e)
  | .ok () => state.forceTakeover target later ttl id

/-- Record an accepted command identifier, forgetting the oldest ones beyond the bound. -/
def recordCommand (state : TerminalControlState) (commandId : String) (now : ℤ) :
    TerminalControlState :=
  let commandIds := state.commandIds.insert commandId now
  { state with commandIds := commandIds.dropOldest (commandIds.length - maxCommandIds) }

def authorizeMutation (state : TerminalControlState) (fence : TerminalMutationFence)
    (now ttl : ℤ) : TerminalControlState × Except TerminalControlError RuntimeTerminalLease :=
  let state := state.purge now
  match state.writers.get? fence.leaseId with
  | none =>
    let hasWriter := state.primaryWriterId.isSome || !state.writers.isEmpty
    (state, .error
      { code := if hasWriter then .writerLeaseStale else .writerLeaseRequired
        terminalId := fence.terminalId
        message :=
          if hasWriter then "terminal mutation fence is stale"
          else "an active writer lease is required"
        leaseId := some fence.leaseId })
  | some writer =>
    if writer.terminalEpoch ≠ fence.terminalEpoch ∨ writer.leaseGeneration ≠ fence.leaseGeneration ∨
        writer.principalId ≠ fence.principalId ∨ writer.connectionId ≠ fence.connectionId then
      (state, .error ⟨.writerLeaseStale, fence.terminalId, "terminal mutation fence is stale",
        some fence.leaseId⟩)
    else if state.commandIds.contains fence.commandId then
      (state, .error ⟨.commandDuplicate, fence.terminalId,
        "terminal command ID was already accepted", some fence.leaseId⟩)
    else (state.recordCommand fence.commandId now).renewLease fence.leaseId now ttl

end TerminalControlState

/-- The registry: one state for each registered terminal. -/
structure TerminalControlRegistry where
  terminals : String → Option TerminalControlState
  leaseTtlMs : ℤ

namespace TerminalControlRegistry
open TerminalControlState

def new : TerminalControlRegistry := ⟨fun _ => none, defaultLeaseTtlMs⟩

def set (registry : TerminalControlRegistry) (terminalId : String)
    (state : Option TerminalControlState) : TerminalControlRegistry :=
  { registry with terminals := Function.update registry.terminals terminalId state }

def registerTerminal (registry : TerminalControlRegistry) (terminalId terminalEpoch : String) :
    TerminalControlRegistry × Except TerminalControlError Unit :=
  if terminalId = "" ∨ terminalEpoch = "" then
    (registry, .error ⟨.terminalNotFound, terminalId, "terminal ID and epoch are required", none⟩)
  else
    match registry.terminals terminalId with
    | some existing =>
      if existing.terminalEpoch ≠ terminalEpoch then
        (registry, .error ⟨.terminalEpochStale, terminalId,
          "terminal ID is already registered to another epoch", none⟩)
      else (registry, .ok ())
    | none =>
      (registry.set terminalId (some
        { terminalEpoch := terminalEpoch
          leaseGeneration := 0
          primaryWriterId := none
          writers := .empty
          observers := .empty
          commandIds := .empty }), .ok ())

def unregisterTerminal (registry : TerminalControlRegistry) (terminalId : String)
    (terminalEpoch : Option String) : TerminalControlRegistry :=
  match registry.terminals terminalId with
  | some state =>
    if terminalEpoch.all fun epoch => decide (state.terminalEpoch = epoch)
    then registry.set terminalId none else registry
  | none => registry

def stateMut (registry : TerminalControlRegistry) (terminalId : String) :
    Except TerminalControlError TerminalControlState :=
  match registry.terminals terminalId with
  | some state => .ok state
  | none =>
    .error ⟨.terminalNotFound, terminalId, "terminal control state is not registered", none⟩

def stateForEpochMut (registry : TerminalControlRegistry) (terminalId terminalEpoch : String) :
    Except TerminalControlError TerminalControlState :=
  match registry.stateMut terminalId with
  | .error e => .error e
  | .ok state =>
    if state.terminalEpoch ≠ terminalEpoch then
      .error ⟨.terminalEpochStale, terminalId, "terminal epoch does not match the owner state",
        none⟩
    else .ok state

/-- Run an operation on the state of one terminal, if it can be had. -/
def onState {α : Type} (registry : TerminalControlRegistry) (terminalId : String)
    (state : Except TerminalControlError TerminalControlState)
    (operation : TerminalControlState → TerminalControlState × Except TerminalControlError α) :
    TerminalControlRegistry × Except TerminalControlError α :=
  match state with
  | .error e => (registry, .error e)
  | .ok state => (registry.set terminalId (some (operation state).1), (operation state).2)

variable (registry : TerminalControlRegistry)

def acquire (request : TerminalLeaseRequest) (now : ℤ) (id : String) :
    TerminalControlRegistry × Except TerminalControlError RuntimeTerminalLease :=
  registry.onState request.terminalId
    (registry.stateForEpochMut request.terminalId request.terminalEpoch)
    fun state => state.acquire request now registry.leaseTtlMs id

def renew (terminalId terminalEpoch leaseId principalId connectionId : String) (now : ℤ) :
    TerminalControlRegistry × Except TerminalControlError RuntimeTerminalLease :=
  registry.onState terminalId (registry.stateForEpochMut terminalId terminalEpoch)
    fun state => state.renew terminalId leaseId principalId connectionId now registry.leaseTtlMs

def release (terminalId terminalEpoch leaseId principalId connectionId : String) :
    TerminalControlRegistry × Except TerminalControlError Unit :=
  registry.onState terminalId (registry.stateForEpochMut terminalId terminalEpoch)
    fun state => state.release terminalId leaseId principalId connectionId

/-- The loop visits every terminal; `makeId` gives the identifier drawn for each. -/
def releaseConnection (connectionId : String) (now : ℤ) (makeId : String → String) :
    TerminalControlRegistry :=
  { registry with
    terminals := fun terminalId => (registry.terminals terminalId).map fun state =>
      state.releaseConnection connectionId now registry.leaseTtlMs (makeId terminalId) }

def takeoverRequest (terminalId terminalEpoch principalId connectionId : String) :
    TerminalLeaseRequest :=
  { terminalId := terminalId
    terminalEpoch := terminalEpoch
    principalId := principalId
    connectionId := connectionId
    mode := .writer }

def forceTakeover (terminalId terminalEpoch principalId connectionId : String) (now : ℤ)
    (id : String) : TerminalControlRegistry × Except TerminalControlError RuntimeTerminalLease :=
  registry.onState terminalId (registry.stateForEpochMut terminalId terminalEpoch)
    fun state => state.forceTakeover
      (takeoverRequest terminalId terminalEpoch principalId connectionId) now registry.leaseTtlMs id

def transfer (terminalId terminalEpoch leaseId principalId connectionId targetPrincipalId
    targetConnectionId : String) (now later : ℤ) (id : String) :
    TerminalControlRegistry × Except TerminalControlError RuntimeTerminalLease :=
  registry.onState terminalId (registry.stateForEpochMut terminalId terminalEpoch)
    fun state => state.transfer terminalId leaseId principalId connectionId
      (takeoverRequest terminalId terminalEpoch targetPrincipalId targetConnectionId) now later
      registry.leaseTtlMs id

def authorizeMutation (fence : TerminalMutationFence) (now : ℤ) :
    TerminalControlRegistry × Except TerminalControlError RuntimeTerminalLease :=
  registry.onState fence.terminalId
    (registry.stateForEpochMut fence.terminalId fence.terminalEpoch)
    fun state => state.authorizeMutation fence now registry.leaseTtlMs

def writer (terminalId : String) (now : ℤ) :
    TerminalControlRegistry × Except TerminalControlError (Option RuntimeTerminalLease) :=
  registry.onState terminalId (registry.stateMut terminalId) fun state =>
    let state := state.purge now
    (state, .ok (state.primaryWriterId.bind state.writers.get?))

def list (terminalId : String) (now : ℤ) :
    TerminalControlRegistry × Except TerminalControlError (List RuntimeTerminalLease) :=
  registry.onState terminalId (registry.stateMut terminalId) fun state =>
    let state := state.purge now
    (state, .ok (state.writers.values ++ state.observers.values))

end TerminalControlRegistry
end PiDeck.Terminal
