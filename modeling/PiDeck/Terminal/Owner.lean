import Mathlib
import PiDeck.Terminal.Fencing

/-! The owner of one terminal: it holds the lease registry in which only its own terminal is
registered, and answers one command at a time. A batch of writes or resizes authorizes its commands
in order, as they are here; what an authorized command then writes is not part of this model. -/
namespace PiDeck.Terminal
open PiDeck.Collections PiDeck.Transition

inductive TerminalError
  | notReady
  | control (error : TerminalControlError)
  deriving DecidableEq

structure TerminalRuntime where
  id : String
  terminalEpoch : String
  attachedClients : Finset String
  replayReadyClients : Finset String
  control : TerminalControlRegistry
  disposed : Bool

/-- A request for a mutation. A request without a fence may draw an identifier. -/
structure AuthorizeRequest where
  principalId : String
  connectionId : String
  fence : Option TerminalMutationFence
  now : ℤ
  later : ℤ
  draw : String
  deriving DecidableEq

/-- `authorize_terminal`. A fence is bound to the connection that sent it; without one the writer
lease of the connection is used, and acquired if there is none. -/
def authorizeTerminal (control : TerminalControlRegistry) (id terminalEpoch : String)
    (request : AuthorizeRequest) :
    TerminalControlRegistry × Except TerminalControlError RuntimeTerminalLease :=
  match request.fence with
  | some fence =>
    control.authorizeMutation
      { fence with principalId := request.principalId, connectionId := request.connectionId }
      request.now
  | none =>
    let listed := control.list id request.now
    match listed.2 with
    | .error e => (listed.1, .error e)
    | .ok leases =>
      match leases.find? fun lease => decide (lease.mode = .writer) &&
          lease.heldBy request.principalId request.connectionId with
      | some existing => (listed.1, .ok existing)
      | none =>
        listed.1.acquire
          { terminalId := id
            terminalEpoch := terminalEpoch
            principalId := request.principalId
            connectionId := request.connectionId
            mode := .writer } request.later request.draw

namespace TerminalRuntime

/-- The runtime of a new terminal. -/
def initializeRuntime (id terminalEpoch : String) : TerminalRuntime :=
  { id := id
    terminalEpoch := terminalEpoch
    attachedClients := ∅
    replayReadyClients := ∅
    control := (TerminalControlRegistry.new.registerTerminal id terminalEpoch).1
    disposed := false }

variable (runtime : TerminalRuntime)

/-- Keep what a registry call left and answer with its result. -/
def reply {α : Type} (called : TerminalControlRegistry × Except TerminalControlError α) :
    TerminalRuntime × Except TerminalError α :=
  ({ runtime with control := called.1 }, called.2.mapError .control)

def attach (clientId : String) : TerminalRuntime :=
  { runtime with attachedClients := insert clientId runtime.attachedClients }

def markReplayReady (clientId : String) : TerminalRuntime × Except TerminalError Unit :=
  if clientId ∈ runtime.attachedClients then
    ({ runtime with replayReadyClients := insert clientId runtime.replayReadyClients }, .ok ())
  else (runtime, .error .notReady)

def detach (clientId : String) : TerminalRuntime :=
  { runtime with
    replayReadyClients := runtime.replayReadyClients.erase clientId
    attachedClients := runtime.attachedClients.erase clientId }

def acquireLease (principalId connectionId : String) (mode : TerminalLeaseMode) (now : ℤ)
    (draw : String) : TerminalRuntime × Except TerminalError RuntimeTerminalLease :=
  runtime.reply (runtime.control.acquire
    { terminalId := runtime.id
      terminalEpoch := runtime.terminalEpoch
      principalId := principalId
      connectionId := connectionId
      mode := mode } now draw)

def renewLease (leaseId principalId connectionId : String) (now : ℤ) :
    TerminalRuntime × Except TerminalError RuntimeTerminalLease :=
  runtime.reply
    (runtime.control.renew runtime.id runtime.terminalEpoch leaseId principalId connectionId now)

def releaseLease (leaseId principalId connectionId : String) :
    TerminalRuntime × Except TerminalError Unit :=
  runtime.reply
    (runtime.control.release runtime.id runtime.terminalEpoch leaseId principalId connectionId)

def takeover (principalId connectionId : String) (now : ℤ) (draw : String) :
    TerminalRuntime × Except TerminalError RuntimeTerminalLease :=
  runtime.reply (runtime.control.forceTakeover runtime.id runtime.terminalEpoch principalId
    connectionId now draw)

/-- Control is transferred between two connections of one principal. -/
def transfer (leaseId principalId connectionId targetConnectionId : String) (now later : ℤ)
    (draw : String) : TerminalRuntime × Except TerminalError RuntimeTerminalLease :=
  runtime.reply (runtime.control.transfer runtime.id runtime.terminalEpoch leaseId principalId
    connectionId principalId targetConnectionId now later draw)

def listLeases (now : ℤ) : TerminalRuntime × Except TerminalError (List RuntimeTerminalLease) :=
  runtime.reply (runtime.control.list runtime.id now)

def authorize (request : AuthorizeRequest) :
    TerminalRuntime × Except TerminalError RuntimeTerminalLease :=
  runtime.reply (authorizeTerminal runtime.control runtime.id runtime.terminalEpoch request)

/-- A write or a resize is refused until the connection has completed its replay. -/
def authorizeReady (request : AuthorizeRequest) :
    TerminalRuntime × Except TerminalError RuntimeTerminalLease :=
  if request.connectionId ∈ runtime.replayReadyClients then runtime.authorize request
  else (runtime, .error .notReady)

def authorizeAndWrite (request : AuthorizeRequest) :
    TerminalRuntime × Except TerminalError RuntimeTerminalLease :=
  runtime.authorizeReady request

def authorizeAndResize (request : AuthorizeRequest) :
    TerminalRuntime × Except TerminalError RuntimeTerminalLease :=
  runtime.authorizeReady request

def dispose : TerminalRuntime :=
  { runtime with
    disposed := true
    control := runtime.control.unregisterTerminal runtime.id (some runtime.terminalEpoch) }

def authorizeAndDispose (request : AuthorizeRequest) :
    TerminalRuntime × Except TerminalError RuntimeTerminalLease :=
  let authorized := runtime.authorize request
  match authorized.2 with
  | .ok lease => (authorized.1.dispose, .ok lease)
  | .error e => (authorized.1, .error e)

def releaseConnection (connectionId : String) (now : ℤ) (draw : String) : TerminalRuntime :=
  { runtime with
    control := runtime.control.releaseConnection connectionId now fun _ => draw
    replayReadyClients := runtime.replayReadyClients.erase connectionId
    attachedClients := runtime.attachedClients.erase connectionId }

end TerminalRuntime

/-- The commands of an owner that read or change its leases or its clients. -/
inductive TerminalCommand
  | attach (clientId : String)
  | markReplayReady (clientId : String)
  | detach (clientId : String)
  | acquireLease (principalId connectionId : String) (mode : TerminalLeaseMode) (now : ℤ)
      (draw : String)
  | renewLease (leaseId principalId connectionId : String) (now : ℤ)
  | releaseLease (leaseId principalId connectionId : String)
  | takeover (principalId connectionId : String) (now : ℤ) (draw : String)
  | transfer (leaseId principalId connectionId targetConnectionId : String) (now later : ℤ)
      (draw : String)
  | listLeases (now : ℤ)
  | authorize (request : AuthorizeRequest)
  | authorizeAndWrite (request : AuthorizeRequest)
  | authorizeAndResize (request : AuthorizeRequest)
  | authorizeAndDispose (request : AuthorizeRequest)
  | dispose
  | releaseConnection (connectionId : String) (now : ℤ) (draw : String)

/-- The identifier that a request draws if its connection has no writer lease. -/
def AuthorizeRequest.drawn (request : AuthorizeRequest) : Option String :=
  if request.fence.isNone then some request.draw else none

/-- The connection that a request without a fence may make a writer. -/
def AuthorizeRequest.grantee (request : AuthorizeRequest) : Option String :=
  if request.fence.isNone then some request.connectionId else none

namespace TerminalCommand

def draws : TerminalCommand → Option String
  | acquireLease _ _ _ _ draw => some draw
  | takeover _ _ _ draw => some draw
  | transfer _ _ _ _ _ _ draw => some draw
  | authorize request => request.drawn
  | authorizeAndWrite request => request.drawn
  | authorizeAndResize request => request.drawn
  | authorizeAndDispose request => request.drawn
  | releaseConnection _ _ draw => some draw
  | _ => none

/-- The connection that asks, with the command, to write beside the present writers: it requests a
writer lease, or a mutation without a fence. -/
def joins : TerminalCommand → Option String
  | acquireLease _ connectionId mode _ _ => if mode = .writer then some connectionId else none
  | authorize request => request.grantee
  | authorizeAndWrite request => request.grantee
  | authorizeAndResize request => request.grantee
  | authorizeAndDispose request => request.grantee
  | _ => none

end TerminalCommand

namespace TerminalRuntime

def handle (runtime : TerminalRuntime) : TerminalCommand → TerminalRuntime
  | .attach clientId => runtime.attach clientId
  | .markReplayReady clientId => (runtime.markReplayReady clientId).1
  | .detach clientId => runtime.detach clientId
  | .acquireLease principalId connectionId mode now draw =>
    (runtime.acquireLease principalId connectionId mode now draw).1
  | .renewLease leaseId principalId connectionId now =>
    (runtime.renewLease leaseId principalId connectionId now).1
  | .releaseLease leaseId principalId connectionId =>
    (runtime.releaseLease leaseId principalId connectionId).1
  | .takeover principalId connectionId now draw =>
    (runtime.takeover principalId connectionId now draw).1
  | .transfer leaseId principalId connectionId targetConnectionId now later draw =>
    (runtime.transfer leaseId principalId connectionId targetConnectionId now later draw).1
  | .listLeases now => (runtime.listLeases now).1
  | .authorize request => (runtime.authorize request).1
  | .authorizeAndWrite request => (runtime.authorizeAndWrite request).1
  | .authorizeAndResize request => (runtime.authorizeAndResize request).1
  | .authorizeAndDispose request => (runtime.authorizeAndDispose request).1
  | .dispose => runtime.dispose
  | .releaseConnection connectionId now draw => runtime.releaseConnection connectionId now draw

/-- A disposed owner answers no more commands. -/
def machine : Machine TerminalRuntime TerminalCommand :=
  ⟨fun runtime c => if runtime.disposed then none else some (runtime.handle c)⟩

/-- The lease is among the writers of the terminal. -/
def Writes (runtime : TerminalRuntime) (leaseId : String) : Prop :=
  ∃ state, runtime.control.terminals runtime.id = some state ∧ leaseId ∈ state.writers.keys

end TerminalRuntime
end PiDeck.Terminal
