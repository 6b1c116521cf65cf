import PiDeck.Outbound.Connection
import PiDeck.Server.EventHub
import PiDeck.Server.Principal
import PiDeck.Transition.Machine

/-! The connections of the current protocol, from the handshake to the end of the writer, and the
paired devices behind them. Each connection has a reader task (the handshake, then the main loop)
and, from the main loop on, a writer task. What the handler of a client frame enqueues is left to
the environment. -/
namespace PiDeck.Server
open PiDeck.Wire PiDeck.Outbound PiDeck.Transition

structure PairedDevice where
  scopes : List DeviceScope
  revokedAt : Option ℕ
  deriving DecidableEq

structure DeviceSession where
  deviceId : String
  scopes : List DeviceScope
  deriving DecidableEq

/-- Where a connection's reader stands. `resumed` has found a session and not yet read the row of
its device. -/
inductive SocketPhase
  | connecting
  | resumed (session : DeviceSession)
  | authenticated
  | subscribed
  | live
  | ended
  | closed
  deriving DecidableEq

/-- `position` is the receiver's place in the event channel. -/
structure Socket where
  connectionId : String
  phase : SocketPhase
  principal : Option Principal
  position : ℕ
  snapshotSequence : ℕ
  outbound : ConnectionOutbound
  writing : Bool

def Socket.deviceId (socket : Socket) : Option String := socket.principal.bind (·.deviceId)

/-- What the main loop asks of the outbound side. -/
inductive OutboundCall
  | text (data : Bytes)
  | protocolFrame (kind : FrameType) (streamId epoch sequence : ℕ) (payload : Bytes)
  | history (frames : List Frame)
  | attach (terminalId : String) (acknowledged : ℕ)
  | attachResult (terminalId : String) (snapshotSequence : Option ℕ) (stream : Option (ℕ × ℕ))
    (snapshot : Option Bytes) (ok : Bool) (data : Bytes)
  | detach (terminalId : String)
  | acknowledge (terminalId : String) (sequence : ℕ)
  | close (code : ℕ) (reason : String)

def OutboundCall.run (outbound : ConnectionOutbound) : OutboundCall → ConnectionOutbound × Bool
  | .text data => outbound.enqueueText data
  | .protocolFrame kind streamId epoch sequence payload =>
    outbound.enqueueProtocolFrame kind streamId epoch sequence payload
  | .history frames => outbound.enqueueHistory frames
  | .attach terminalId acknowledged => (outbound.attach terminalId acknowledged, true)
  | .attachResult terminalId snapshotSequence stream snapshot ok data =>
    outbound.enqueueAttachResult terminalId snapshotSequence stream snapshot ok data
  | .detach terminalId => (outbound.detach terminalId, true)
  | .acknowledge terminalId sequence => (outbound.acknowledge terminalId sequence, true)
  | .close code reason => (outbound.closeWith code reason, false)

/-- Revocations in progress: the store is updated, then the sessions are removed, then the event is
emitted. -/
structure SocketServer where
  authToken : Option String
  flowLimit : ℕ
  devices : String → Option PairedDevice
  sessions : String → Option DeviceSession
  revoking : List String
  announcing : List String
  hub : EventHub
  sockets : ℕ → Option Socket

inductive SocketEvent
  | pair (deviceId : String) (scopes : List DeviceScope)
  | addSession (token : String) (session : DeviceSession)
  | dropSession (token : String)
  | revokeDevice (deviceId : String) (now : ℕ)
  | revokeSessions (deviceId : String)
  | emitRevoked (deviceId : String)
  | emit (channel : String) (args : List EventArgument)
  | emitTerminal (frame : TerminalFrame) (attached : ℕ → Bool)
  | connect (id : ℕ) (connectionId : String)
  | presentToken (id : ℕ) (token : String)
  | readDevice (id : ℕ)
  | subscribe (id : ℕ)
  | sendSnapshot (id : ℕ)
  | drop (id : ℕ)
  | clientFrame (id : ℕ) (calls : List OutboundCall)
  | receive (id : ℕ) (call : Option OutboundCall)
  | disconnect (id : ℕ)
  | finish (id : ℕ)
  | pop (id : ℕ) (frame : OutboundFrame)
  | popClose (id : ℕ) (code : ℕ) (reason : String)
  | writerFails (id : ℕ)

def deviceRevoked : String := "security:device-revoked"

/-- The event tells a connection that its device is revoked. -/
def Socket.isRevokedBy (socket : Socket) (event : HostEvent) : Bool :=
  decide (event.channel = deviceRevoked) &&
    decide (event.args.head?.bind (·.asStr) = socket.deviceId)

namespace Socket

def enter (socket : Socket) (principal : Principal) : Socket :=
  { socket with phase := .authenticated, principal := some principal }

/-- `authenticate_modern`, up to the lookup of the session. -/
def presentToken (server : SocketServer) (token : String) (socket : Socket) : Option Socket :=
  if socket.phase = .connecting then
    match server.authToken with
    | none => some (socket.enter (.ofLocal socket.connectionId))
    | some expected =>
      if token = expected then some (socket.enter (.token socket.connectionId))
      else
        match server.sessions token with
        | some session => some { socket with phase := .resumed session }
        | none => some { socket with phase := .closed }
  else none

/-- The rest of `session`: the device of a session must still be paired and not revoked. -/
def readDevice (server : SocketServer) (socket : Socket) : Option Socket :=
  match socket.phase with
  | .resumed session =>
    match server.devices session.deviceId with
    | some { revokedAt := none, .. } =>
      some (socket.enter (.paired session.deviceId session.scopes socket.connectionId))
    | _ => some { socket with phase := .closed }
  | _ => none

def subscribe (server : SocketServer) (socket : Socket) : Option Socket :=
  if socket.phase = .authenticated then
    some { socket with phase := .subscribed, position := server.hub.sender.subscribe }
  else none

def sendSnapshot (server : SocketServer) (socket : Socket) : Option Socket :=
  if socket.phase = .subscribed then
    some { socket with
      phase := .live
      snapshotSequence := server.hub.lastSequence
      outbound := .new server.flowLimit
      writing := true }
  else none

/-- A handshake ends early when its socket fails. -/
def drop (socket : Socket) : Option Socket :=
  if socket.phase = .live ∨ socket.phase = .ended then none
  else some { socket with phase := .closed }

/-- The main loop goes on while the outbound side takes what it is given. -/
def call (socket : Socket) (call : OutboundCall) : Socket :=
  if socket.phase = .live then
    let (outbound, taken) := call.run socket.outbound
    { socket with outbound := outbound, phase := if taken then .live else .ended }
  else socket

def clientFrame (calls : List OutboundCall) (socket : Socket) : Option Socket :=
  if socket.phase = .live then some (calls.foldl Socket.call socket) else none

def endWith (socket : Socket) (code : ℕ) (reason : String) : Socket :=
  { socket with phase := .ended, outbound := socket.outbound.closeWith code reason }

/-- One event of the main loop. Events other than a revocation make it enqueue at most one frame. -/
def handle (socket : Socket) (event : HostEvent) (call : Option OutboundCall) : Socket :=
  if event.sequence ≤ socket.snapshotSequence then socket
  else if event.channel = deviceRevoked then
    if event.args.head?.bind (·.asStr) = socket.deviceId then socket.endWith 4003 "access revoked"
    else socket
  else call.elim socket socket.call

def receive (server : SocketServer) (call : Option OutboundCall) (socket : Socket) :
    Option Socket :=
  if socket.phase = .live then
    (server.hub.sender.recv socket.position).map fun
      | (.message event, position) => { socket with position := position }.handle event call
      | (.lagged _, position) =>
        { socket with position := position }.endWith 1013 "metadata outbound mailbox overflow"
  else none

def disconnect (socket : Socket) : Option Socket :=
  if socket.phase = .live then some { socket with phase := .ended } else none

def finish (socket : Socket) : Option Socket :=
  if socket.phase = .ended then some { socket with outbound := socket.outbound.stop } else none

def pop (frame : OutboundFrame) (socket : Socket) : Option Socket :=
  if socket.writing then
    match socket.outbound.next with
    | some (.frame taken, outbound) =>
      if taken = frame then some { socket with outbound := outbound } else none
    | _ => none
  else none

def popClose (code : ℕ) (reason : String) (socket : Socket) : Option Socket :=
  if socket.writing then
    match socket.outbound.next with
    | some (.close code' reason', outbound) =>
      if code' = code ∧ reason' = reason then
        some { socket with outbound := outbound.stop, writing := false }
      else none
    | _ => none
  else none

def writerFails (socket : Socket) : Option Socket :=
  if socket.writing then some { socket with outbound := socket.outbound.stop, writing := false }
  else none

/-- The hub hands terminal output to a connection that is attached to the terminal. -/
def deliver (frame : TerminalFrame) (socket : Socket) : Socket :=
  if socket.phase = .live ∨ socket.phase = .ended then
    { socket with outbound := socket.outbound.enqueueTerminal frame }
  else socket

end Socket

namespace SocketServer

def onSocket (server : SocketServer) (id : ℕ) (task : Socket → Option Socket) :
    Option SocketServer :=
  (server.sockets id).bind fun socket => (task socket).map fun after =>
    { server with sockets := Function.update server.sockets id (some after) }

def step (server : SocketServer) : SocketEvent → Option SocketServer
  | .pair deviceId scopes =>
    if server.devices deviceId = none then
      some { server with
        devices := Function.update server.devices deviceId (some ⟨scopes, none⟩) }
    else none
  | .addSession token session =>
    some { server with sessions := Function.update server.sessions token (some session) }
  | .dropSession token =>
    some { server with sessions := Function.update server.sessions token none }
  | .revokeDevice deviceId now =>
    some { server with
      devices := Function.update server.devices deviceId
        ((server.devices deviceId).map fun device =>
          { device with revokedAt := device.revokedAt.or (some now) })
      revoking := deviceId :: server.revoking }
  | .revokeSessions deviceId =>
    if deviceId ∈ server.revoking then
      some { server with
        sessions := fun token => (server.sessions token).filter fun session =>
          decide (session.deviceId ≠ deviceId)
        revoking := server.revoking.erase deviceId
        announcing := deviceId :: server.announcing }
    else none
  | .emitRevoked deviceId =>
    if deviceId ∈ server.announcing then
      some { server with
        hub := server.hub.emit deviceRevoked [.string deviceId]
        announcing := server.announcing.erase deviceId }
    else none
  | .emit channel args =>
    if channel = deviceRevoked then none
    else some { server with hub := server.hub.emit channel args }
  | .emitTerminal frame attached =>
    some { server with
      hub := server.hub.emitTerminal
      sockets := fun id => (server.sockets id).map fun socket =>
        if attached id then socket.deliver frame else socket }
  | .connect id connectionId =>
    if server.sockets id = none then
      some { server with
        sockets := Function.update server.sockets id (some
          { connectionId := connectionId
            phase := .connecting
            principal := none
            position := 0
            snapshotSequence := 0
            outbound := .new server.flowLimit
            writing := false }) }
    else none
  | .presentToken id token => server.onSocket id (Socket.presentToken server token)
  | .readDevice id => server.onSocket id (Socket.readDevice server)
  | .subscribe id => server.onSocket id (Socket.subscribe server)
  | .sendSnapshot id => server.onSocket id (Socket.sendSnapshot server)
  | .drop id => server.onSocket id Socket.drop
  | .clientFrame id calls => server.onSocket id (Socket.clientFrame calls)
  | .receive id call => server.onSocket id (Socket.receive server call)
  | .disconnect id => server.onSocket id Socket.disconnect
  | .finish id => server.onSocket id Socket.finish
  | .pop id frame => server.onSocket id (Socket.pop frame)
  | .popClose id code reason => server.onSocket id (Socket.popClose code reason)
  | .writerFails id => server.onSocket id Socket.writerFails

def machine : Machine SocketServer SocketEvent := ⟨step⟩

@[simp] theorem machine_step (server : SocketServer) (event : SocketEvent) :
    machine.step server event = server.step event := rfl

def initial (authToken : Option String) (flowLimit : ℕ) (devices : String → Option PairedDevice) :
    SocketServer :=
  { authToken := authToken
    flowLimit := flowLimit
    devices := devices
    sessions := fun _ => none
    revoking := []
    announcing := []
    hub := .new
    sockets := fun _ => none }

end SocketServer
end PiDeck.Server
