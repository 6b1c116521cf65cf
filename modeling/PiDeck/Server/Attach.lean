import Mathlib
import PiDeck.Outbound.Connection
import PiDeck.Server.Principal
import PiDeck.Tasks.Model
import PiDeck.Terminal.Owner

/-! An attach over the binary protocol. It goes through the connection's own tables, the event hub,
the owner of the terminal and the outbound side, and each of them changes before the next can fail. -/
namespace PiDeck.Server
open PiDeck.Wire PiDeck.Outbound PiDeck.Terminal
open PiDeck.Tasks (Value)

structure TerminalWsCommand where
  requestId : String
  op : String
  args : List Value

/-- A decoded ATTACH frame; a payload that is no command is `none`. -/
structure AttachFrame where
  streamId : ℕ
  position : StreamPosition
  command : Option TerminalWsCommand

/-- What becomes of a command to the owner of a terminal. A lost one is carried out, and its answer
does not come in time. -/
inductive Delivered
  | answered
  | refused
  | lost
  deriving DecidableEq

/-- What the attach meets outside the tables: the clock and a fresh identifier for a lease, the
owner's mailbox, the snapshot unless it is too long, the archive of a terminal that has ended, and
the text of the answer. -/
structure AttachSurroundings where
  now : ℤ
  draw : String
  acquire : Delivered
  attach : Delivered
  cut : Option (ℕ × Bytes)
  archive : Option ℕ
  response : Bytes

inductive AttachError
  | scopeDenied (channel : String)
  | invalid (message : String)
  | notFound (id : String)
  | runtime (message : String)
  | terminal (error : TerminalError)
  deriving DecidableEq

/-- What an attach that succeeds tells: the position of the cut, the stream, and the snapshot if the
terminal is live. -/
structure TerminalAttach where
  lastSequence : ℕ
  streamId : ℕ
  streamEpoch : ℕ
  snapshot : Option Bytes
  deriving DecidableEq

/-- The owners of the live terminals, the hub's subscribers, and the tables of one connection. A
stream has its terminal, its epoch and its positions. -/
structure AttachHost where
  terminals : String → Option TerminalRuntime
  subscribers : String → Finset String
  outbound : ConnectionOutbound
  attached : Finset String
  raw : Finset String
  terminalStreams : ℕ → Option (String × ℕ × ℕ × ℕ)

inductive AttachResult
  | closed
  | answered (ok : Bool)
  deriving DecidableEq

def validAttachArgs (args : List Value) : Bool :=
  decide (1 ≤ args.length ∧ args.length ≤ 3) &&
    (args[0]?.bind Value.asStr).isSome &&
    (args[1]?.all Value.isNumber) &&
    (args[2]?.all fun mode => decide (mode.asStr ∈ [some "raw", some "semantic", some "both"]))

/-- `string`: the text at an index, which may not be empty. -/
def stringArg (args : List Value) (index : ℕ) : Option String :=
  (args[index]?.bind Value.asStr).filter fun value => decide (value ≠ "")

namespace AttachHost

variable (host : AttachHost) (env : AttachSurroundings)

def setTerminal (id : String) (runtime : TerminalRuntime) : AttachHost :=
  { host with terminals := Function.update host.terminals id (some runtime) }

/-- A command to the owner of a terminal. -/
def request {α : Type} (id : String) (delivered : Delivered)
    (handled : TerminalRuntime × Except AttachError α) : AttachHost × Except AttachError α :=
  match delivered with
  | .refused => (host, .error (.runtime "terminal reactor mailbox is full"))
  | .lost => (host.setTerminal id handled.1, .error (.runtime "terminal reactor reply timed out"))
  | .answered => (host.setTerminal id handled.1, handled.2)

def leaseMode (principal : Principal) : TerminalLeaseMode :=
  if principal.canControl then .writer else .observer

def acquireLease (principal : Principal) (id : String) : AttachHost × Except AttachError Unit :=
  match host.terminals id with
  | none => (host, .ok ())
  | some runtime =>
    let acquired := runtime.acquireLease principal.principalId principal.connectionId
      (leaseMode principal) env.now env.draw
    host.request id env.acquire
      (acquired.1, (acquired.2.mapError AttachError.terminal).map fun _ => ())

/-- The owner on ATTACH: the client counts as attached before the snapshot is taken. -/
def attachOwner (runtime : TerminalRuntime) (connectionId : String) :
    TerminalRuntime × Except AttachError TerminalAttach :=
  (runtime.attach connectionId,
    match env.cut with
    | none => .error (.runtime "authoritative terminal snapshot exceeds the protocol budget")
    | some (sequence, snapshot) =>
      .ok ⟨sequence, terminalStreamId runtime.id, terminalStreamId runtime.terminalEpoch,
        some snapshot⟩)

def attachTerminal (id connectionId : String) : AttachHost × Except AttachError TerminalAttach :=
  match host.terminals id with
  | some runtime => host.request id env.attach (attachOwner env runtime connectionId)
  | none =>
    match env.archive with
    | none => (host, .error (.notFound id))
    | some lastSequence =>
      (host, .ok ⟨lastSequence, terminalStreamId id, terminalStreamId id, none⟩)

def attachTerminalBinary (principal : Principal) (args : List Value) :
    AttachHost × Except AttachError TerminalAttach :=
  if principal.canObserve = false then (host, .error (.scopeDenied "terminal:attach"))
  else if validAttachArgs args = false then (host, .error (.invalid "terminal:attach"))
  else
    match stringArg args 0 with
    | none => (host, .error (.invalid "argument 0 must be a string"))
    | some id =>
      if (args[2]?.bind Value.asStr) ∈ [some "semantic", some "both"] then
        (host, .error (.invalid "semantic terminal mode is not available on this host"))
      else
        match host.acquireLease env principal id with
        | (host, .error error) => (host, .error error)
        | (host, .ok ()) => host.attachTerminal env id principal.connectionId

/-- The marks that are made before the runtime is asked. -/
def mark (id connectionId : String) (acknowledged : ℕ) (mode : String) : AttachHost :=
  let raw := if mode = "raw" ∨ mode = "both" then insert id host.raw else host.raw
  { host with
    attached := insert id host.attached
    raw := raw
    outbound := host.outbound.attach id acknowledged
    subscribers :=
      if id ∈ raw then
        Function.update host.subscribers id (insert connectionId (host.subscribers id))
      else host.subscribers }

/-- What takes them back. -/
def unmark (id connectionId : String) : AttachHost :=
  { host with
    attached := host.attached.erase id
    raw := host.raw.erase id
    outbound := host.outbound.detach id
    subscribers := Function.update host.subscribers id ((host.subscribers id).erase connectionId) }

def closeWith (code : ℕ) (reason : String) : AttachHost × AttachResult :=
  ({ host with outbound := host.outbound.closeWith code reason }, .closed)

def answer (id : String) (attach : Option TerminalAttach) : AttachHost × AttachResult :=
  let (outbound, enqueued) := host.outbound.enqueueAttachResult id
    (attach.map TerminalAttach.lastSequence)
    (attach.map fun attach => (attach.streamId, attach.streamEpoch))
    (attach.bind TerminalAttach.snapshot) attach.isSome env.response
  ({ host with outbound := outbound }, if enqueued then .answered attach.isSome else .closed)

def handleBinaryAttach (principal : Principal) (frame : AttachFrame) : AttachHost × AttachResult :=
  if frame.streamId ≠ 0 ∨ frame.position.epoch ≠ 0 ∨ frame.position.sequence = 0 then
    host.closeWith 1002 "invalid ATTACH frame header"
  else
    match frame.command with
    | none => host.closeWith 1002 "invalid ATTACH payload"
    | some command =>
      if command.requestId = "" ∨ command.op ≠ "terminal:attach" then
        host.closeWith 1002 "mismatched ATTACH operation"
      else
        match command.args[0]?.bind Value.asStr with
        | none => host.closeWith 1002 "ATTACH terminal ID is required"
        | some id =>
          let acknowledged := (command.args[1]?.bind Value.asU64).getD 0
          let mode := (command.args[2]?.bind Value.asStr).getD "raw"
          let marked := host.mark id principal.connectionId acknowledged mode
          match marked.attachTerminalBinary env principal command.args with
          | (host, .ok attach) =>
            AttachHost.answer
              { host with
                terminalStreams := Function.update host.terminalStreams attach.streamId
                  (some (id, attach.streamEpoch, 0, 0)) } env id (some attach)
          | (host, .error _) => (host.unmark id principal.connectionId).answer env id none

end AttachHost
end PiDeck.Server
