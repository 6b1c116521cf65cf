import Mathlib
import PiDeck.Transition.Machine
import PiDeck.Wire.Frame

/-! The client's side and the server's side of one open socket, as far as terminal streams go, with
a queue in each direction. Each side counts the input bytes and the control frames of a stream.
The output position that data frames move is left out: no check reads it. -/
namespace PiDeck.Transport
open PiDeck.Wire PiDeck.Transition

inductive HotOp
  | attach
  | ready
  | detach
  deriving DecidableEq

/-- The client's record of a stream. `attach` is the request that made the record; it is there for
the statements only. -/
structure TerminalStream where
  id : String
  epoch : ℕ
  position : ℕ
  inputPosition : ℕ
  controlPosition : ℕ
  attach : ℕ
  deriving DecidableEq

inductive ClientFrame
  | attach (sequence requestId : ℕ) (terminalId : String) (afterSequence : ℕ)
  | control (op : HotOp) (streamId epoch sequence requestId : ℕ)
  | input (streamId epoch sequence : ℕ) (payload : Bytes)
  | resize (streamId epoch sequence cols rows : ℕ)
  | scrollback (streamId epoch sequence cursor maxBytes : ℕ) (reverse : Bool)
  deriving DecidableEq

/-- A frame on its way, with the request that made the record it was built from. -/
structure Sent where
  frame : ClientFrame
  attach : ℕ
  deriving DecidableEq

/-! The client. -/

structure WebHostTransport where
  realtimeRequestSequence : ℕ
  pendingRealtime : ℕ → Option HotOp
  terminalStreams : ℕ → Option TerminalStream
  terminalStreamIds : String → Option ℕ
  pendingHistory : Finset ℕ

def maxSafeInteger : ℕ := 2 ^ 53 - 1

/-- `toU64`: positions are sent while they are safe integers. -/
def toU64 (value : ℕ) : Option ℕ := if value ≤ maxSafeInteger then some value else none

def encodeTerminalInputFrame (streamId epoch sequence : ℕ) (payload : Bytes) :
    Option ClientFrame :=
  if payload = [] then none
  else do
    let streamId ← toU64 streamId
    let epoch ← toU64 epoch
    let sequence ← toU64 sequence
    return .input streamId epoch sequence payload

def encodeTerminalResizeFrame (streamId epoch sequence : ℕ) (cols rows : ℤ) :
    Option ClientFrame :=
  if cols < 1 ∨ rows < 1 ∨ 0xffff < cols ∨ 0xffff < rows then none
  else do
    let streamId ← toU64 streamId
    let epoch ← toU64 epoch
    let sequence ← toU64 sequence
    return .resize streamId epoch sequence cols.toNat rows.toNat

def encodeTerminalScrollbackRequest (streamId epoch sequence : ℕ) (cursor maxBytes : ℤ)
    (reverse : Bool) : Option ClientFrame :=
  if cursor < 0 ∨ (maxSafeInteger : ℤ) < cursor then none
  else if maxBytes < 1 ∨ 8 * 1024 * 1024 < maxBytes then none
  else do
    let streamId ← toU64 streamId
    let epoch ← toU64 epoch
    let sequence ← toU64 sequence
    return .scrollback streamId epoch sequence cursor.toNat maxBytes.toNat reverse

namespace WebHostTransport

/-- A socket that has just opened. -/
def opened : WebHostTransport :=
  { realtimeRequestSequence := 0
    pendingRealtime := fun _ => none
    terminalStreams := fun _ => none
    terminalStreamIds := fun _ => none
    pendingHistory := ∅ }

variable (transport : WebHostTransport)

def streamFor (terminalId : String) : Option (ℕ × TerminalStream) :=
  (transport.terminalStreamIds terminalId).bind fun streamId =>
    (transport.terminalStreams streamId).map fun stream => (streamId, stream)

def setStream (streamId : ℕ) (stream : TerminalStream) : WebHostTransport :=
  { transport with
    terminalStreams := Function.update transport.terminalStreams streamId (some stream) }

def nextRequest : WebHostTransport :=
  { transport with realtimeRequestSequence := transport.realtimeRequestSequence + 1 }

def setPending (requestId : ℕ) (op : Option HotOp) : WebHostTransport :=
  { transport with pendingRealtime := Function.update transport.pendingRealtime requestId op }

/-- `invokeRealtime` for an attach. `taken` tells whether the socket takes the frame. -/
def invokeAttach (terminalId : String) (afterSequence : ℕ) (taken : Bool) :
    WebHostTransport × Option Sent :=
  let transport := transport.nextRequest
  let requestId := transport.realtimeRequestSequence
  if taken then
    (transport.setPending requestId (some .attach),
      some ⟨.attach requestId requestId terminalId afterSequence, requestId⟩)
  else (transport, none)

/-- READY and DETACH, by `invokeRealtime` or (unobserved) by `sendRealtime`. -/
def sendControl (op : HotOp) (terminalId : String) (observed taken : Bool) :
    WebHostTransport × Option Sent :=
  match transport.streamFor terminalId with
  | none => (if observed then transport.nextRequest else transport, none)
  | some (streamId, stream) =>
    let transport := transport.nextRequest
    let requestId := transport.realtimeRequestSequence
    if taken then
      (if observed then transport.setPending requestId (some op) else transport,
        some ⟨.control op streamId stream.epoch stream.position requestId, stream.attach⟩)
    else (transport, none)

def timeout (requestId : ℕ) : WebHostTransport := transport.setPending requestId none

/-- `sendRealtime` for input. What is not sent is taken back from the position. -/
def write (terminalId : String) (payload : Bytes) (taken : Bool) :
    WebHostTransport × Option Sent × Bool :=
  match transport.streamFor terminalId with
  | none => (transport, none, false)
  | some (streamId, stream) =>
    if payload = [] then (transport, none, true)
    else
      let inputPosition := stream.inputPosition + payload.length
      match encodeTerminalInputFrame streamId stream.epoch inputPosition payload, taken with
      | some frame, true =>
        (transport.setStream streamId { stream with inputPosition := inputPosition },
          some ⟨frame, stream.attach⟩, true)
      | _, _ => (transport, none, false)

def resize (terminalId : String) (cols rows : ℤ) (taken : Bool) :
    WebHostTransport × Option Sent × Bool :=
  match transport.streamFor terminalId with
  | none => (transport, none, false)
  | some (streamId, stream) =>
    let controlPosition := stream.controlPosition + 1
    match encodeTerminalResizeFrame streamId stream.epoch controlPosition cols rows, taken with
    | some frame, true =>
      (transport.setStream streamId { stream with controlPosition := controlPosition },
        some ⟨frame, stream.attach⟩, true)
    | _, _ => (transport, none, false)

/-- The request is encoded before the promise whose handler takes the position back, so a request
that cannot be encoded leaves it advanced. -/
def readTerminalHistory (terminalId : String) (cursor maxBytes : ℤ) (reverse taken : Bool) :
    WebHostTransport × Option Sent :=
  match transport.streamFor terminalId with
  | none => (transport, none)
  | some (streamId, stream) =>
    if streamId ∈ transport.pendingHistory then (transport, none)
    else
      let controlPosition := stream.controlPosition + 1
      let advanced := transport.setStream streamId { stream with controlPosition := controlPosition }
      match encodeTerminalScrollbackRequest streamId stream.epoch controlPosition cursor maxBytes
          reverse with
      | none => (advanced, none)
      | some frame =>
        if taken then
          ({ advanced with pendingHistory := insert streamId transport.pendingHistory },
            some ⟨frame, stream.attach⟩)
        else (transport, none)

/-- A page is complete, is refused, or times out. -/
def historyEnds (streamId : ℕ) : WebHostTransport :=
  { transport with pendingHistory := transport.pendingHistory.erase streamId }

end WebHostTransport

inductive ServerFrame
  | attachAck (requestId streamId epoch : ℕ) (terminalId : String) (lastSequence : ℕ)
  | controlAck (requestId : ℕ)
  | error (requestId : Option ℕ)
  deriving DecidableEq

/-- `resolveRealtime`: an answer that no pending request waits for is dropped. -/
def WebHostTransport.resolveRealtime (transport : WebHostTransport) :
    ServerFrame → WebHostTransport
  | .attachAck requestId streamId epoch terminalId lastSequence =>
    match transport.pendingRealtime requestId with
    | some .attach =>
      let transport := transport.setPending requestId none
      if streamId ≤ maxSafeInteger ∧ epoch ≤ maxSafeInteger ∧ lastSequence ≤ maxSafeInteger then
        { transport.setStream streamId
            { id := terminalId
              epoch := epoch
              position := lastSequence
              inputPosition := 0
              controlPosition := 0
              attach := requestId } with
          terminalStreamIds :=
            Function.update transport.terminalStreamIds terminalId (some streamId) }
      else transport
    | _ => transport.setPending requestId none
  | .controlAck requestId => transport.setPending requestId none
  | .error (some requestId) => transport.setPending requestId none
  | .error none => transport

/-! The server. -/

structure ServerStream where
  terminalId : String
  epoch : ℕ
  inputPosition : ℕ
  controlPosition : ℕ
  attach : ℕ
  deriving DecidableEq

namespace ServerStream

/-- The positions are saturating `u64`s. -/
def expectedInput (stream : ServerStream) (payload : Bytes) : ℕ :=
  min (stream.inputPosition + payload.length) (2 ^ 64 - 1)

def expectedControl (stream : ServerStream) : ℕ := min (stream.controlPosition + 1) (2 ^ 64 - 1)

end ServerStream

structure StreamServer where
  terminalStreams : ℕ → Option ServerStream
  closed : Option (ℕ × String)

/-- What the runtime makes of a frame that the socket's checks let through. -/
inductive Outcome
  | attached (epoch lastSequence : ℕ)
  | done
  | failed
  deriving DecidableEq

def inputGap : String := "terminal input sequence gap"
def controlGap : String := "terminal control sequence gap"
def invalidAttach : String := "invalid ATTACH frame header"

namespace StreamServer

variable (server : StreamServer)

def setStream (streamId : ℕ) (stream : Option ServerStream) : StreamServer :=
  { server with terminalStreams := Function.update server.terminalStreams streamId stream }

def closeWith (code : ℕ) (reason : String) : StreamServer × List ServerFrame :=
  ({ server with closed := some (code, reason) }, [])

/-- Enqueue an answer; if the outbound side does not take it, the connection ends. -/
def answer (reply : List ServerFrame) (enqueued : Bool) : StreamServer × List ServerFrame :=
  if enqueued then (server, reply) else server.closeWith 1013 "reliable outbound mailbox overflow"

/-- Input and resizes answer only when they fail. -/
def report (outcome : Outcome) (enqueued : Bool) : StreamServer × List ServerFrame :=
  if outcome = .failed then server.answer [.error none] enqueued else (server, [])

/-- `handle_binary_attach`. -/
def handleAttach (sequence requestId : ℕ) (terminalId : String) (outcome : Outcome)
    (enqueued : Bool) : StreamServer × List ServerFrame :=
  if sequence = 0 then server.closeWith 1002 invalidAttach
  else
    match outcome with
    | .attached epoch lastSequence =>
      let streamId := terminalStreamId terminalId
      (server.setStream streamId (some
        { terminalId := terminalId
          epoch := epoch
          inputPosition := 0
          controlPosition := 0
          attach := requestId })).answer
        [.attachAck requestId streamId epoch terminalId lastSequence] enqueued
    | _ => server.answer [.error (some requestId)] enqueued

/-- The main loop on one binary frame. -/
def handleFrame (frame : ClientFrame) (outcome : Outcome) (enqueued : Bool) :
    StreamServer × List ServerFrame :=
  -- The stream of a frame must be known and of the frame's epoch before anything else is checked.
  let onStream (streamId epoch : ℕ) (handle : ServerStream → StreamServer × List ServerFrame) :=
    match server.terminalStreams streamId with
    | none => server.closeWith 1002 "unknown terminal stream"
    | some stream =>
      if epoch ≠ stream.epoch then server.closeWith 1002 "stale terminal stream epoch"
      else handle stream
  match frame with
  | .attach sequence requestId terminalId _ =>
    server.handleAttach sequence requestId terminalId outcome enqueued
  | .control op streamId epoch _ requestId => onStream streamId epoch fun _ =>
    let reply := if outcome = .done then ServerFrame.controlAck requestId else .error (some requestId)
    let (server, sent) := server.answer [reply] enqueued
    (if op = .detach ∧ enqueued then server.setStream streamId none else server, sent)
  | .input streamId epoch sequence payload =>
    if defaultMaxPayload < payload.length then
      server.closeWith 1002 "invalid terminal binary frame"
    else onStream streamId epoch fun stream =>
      let expected := stream.expectedInput payload
      if sequence ≠ expected then server.closeWith 1002 inputGap
      else
        (server.setStream streamId (some { stream with inputPosition := expected })).report outcome
          enqueued
  | .resize streamId epoch sequence _ _ => onStream streamId epoch fun stream =>
    let expected := stream.expectedControl
    if sequence ≠ expected then server.closeWith 1002 controlGap
    else
      (server.setStream streamId (some { stream with controlPosition := expected })).report outcome
        enqueued
  | .scrollback streamId epoch sequence _ maxBytes _ => onStream streamId epoch fun stream =>
    let expected := stream.expectedControl
    if sequence ≠ expected then server.closeWith 1002 controlGap
    else if ¬ (1 ≤ maxBytes ∧ maxBytes ≤ 256 * 1024) then
      server.closeWith 1002 "invalid scrollback byte limit"
    else (server.setStream streamId (some { stream with controlPosition := expected }), [])

end StreamServer

/-! The socket between them. -/

structure Link where
  client : WebHostTransport
  server : StreamServer
  toServer : List Sent
  toClient : List ServerFrame

inductive LinkAction
  | attach (terminalId : String) (afterSequence : ℕ) (taken : Bool)
  | control (op : HotOp) (terminalId : String) (observed taken : Bool)
  | timeout (requestId : ℕ)
  | write (terminalId : String) (payload : Bytes) (taken : Bool)
  | resize (terminalId : String) (cols rows : ℤ) (taken : Bool)
  | readHistory (terminalId : String) (cursor maxBytes : ℤ) (reverse taken : Bool)
  | historyEnds (streamId : ℕ)
  | serve (outcome : Outcome) (enqueued : Bool)
  | receive

namespace Link

/-- A client call and the frame it puts on the socket, if any. -/
def sends (s : Link) (client : WebHostTransport) (sent : Option Sent) : Link :=
  { s with client := client, toServer := s.toServer ++ sent.toList }

def step (s : Link) : LinkAction → Option Link
  | .attach terminalId afterSequence taken =>
    let (client, sent) := s.client.invokeAttach terminalId afterSequence taken
    some (s.sends client sent)
  | .control op terminalId observed taken =>
    if op = .attach then none
    else
      let (client, sent) := s.client.sendControl op terminalId observed taken
      some (s.sends client sent)
  | .timeout requestId => some { s with client := s.client.timeout requestId }
  | .write terminalId payload taken =>
    let (client, sent, _) := s.client.write terminalId payload taken
    some (s.sends client sent)
  | .resize terminalId cols rows taken =>
    let (client, sent, _) := s.client.resize terminalId cols rows taken
    some (s.sends client sent)
  | .readHistory terminalId cursor maxBytes reverse taken =>
    let (client, sent) := s.client.readTerminalHistory terminalId cursor maxBytes reverse taken
    some (s.sends client sent)
  | .historyEnds streamId => some { s with client := s.client.historyEnds streamId }
  | .serve outcome enqueued =>
    match s.server.closed, s.toServer with
    | none, sent :: rest =>
      let (server, replies) := s.server.handleFrame sent.frame outcome enqueued
      some { s with server := server, toServer := rest, toClient := s.toClient ++ replies }
    | _, _ => none
  | .receive =>
    match s.toClient with
    | reply :: rest =>
      some { s with client := s.client.resolveRealtime reply, toClient := rest }
    | [] => none

def machine : Machine Link LinkAction := ⟨step⟩

def initial : Link :=
  { client := .opened
    server := ⟨fun _ => none, none⟩
    toServer := []
    toClient := [] }

end Link
end PiDeck.Transport
