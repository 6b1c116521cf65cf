import Mathlib
import PiDeck.Outbound.Mailbox

/-! The outbound side of one connection that speaks the binary protocol: flow control, attach
fences and resynchronization around the mailbox. Metrics are left out. -/
namespace PiDeck.Outbound
open PiDeck.Wire

structure TerminalFlow where
  acknowledged : ℕ
  sent : List (ℕ × ℕ)
  unacknowledgedBytes : ℕ

namespace TerminalFlow

def new (acknowledged : ℕ) : TerminalFlow := ⟨acknowledged, [], 0⟩

def reserve (flow : TerminalFlow) (sequence bytes limit : ℕ) : TerminalFlow × Bool :=
  if sequence ≤ flow.acknowledged then (flow, false)
  else if limit < flow.unacknowledgedBytes + bytes then (flow, false)
  else
    ({ flow with
      sent := flow.sent ++ [(sequence, bytes)]
      unacknowledgedBytes := flow.unacknowledgedBytes + bytes }, true)

def acknowledge (flow : TerminalFlow) (sequence : ℕ) : TerminalFlow :=
  if sequence ≤ flow.acknowledged then flow
  else
    let covered := flow.sent.takeWhile fun sent => decide (sent.1 ≤ sequence)
    { acknowledged := sequence
      sent := flow.sent.dropWhile fun sent => decide (sent.1 ≤ sequence)
      unacknowledgedBytes := flow.unacknowledgedBytes - (covered.map Prod.snd).sum }

def desynchronize (flow : TerminalFlow) : TerminalFlow :=
  { flow with sent := [], unacknowledgedBytes := 0 }

end TerminalFlow

structure TerminalChunk where
  sequence : ℕ
  data : Bytes

structure TerminalFrame where
  eventSequence : ℕ
  terminalId : String
  streamId : ℕ
  streamEpoch : ℕ
  chunk : TerminalChunk
  wireData : Frame

structure ConnectionOutbound where
  flowLimit : ℕ
  mailbox : OutboundMailbox
  flow : String → Option TerminalFlow
  replayRequired : Finset String
  attaching : Finset String
  close : Option (ℕ × String)
  stopped : Bool

inductive NextOutbound
  | frame (frame : OutboundFrame)
  | close (code : ℕ) (reason : String)

namespace ConnectionOutbound

def new (flowLimit : ℕ) : ConnectionOutbound :=
  { flowLimit := flowLimit
    mailbox := .new default
    flow := fun _ => none
    replayRequired := ∅
    attaching := ∅
    close := none
    stopped := false }

variable (outbound : ConnectionOutbound)

def setFlow (terminalId : String) (flow : Option TerminalFlow) : ConnectionOutbound :=
  { outbound with flow := Function.update outbound.flow terminalId flow }

/-- `close`: the first reason is kept. -/
def closeWith (code : ℕ) (reason : String) : ConnectionOutbound :=
  { outbound with close := outbound.close.or (some (code, reason)) }

def stop : ConnectionOutbound := { outbound with stopped := true }

def enqueueReliableFrame (frame : OutboundFrame) : ConnectionOutbound × Bool :=
  if outbound.stopped ∨ outbound.close.isSome then (outbound, false)
  else
    let (mailbox, result) := outbound.mailbox.enqueueReliable frame
    if result.accepted then ({ outbound with mailbox := mailbox }, true)
    else ({ outbound with close := some (1013, "reliable outbound mailbox overflow") }, false)

def enqueueText (text : Bytes) : ConnectionOutbound × Bool :=
  outbound.enqueueReliableFrame (.text text)

def enqueueProtocolFrame (kind : FrameType) (streamId epoch sequence : ℕ) (payload : Bytes) :
    ConnectionOutbound × Bool :=
  match Frame.encoded kind streamId ⟨epoch, sequence⟩ payload with
  | .ok frame => outbound.enqueueReliableFrame (.binary frame)
  | .error _ => (outbound.closeWith 1011 "terminal protocol frame serialization failed", false)

def enqueueHistory (frames : List Frame) : ConnectionOutbound × Bool :=
  if outbound.stopped ∨ outbound.close.isSome then (outbound, false)
  else
    let (mailbox, result) := outbound.mailbox.enqueueHistoryBatch (frames.map .binary)
    if result.accepted then ({ outbound with mailbox := mailbox }, true) else (outbound, false)

/-- Raise the fence of a terminal before its snapshot is taken. -/
def attach (terminalId : String) (acknowledged : ℕ) : ConnectionOutbound :=
  { outbound.setFlow terminalId (some (.new acknowledged)) with
    replayRequired := outbound.replayRequired.erase terminalId
    attaching := insert terminalId outbound.attaching }

def detach (terminalId : String) : ConnectionOutbound :=
  { outbound.setFlow terminalId none with
    replayRequired := outbound.replayRequired.erase terminalId
    attaching := outbound.attaching.erase terminalId }

def acknowledge (terminalId : String) (sequence : ℕ) : ConnectionOutbound :=
  match outbound.flow terminalId with
  | some flow => outbound.setFlow terminalId (some (flow.acknowledge sequence))
  | none => outbound

/-- Push one frame of an attach answer. A failure leaves the reason to close. -/
def pushPriority (encoded : Except ProtocolError Frame) (unserializable overflow : String) :
    Except ConnectionOutbound ConnectionOutbound :=
  match encoded with
  | .error _ => .error { outbound with close := some (1011, unserializable) }
  | .ok frame =>
    let (mailbox, result) := outbound.mailbox.enqueueReliablePriority (.binary frame)
    if result.accepted then .ok { outbound with mailbox := mailbox }
    else .error { outbound with close := some (1013, overflow) }

/-- The stream position of an attach answer is the snapshot cut. -/
def pushSnapshot (streamId epoch sequence : ℕ) (snapshot : Option Bytes) :
    Except ConnectionOutbound ConnectionOutbound :=
  match snapshot with
  | some snapshot =>
    outbound.pushPriority (Frame.encoded .snapshot streamId ⟨epoch, sequence⟩ snapshot)
      "SNAPSHOT frame serialization failed" "SNAPSHOT frame mailbox overflow"
  | none => .ok outbound

def pushReady (streamId epoch sequence : ℕ) : Except ConnectionOutbound ConnectionOutbound :=
  outbound.pushPriority (Frame.encoded .ready streamId ⟨epoch, sequence⟩ [])
    "READY frame serialization failed" "READY frame mailbox overflow"

/-- Drop the live frames that the snapshot contains and count them as acknowledged. -/
def cutThrough (terminalId : String) (sequence : ℕ) : ConnectionOutbound :=
  { outbound.acknowledge terminalId sequence with
    mailbox := outbound.mailbox.discardTerminalThrough terminalId sequence }

/-- What follows the acknowledgement of an attach. -/
def answerAttach (terminalId : String) (snapshotSequence : Option ℕ) (stream : Option (ℕ × ℕ))
    (snapshot : Option Bytes) : Except ConnectionOutbound ConnectionOutbound :=
  match snapshotSequence, stream with
  | some sequence, some (streamId, epoch) =>
    match (outbound.cutThrough terminalId sequence).pushSnapshot streamId epoch sequence snapshot with
    | .error failed => .error failed
    | .ok outbound => outbound.pushReady streamId epoch sequence
  | some sequence, none => .ok (outbound.cutThrough terminalId sequence)
  | none, _ =>
    .ok { outbound.setFlow terminalId none with
      replayRequired := outbound.replayRequired.erase terminalId }

/-- Enqueue the answer of an attach and lower the fence. A failed answer keeps the fence up. -/
def enqueueAttachResult (terminalId : String) (snapshotSequence : Option ℕ)
    (stream : Option (ℕ × ℕ)) (snapshot : Option Bytes) (ok : Bool) (data : Bytes) :
    ConnectionOutbound × Bool :=
  let (streamId, epoch) := stream.getD (0, 0)
  match Frame.encoded (if ok then .attachAck else .error) streamId
      ⟨epoch, snapshotSequence.getD 0⟩ data with
  | .error _ => (outbound.closeWith 1011 "ATTACH_ACK frame serialization failed", false)
  | .ok frame =>
    match outbound.pushPriority (.ok frame) "" "attach result mailbox overflow" with
    | .error failed => (failed, false)
    | .ok outbound =>
      match outbound.answerAttach terminalId snapshotSequence stream snapshot with
      | .error failed => (failed, false)
      | .ok outbound => ({ outbound with attaching := outbound.attaching.erase terminalId }, true)

def encodeResyncBegin (frame : TerminalFrame) (acknowledged : ℕ) : Except ProtocolError Frame :=
  Frame.encoded .resyncBegin frame.streamId ⟨frame.streamEpoch, acknowledged⟩ []

/-- Give up on the queued deltas of a terminal and tell the client to resynchronize. -/
def desynchronize (frame : TerminalFrame) (flow : TerminalFlow) (unserializable : String) :
    ConnectionOutbound :=
  let mailbox := outbound.mailbox.discardTerminal frame.terminalId
  let outbound :=
    { outbound.setFlow frame.terminalId (some flow.desynchronize) with
      mailbox := mailbox
      replayRequired := insert frame.terminalId outbound.replayRequired }
  match encodeResyncBegin frame flow.acknowledged with
  | .error _ => { outbound with close := some (1011, unserializable) }
  | .ok resync =>
    let (mailbox, result) := mailbox.enqueueReliable (.binary resync)
    if result.accepted then { outbound with mailbox := mailbox }
    else { outbound with close := some (1013, "replay fence mailbox overflow") }

def enqueueTerminal (frame : TerminalFrame) : ConnectionOutbound :=
  if outbound.stopped ∨ outbound.close.isSome ∨ frame.terminalId ∈ outbound.replayRequired then
    outbound
  else
    match outbound.flow frame.terminalId with
    | none => outbound
    | some flow =>
      match flow.reserve frame.chunk.sequence frame.chunk.data.length outbound.flowLimit with
      | (_, false) => outbound.desynchronize frame flow "resync frame serialization failed"
      | (reserved, true) =>
        let outbound := outbound.setFlow frame.terminalId (some reserved)
        let (mailbox, result) := outbound.mailbox.enqueueLegacy frame.terminalId
          (.terminal frame.terminalId frame.chunk.sequence frame.wireData)
        if result.accepted then { outbound with mailbox := mailbox }
        else outbound.desynchronize frame reserved "replay fence serialization failed"

/-- What the socket writer takes next; it waits while there is nothing to take. -/
def next : Option (NextOutbound × ConnectionOutbound) :=
  match (if outbound.attaching = ∅ then outbound.mailbox.popNext else none) with
  | some (frame, mailbox) => some (.frame frame, { outbound with mailbox := mailbox })
  | none =>
    match outbound.close with
    | some (code, reason) =>
      some (.close code reason, { outbound with close := none, stopped := true })
    | none => none

end ConnectionOutbound
end PiDeck.Outbound
