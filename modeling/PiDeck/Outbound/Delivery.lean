import PiDeck.Collections.Segments
import PiDeck.Outbound.Connection
import PiDeck.Transition.Machine

/-! One connection with the terminals that emit to it. The reader task of the socket performs an
attach as a sequence of steps, between which emissions and the socket writer interleave; the owner
of a terminal sequences its output and takes snapshots, so a snapshot cuts at the last byte it
emitted. -/
namespace PiDeck.Outbound
open PiDeck.Wire PiDeck.Collections PiDeck.Transition

/-- Where the reader task stands in the attach that it is performing, if any. -/
inductive ReaderPhase
  | idle
  | fenced (terminalId : String)
  | registered (terminalId : String)
  | cut (terminalId : String) (sequence : ℕ)
  | ended
  deriving DecidableEq

def ReaderPhase.attaches : ReaderPhase → Option String
  | .fenced t | .registered t | .cut t _ => some t
  | .idle | .ended => none

/-- `output` is what each terminal has emitted so far; its length is the byte sequence. -/
structure Delivery where
  outbound : ConnectionOutbound
  terminalEpoch : String → String
  eventSequence : ℕ
  output : String → Bytes
  subscribed : Finset String
  reader : ReaderPhase

/-- The kinds of frames that are sent outside an attach and outside live delivery. -/
def FrameType.isReply : FrameType → Bool
  | .pong | .resyncBegin | .controlAck | .error | .sessionExit | .scrollbackEnd => true
  | _ => false

def FrameType.isHistory : FrameType → Bool
  | .scrollbackBegin | .scrollbackChunk | .scrollbackEnd => true
  | _ => false

inductive DeliveryEvent
  | emit (terminalId : String) (data : Bytes)
  | pop (frame : OutboundFrame)
  | popClose (code : ℕ) (reason : String)
  | acknowledge (terminalId : String) (sequence : ℕ)
  | beginAttach (terminalId : String) (acknowledged : ℕ)
  | register
  | takeSnapshot
  | finishAttach (snapshot : Option Bytes) (data : Bytes)
  | failAttach (data : Bytes)
  | unsubscribe (terminalId : String)
  | detach (terminalId : String)
  | reply (kind : FrameType) (streamId epoch sequence : ℕ) (payload : Bytes)
  | text (data : Bytes)
  | history (frames : List Frame)
  | close (code : ℕ) (reason : String)
  | stop
  | disconnect

namespace Delivery

def streamOf (s : Delivery) (terminalId : String) : ℕ × ℕ :=
  (terminalStreamId terminalId, terminalStreamId (s.terminalEpoch terminalId))

/-- The owner sequences output and the hub hands the frame to the subscriber. An unencodable frame
stops the owner, so there is no such step. -/
def emit (s : Delivery) (terminalId : String) (data : Bytes) : Option Delivery :=
  let sequence := (s.output terminalId).length + data.length
  let (streamId, streamEpoch) := s.streamOf terminalId
  match Frame.encoded .ptyData streamId ⟨streamEpoch, sequence⟩ data with
  | .error _ => none
  | .ok wireData =>
    let frame : TerminalFrame :=
      { eventSequence := s.eventSequence + 1
        terminalId := terminalId
        streamId := streamId
        streamEpoch := streamEpoch
        chunk := ⟨sequence, data⟩
        wireData := wireData }
    some { s with
      eventSequence := s.eventSequence + 1
      output := Function.update s.output terminalId (s.output terminalId ++ data)
      outbound :=
        if terminalId ∈ s.subscribed then s.outbound.enqueueTerminal frame else s.outbound }

/-- The answer of the attach in progress is enqueued; the reader goes on only if it was taken. -/
def answer (s : Delivery) (outbound : ConnectionOutbound) (terminalId : String)
    (cut : Option (ℕ × (ℕ × ℕ))) (snapshot : Option Bytes) (data : Bytes) : Delivery :=
  let (outbound, taken) := outbound.enqueueAttachResult terminalId (cut.map Prod.fst)
    (cut.map Prod.snd) snapshot cut.isSome data
  { s with outbound := outbound, reader := if taken then .idle else .ended }

def step (s : Delivery) : DeliveryEvent → Option Delivery
  | .emit terminalId data => s.emit terminalId data
  | .pop frame =>
    match s.outbound.next with
    | some (.frame taken, outbound) =>
      if taken = frame then some { s with outbound := outbound } else none
    | _ => none
  | .popClose code reason =>
    match s.outbound.next with
    | some (.close code' reason', outbound) =>
      if code' = code ∧ reason' = reason then some { s with outbound := outbound } else none
    | _ => none
  | .acknowledge terminalId sequence =>
    if s.reader = .idle then
      some { s with outbound := s.outbound.acknowledge terminalId sequence }
    else none
  | .beginAttach terminalId acknowledged =>
    if s.reader = .idle then
      some { s with
        outbound := s.outbound.attach terminalId acknowledged
        reader := .fenced terminalId }
    else none
  | .register =>
    match s.reader with
    | .fenced terminalId =>
      some { s with subscribed := insert terminalId s.subscribed, reader := .registered terminalId }
    | _ => none
  | .takeSnapshot =>
    match s.reader with
    | .fenced terminalId | .registered terminalId =>
      some { s with reader := .cut terminalId (s.output terminalId).length }
    | _ => none
  | .finishAttach snapshot data =>
    match s.reader with
    | .cut terminalId sequence =>
      some (s.answer s.outbound terminalId (some (sequence, s.streamOf terminalId)) snapshot data)
    | _ => none
  | .failAttach data =>
    match s.reader.attaches with
    | some terminalId =>
      some ({ s with subscribed := s.subscribed.erase terminalId }.answer
        (s.outbound.detach terminalId) terminalId none none data)
    | none => none
  | .unsubscribe terminalId =>
    if s.reader = .idle then some { s with subscribed := s.subscribed.erase terminalId } else none
  | .detach terminalId =>
    if s.reader = .idle then some { s with outbound := s.outbound.detach terminalId } else none
  | .reply kind streamId epoch sequence payload =>
    if FrameType.isReply kind then
      some { s with
        outbound := (s.outbound.enqueueProtocolFrame kind streamId epoch sequence payload).1 }
    else none
  | .text data => some { s with outbound := (s.outbound.enqueueText data).1 }
  | .history frames =>
    if frames.all fun frame => FrameType.isHistory frame.kind then
      some { s with outbound := (s.outbound.enqueueHistory frames).1 }
    else none
  | .close code reason => some { s with outbound := s.outbound.closeWith code reason }
  | .stop => some { s with outbound := s.outbound.stop }
  | .disconnect =>
    if s.reader.attaches = none then some { s with subscribed := ∅, reader := .ended } else none

def initial (flowLimit : ℕ) (terminalEpoch : String → String) : Delivery :=
  { outbound := .new flowLimit
    terminalEpoch := terminalEpoch
    eventSequence := 0
    output := fun _ => []
    subscribed := ∅
    reader := .idle }

def machine : Machine Delivery DeliveryEvent := ⟨step⟩

end Delivery

/-- The frames that the socket writer took in a run. -/
def popped (events : List DeliveryEvent) : List OutboundFrame :=
  events.filterMap fun event => match event with
    | .pop frame => some frame
    | _ => none

end PiDeck.Outbound
