import Mathlib

/-! Frames of the binary terminal protocol and the checks made when one is built and encoded. A
coalesced frame is kept in decoded form; its length is the header's plus the payload's. -/
namespace PiDeck.Wire

inductive FrameType
  | hello
  | attach
  | attachAck
  | snapshot
  | ready
  | ptyData
  | input
  | resize
  | scrollbackBegin
  | scrollbackChunk
  | scrollbackEnd
  | resyncRequest
  | resyncBegin
  | sessionExit
  | error
  | ping
  | pong
  | detach
  | controlAck
  deriving DecidableEq, Repr

/-- A location in a logical terminal stream. -/
structure StreamPosition where
  epoch : ℕ
  sequence : ℕ
  deriving DecidableEq, Repr

abbrev Bytes := List UInt8

structure Frame where
  kind : FrameType
  flags : ℕ
  streamId : ℕ
  position : StreamPosition
  payload : Bytes
  deriving DecidableEq

inductive ProtocolError
  | badMagic
  | unsupportedVersion (version : UInt8)
  | unknownType (code : UInt8)
  | unknownFlags (flags : ℕ)
  | invalidHeaderLength (length : ℕ)
  | payloadTooLarge (size max : ℕ)
  | lengthOverflow
  | emptyData
  | invalidPayloadLength (kind : FrameType) (expected actual : ℕ)
  | invalidPosition
  deriving DecidableEq

def headerLen : ℕ := 36
def defaultMaxPayload : ℕ := 8 * 1024 * 1024

def validateFrame (kind : FrameType) (flags : ℕ) (position : StreamPosition) (payload : Bytes) :
    Except ProtocolError Unit :=
  if flags ≠ 0 then .error (.unknownFlags flags)
  else if (kind = .snapshot ∨ kind = .ptyData ∨ kind = .input) ∧ payload = [] then .error .emptyData
  else if kind = .ptyData ∧ position.sequence < payload.length then .error .invalidPosition
  else if kind = .resize ∧ payload.length ≠ 4 then
    .error (.invalidPayloadLength kind 4 payload.length)
  else .ok ()

namespace Frame

def new (kind : FrameType) (flags streamId : ℕ) (position : StreamPosition) (payload : Bytes) :
    Except ProtocolError Frame :=
  match validateFrame kind flags position payload with
  | .error e => .error e
  | .ok () => .ok ⟨kind, flags, streamId, position, payload⟩

/-- `Codec::encode` with the default payload limit, followed by `coalesce`. -/
def encode (frame : Frame) : Except ProtocolError Frame :=
  if defaultMaxPayload < frame.payload.length then
    .error (.payloadTooLarge frame.payload.length defaultMaxPayload)
  else
    match validateFrame frame.kind frame.flags frame.position frame.payload with
    | .error e => .error e
    | .ok () => .ok frame

/-- Build a frame without flags and encode it. -/
def encoded (kind : FrameType) (streamId : ℕ) (position : StreamPosition) (payload : Bytes) :
    Except ProtocolError Frame :=
  match new kind 0 streamId position payload with
  | .error e => .error e
  | .ok frame => frame.encode

def encodedLength (frame : Frame) : ℕ := headerLen + frame.payload.length

/-- The first byte of the inclusive range that a data frame covers. -/
def firstByte (frame : Frame) : ℕ := frame.position.sequence - frame.payload.length + 1

variable {kind : FrameType} {streamId : ℕ} {position : StreamPosition} {payload : Bytes}
  {frame : Frame}

theorem encoded_ok (h : encoded kind streamId position payload = .ok frame) :
    frame = ⟨kind, 0, streamId, position, payload⟩ := by
  unfold encoded new encode at h
  cases hv : validateFrame kind 0 position payload with
  | error e => simp [hv] at h
  | ok u =>
    simp only [hv] at h
    split at h
    · cases h
    · cases h
      rfl

/-- An encoded data frame is not empty and its bytes lie within the stream. -/
theorem encoded_ptyData (h : encoded .ptyData streamId position payload = .ok frame) :
    payload ≠ [] ∧ payload.length ≤ position.sequence := by
  unfold encoded new at h
  cases hv : validateFrame .ptyData 0 position payload with
  | error e => simp [hv] at h
  | ok u =>
    unfold validateFrame at hv
    simp only [ne_eq, not_true_eq_false, if_false, reduceCtorEq, true_or, or_true, true_and,
      false_and] at hv
    split at hv
    · cases hv
    · rename_i hne
      split at hv
      · cases hv
      · rename_i hlt
        exact ⟨hne, Nat.le_of_not_lt hlt⟩

end Frame

/-- FNV-1a over the UTF-8 bytes, kept to 53 bits and never zero. -/
def terminalStreamId (value : String) : ℕ :=
  let hash := value.toUTF8.data.toList.foldl
    (fun (hash : UInt64) byte => (hash ^^^ byte.toUInt64) * 0x100000001b3) 0xcbf29ce484222325
  max (hash.toNat % 2 ^ 53) 1

end PiDeck.Wire
