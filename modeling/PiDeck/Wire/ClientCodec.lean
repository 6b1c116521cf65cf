import Mathlib
import PiDeck.Wire.Codec

/-! The client's codec. It decodes the frames that the server sends and encodes those that it sends
itself, and it must agree with the server's codec on both. `JSON.stringify` and the text decoder are
parameters: nothing depends on what they do. -/
namespace PiDeck.Wire.Client
open PiDeck.Storage PiDeck.Wire

/-- A JavaScript number; `other` is one that is no integer. -/
inductive Number
  | integer (value : ℤ)
  | other
  deriving DecidableEq

def maxSafeInteger : ℕ := 2 ^ 53 - 1

/-- `toU64`, which throws unless the number is a safe integer and not negative. -/
def toU64 : Number → Option ℕ
  | .integer value => if 0 ≤ value ∧ value ≤ maxSafeInteger then some value.toNat else none
  | .other => none

/-- `fromU64`. -/
def fromU64 (value : ℕ) : Option ℕ := if maxSafeInteger < value then none else some value

/-! ### Decoding -/

/-- The frame types that the client takes. -/
inductive DecodedFrameType
  | hello
  | attachAck
  | snapshot
  | ready
  | ptyData
  | scrollbackBegin
  | scrollbackChunk
  | scrollbackEnd
  | resyncBegin
  | sessionExit
  | error
  | pong
  | controlAck
  deriving DecidableEq

def DecodedFrameType.ofByte (value : UInt8) : Option DecodedFrameType :=
  match value with
  | 1 => some hello
  | 3 => some attachAck
  | 4 => some snapshot
  | 5 => some ready
  | 6 => some ptyData
  | 9 => some scrollbackBegin
  | 10 => some scrollbackChunk
  | 11 => some scrollbackEnd
  | 13 => some resyncBegin
  | 14 => some sessionExit
  | 15 => some error
  | 17 => some pong
  | 19 => some controlAck
  | _ => none

/-- The server's name for a frame type of the client. -/
def DecodedFrameType.kind : DecodedFrameType → FrameType
  | hello => .hello
  | attachAck => .attachAck
  | snapshot => .snapshot
  | ready => .ready
  | ptyData => .ptyData
  | scrollbackBegin => .scrollbackBegin
  | scrollbackChunk => .scrollbackChunk
  | scrollbackEnd => .scrollbackEnd
  | resyncBegin => .resyncBegin
  | sessionExit => .sessionExit
  | error => .error
  | pong => .pong
  | controlAck => .controlAck

structure DecodedTerminalDataFrame where
  eventSequence : ℕ
  terminalSequence : ℕ
  id : Option String
  streamId : Option ℕ
  streamEpoch : Option ℕ
  frameType : Option DecodedFrameType
  payload : Bytes
  deriving DecidableEq

variable (utf8Decode : Bytes → String)

/-- The branch of `decodeTerminalDataFrame` for frames of the current protocol. -/
def decodeProtocolFrame (buf : Bytes) : Option DecodedTerminalDataFrame := do
  let frameType ← DecodedFrameType.ofByte (buf.getD 3 0)
  if buf.getD 2 0 ≠ version then none
  if bigEndianAt 4 2 buf ≠ 0 ∨ bigEndianAt 6 2 buf ≠ headerLen then none
  let payloadLength := bigEndianAt 32 4 buf
  if (frameType = .snapshot ∨ frameType = .ptyData ∨ frameType = .scrollbackChunk) ∧
      payloadLength = 0 then none
  if buf.length ≠ headerLen + payloadLength then none
  let streamId ← fromU64 (bigEndianAt 8 8 buf)
  let streamEpoch ← fromU64 (bigEndianAt 16 8 buf)
  let terminalSequence ← fromU64 (bigEndianAt 24 8 buf)
  if frameType = .ptyData ∧ terminalSequence < payloadLength then none
  return {
    eventSequence := 0
    terminalSequence := terminalSequence
    id := none
    streamId := some streamId
    streamEpoch := some streamEpoch
    frameType := some frameType
    payload := buf.drop headerLen }

/-- The two older layouts: the sequences, then the terminal's id behind its length, then the data. -/
def decodeNamedFrame (width : ℕ) (buf : Bytes) : Option DecodedTerminalDataFrame := do
  let idStart := 1 + width + width + 2
  let eventSequence ← fromU64 (bigEndianAt 1 width buf)
  let terminalSequence ← fromU64 (bigEndianAt (1 + width) width buf)
  let idLen := bigEndianAt (1 + width + width) 2 buf
  if buf.length < idStart + idLen then none
  return {
    eventSequence := eventSequence
    terminalSequence := terminalSequence
    id := some (utf8Decode ((buf.drop idStart).take idLen))
    streamId := none
    streamEpoch := none
    frameType := none
    payload := buf.drop (idStart + idLen) }

def decodeTerminalDataFrame (buf : Bytes) : Option DecodedTerminalDataFrame :=
  if buf.length < 11 then none
  else if headerLen ≤ buf.length ∧ buf.take 2 = magic then decodeProtocolFrame buf
  else if buf.getD 0 0 = 2 then
    if buf.length < 19 then none else decodeNamedFrame utf8Decode 8 buf
  else if buf.getD 0 0 ≠ 1 then none
  else decodeNamedFrame utf8Decode 4 buf

/-! ### Encoding -/

/-- `DataView` and `Uint8Array` writes of one frame. The numbers are checked first. -/
def encodeProtocolFrame (kind : FrameType) (streamId streamEpoch sequence : Number)
    (payload : Bytes) : Option Bytes := do
  let streamId ← toU64 streamId
  let streamEpoch ← toU64 streamEpoch
  let sequence ← toU64 sequence
  return magic ++ [version, kind.code] ++ [0, 0] ++ toBigEndian 2 headerLen ++
    toBigEndian 8 streamId ++ toBigEndian 8 streamEpoch ++ toBigEndian 8 sequence ++
    toBigEndian 4 payload.length ++ payload

inductive ControlArgument
  | text (value : String)
  | number (value : Number)
  deriving DecidableEq

structure StructuredControl where
  requestId : String
  op : String
  args : List ControlArgument
  deriving DecidableEq

inductive AttachMode
  | raw
  | semantic
  | both
  deriving DecidableEq

def AttachMode.text : AttachMode → String
  | raw => "raw"
  | semantic => "semantic"
  | both => "both"

variable (stringify : StructuredControl → String)

def controlPayload (value : StructuredControl) : Bytes :=
  (stringify value).toUTF8.data.toList

def encodeStructuredControl (kind : FrameType) (streamId streamEpoch sequence : Number)
    (value : StructuredControl) : Option Bytes :=
  encodeProtocolFrame kind streamId streamEpoch sequence (controlPayload stringify value)

def encodeTerminalAttachFrame (sequence : Number) (requestId terminalId : String)
    (afterSequence : Number) (mode : AttachMode) : Option Bytes :=
  encodeStructuredControl stringify .attach (.integer 0) (.integer 0) sequence
    ⟨requestId, "terminal:attach", [.text terminalId, .number afterSequence, .text mode.text]⟩

def encodeTerminalReadyFrame (streamId streamEpoch sequence : Number) (requestId : String) :
    Option Bytes :=
  encodeStructuredControl stringify .ready streamId streamEpoch sequence
    ⟨requestId, "terminal:ready", []⟩

def encodeTerminalDetachFrame (streamId streamEpoch sequence : Number) (requestId : String) :
    Option Bytes :=
  encodeStructuredControl stringify .detach streamId streamEpoch sequence
    ⟨requestId, "terminal:detach", []⟩

def encodeTerminalAckFrame (streamId streamEpoch sequence : Number) : Option Bytes :=
  encodeProtocolFrame .pong streamId streamEpoch sequence []

def encodeTerminalPingFrame (sequence : Number) : Option Bytes :=
  encodeProtocolFrame .ping (.integer 0) (.integer 0) sequence []

def encodeTerminalResyncRequest (streamId streamEpoch sequence : Number) : Option Bytes :=
  encodeProtocolFrame .resyncRequest streamId streamEpoch sequence []

def encodeTerminalInputFrame (streamId streamEpoch sequence : Number) (payload : Bytes) :
    Option Bytes :=
  if payload = [] then none else encodeProtocolFrame .input streamId streamEpoch sequence payload

def scrollbackPayload (cursor maxBytes : ℕ) (reverse : Bool) : Bytes :=
  toBigEndian 8 cursor ++ toBigEndian 4 maxBytes ++ [if reverse then 1 else 0]

def encodeTerminalScrollbackRequest (streamId streamEpoch sequence cursor maxBytes : Number)
    (reverse : Bool) : Option Bytes := do
  let cursor ← toU64 cursor
  let maxBytes ← toU64 maxBytes
  if maxBytes < 1 ∨ 8 * 1024 * 1024 < maxBytes then none
  encodeProtocolFrame .scrollbackBegin streamId streamEpoch sequence
    (scrollbackPayload cursor maxBytes reverse)

/-- A dimension of the grid that `encodeTerminalResizeFrame` takes. -/
def resizeDimension : Number → Option ℕ
  | .integer value => if 1 ≤ value ∧ value ≤ 0xffff then some value.toNat else none
  | .other => none

def encodeTerminalResizeFrame (streamId streamEpoch sequence cols rows : Number) :
    Option Bytes := do
  let cols ← resizeDimension cols
  let rows ← resizeDimension rows
  encodeProtocolFrame .resize streamId streamEpoch sequence
    (toBigEndian 2 cols ++ toBigEndian 2 rows)

/-- The older layout of terminal data, which has no header of the current protocol. -/
def encodeTerminalDataFrame (eventSequence terminalSequence : Number) (id : String)
    (payload : Bytes) : Option Bytes :=
  let idBytes := id.toUTF8.data.toList
  if 0xffff < idBytes.length then none
  else do
    let eventSequence ← toU64 eventSequence
    let terminalSequence ← toU64 terminalSequence
    return 2 :: toBigEndian 8 eventSequence ++ toBigEndian 8 terminalSequence ++
      toBigEndian 2 idBytes.length ++ idBytes ++ payload

/-! ### Agreement -/

/-- The frame types that the server sends. -/
def serverSent : FrameType → Bool
  | .hello | .attachAck | .snapshot | .ready | .ptyData | .scrollbackBegin | .scrollbackChunk
  | .scrollbackEnd | .resyncBegin | .sessionExit | .error | .pong | .controlAck => true
  | .attach | .input | .resize | .resyncRequest | .ping | .detach => false

theorem ofByte_of_serverSent {kind : FrameType} (h : serverSent kind = true) :
    ∃ frameType, DecodedFrameType.ofByte kind.code = some frameType ∧ frameType.kind = kind := by
  cases kind <;> first | exact ⟨_, rfl, rfl⟩ | cases h

theorem fromU64_of_le {value : ℕ} (h : value ≤ maxSafeInteger) : fromU64 value = some value :=
  if_neg (Nat.not_lt.mpr h)

theorem fits_of_safe {frame : Frame} (hflags : frame.flags = 0)
    (hstreamId : frame.streamId ≤ maxSafeInteger)
    (hepoch : frame.position.epoch ≤ maxSafeInteger)
    (hsequence : frame.position.sequence ≤ maxSafeInteger) : frame.Fits := by
  have hsafe : maxSafeInteger < 2 ^ 64 := by decide
  exact ⟨by omega, by omega, by omega, by omega⟩

section Decoding
variable {codec : Codec} {frame : Frame} {encoded : EncodedFrame}

/-- What a valid frame must have that the client asks for; the client also wants the data of a
history chunk. -/
theorem nonempty_of_valid {frameType : DecodedFrameType} (hkind : frameType.kind = frame.kind)
    (hvalid : validateFrame frame.kind frame.flags frame.position frame.payload = .ok ())
    (hchunk : frame.kind = .scrollbackChunk → frame.payload ≠ [])
    (hneeds : frameType = .snapshot ∨ frameType = .ptyData ∨ frameType = .scrollbackChunk) :
    frame.payload ≠ [] := by
  intro hempty
  rw [validateFrame, flags_of_validateFrame hvalid, hempty] at hvalid
  obtain rfl | rfl | rfl := hneeds <;> rw [← hkind] at hvalid hchunk
  · cases hvalid
  · cases hvalid
  · exact hchunk rfl hempty

theorem covered_of_valid (hkind : frame.kind = .ptyData)
    (hvalid : validateFrame frame.kind frame.flags frame.position frame.payload = .ok ()) :
    frame.payload.length ≤ frame.position.sequence := by
  by_contra hshort
  rw [validateFrame, flags_of_validateFrame hvalid, hkind] at hvalid
  by_cases hempty : frame.payload = []
  · simp [hempty] at hshort
  · simp [hempty, Nat.lt_of_not_le hshort] at hvalid

/-- The client decodes a frame of the server, with all its fields. -/
theorem decode_encoded (hsent : serverSent frame.kind = true)
    (hstreamId : frame.streamId ≤ maxSafeInteger)
    (hepoch : frame.position.epoch ≤ maxSafeInteger)
    (hsequence : frame.position.sequence ≤ maxSafeInteger)
    (hwidth : frame.payload.length < 2 ^ 32)
    (hchunk : frame.kind = .scrollbackChunk → frame.payload ≠ [])
    (hencode : codec.encode frame = .ok encoded) :
    ∃ frameType, frameType.kind = frame.kind ∧ frame.flags = 0 ∧
      decodeTerminalDataFrame utf8Decode encoded.coalesce =
        some
          { eventSequence := 0
            terminalSequence := frame.position.sequence
            id := none
            streamId := some frame.streamId
            streamEpoch := some frame.position.epoch
            frameType := some frameType
            payload := frame.payload } := by
  obtain ⟨-, hvalid, rfl⟩ := Codec.encode_ok hencode
  have hflags := flags_of_validateFrame hvalid
  obtain ⟨frameType, hbyte, hkind⟩ := ofByte_of_serverSent hsent
  refine ⟨frameType, hkind, hflags, ?_⟩
  have hfits := fits_of_safe hflags hstreamId hepoch hsequence
  have hlength : (frame.header ++ frame.payload).length = headerLen + frame.payload.length := by
    simp
  have hlong : ¬(frame.header ++ frame.payload).length < 11 := by
    rw [hlength, headerLen]
    omega
  have hmagic : headerLen ≤ (frame.header ++ frame.payload).length ∧
      (frame.header ++ frame.payload).take 2 = magic :=
    ⟨hlength ▸ Nat.le_add_right _ _, by simp [Frame.header, magic]⟩
  have hversion : (frame.header ++ frame.payload).getD 2 0 = version := by
    simp [Frame.header, magic]
  have htype : (frame.header ++ frame.payload).getD 3 0 = frame.kind.code := by
    simp [Frame.header, magic]
  have hflags' : bigEndianAt 4 2 (frame.header ++ frame.payload) = 0 :=
    (Frame.flags_header hfits _).trans hflags
  have hpayload : (frame.header ++ frame.payload).drop headerLen = frame.payload :=
    List.drop_left' frame.length_header
  have hdata : ¬((frameType = .snapshot ∨ frameType = .ptyData ∨ frameType = .scrollbackChunk) ∧
      frame.payload.length = 0) := by
    rintro ⟨hneeds, hempty⟩
    exact nonempty_of_valid hkind hvalid hchunk hneeds (List.length_eq_zero_iff.mp hempty)
  have hcovered : ¬(frameType = .ptyData ∧ frame.position.sequence < frame.payload.length) := by
    rintro ⟨rfl, hshort⟩
    exact absurd (covered_of_valid hkind.symm hvalid) (Nat.not_le.mpr hshort)
  change decodeTerminalDataFrame utf8Decode (frame.header ++ frame.payload) = _
  rw [decodeTerminalDataFrame, if_neg hlong, if_pos hmagic]
  unfold decodeProtocolFrame
  simp only [htype, hbyte, hversion, hflags', Frame.headerLength_header,
    Frame.streamId_header hfits, Frame.epoch_header hfits, Frame.sequence_header hfits,
    Frame.payloadLen_header hwidth, hlength, hpayload, fromU64_of_le hstreamId,
    fromU64_of_le hepoch, fromU64_of_le hsequence, if_neg hdata, if_neg hcovered, ne_eq,
    not_true_eq_false, or_self, if_false, Option.bind_eq_bind, Option.bind_some, Option.pure_def]

end Decoding

variable {bytes : Bytes}

/-- The calls of the client's encoders. -/
inductive Call
  | attach (sequence : Number) (requestId terminalId : String) (afterSequence : Number)
      (mode : AttachMode)
  | ready (streamId streamEpoch sequence : Number) (requestId : String)
  | detach (streamId streamEpoch sequence : Number) (requestId : String)
  | ack (streamId streamEpoch sequence : Number)
  | ping (sequence : Number)
  | resync (streamId streamEpoch sequence : Number)
  | input (streamId streamEpoch sequence : Number) (payload : Bytes)
  | scrollback (streamId streamEpoch sequence cursor maxBytes : Number) (reverse : Bool)
  | resize (streamId streamEpoch sequence cols rows : Number)

namespace Call

def encode : Call → Option Bytes
  | attach sequence requestId terminalId afterSequence mode =>
    encodeTerminalAttachFrame stringify sequence requestId terminalId afterSequence mode
  | ready streamId streamEpoch sequence requestId =>
    encodeTerminalReadyFrame stringify streamId streamEpoch sequence requestId
  | detach streamId streamEpoch sequence requestId =>
    encodeTerminalDetachFrame stringify streamId streamEpoch sequence requestId
  | ack streamId streamEpoch sequence => encodeTerminalAckFrame streamId streamEpoch sequence
  | ping sequence => encodeTerminalPingFrame sequence
  | resync streamId streamEpoch sequence => encodeTerminalResyncRequest streamId streamEpoch sequence
  | input streamId streamEpoch sequence payload =>
    encodeTerminalInputFrame streamId streamEpoch sequence payload
  | scrollback streamId streamEpoch sequence cursor maxBytes reverse =>
    encodeTerminalScrollbackRequest streamId streamEpoch sequence cursor maxBytes reverse
  | resize streamId streamEpoch sequence cols rows =>
    encodeTerminalResizeFrame streamId streamEpoch sequence cols rows

end Call

def Number.toNat : Number → ℕ
  | .integer value => value.toNat
  | .other => 0

/-- A frame of the client, in the server's terms. -/
def clientFrame (kind : FrameType) (streamId streamEpoch sequence : Number) (payload : Bytes) :
    Frame :=
  ⟨kind, 0, streamId.toNat, ⟨streamEpoch.toNat, sequence.toNat⟩, payload⟩

namespace Call

/-- The frame that a call stands for. -/
def frame : Call → Frame
  | attach sequence requestId terminalId afterSequence mode =>
    clientFrame .attach (.integer 0) (.integer 0) sequence (controlPayload stringify
      ⟨requestId, "terminal:attach", [.text terminalId, .number afterSequence, .text mode.text]⟩)
  | ready streamId streamEpoch sequence requestId =>
    clientFrame .ready streamId streamEpoch sequence
      (controlPayload stringify ⟨requestId, "terminal:ready", []⟩)
  | detach streamId streamEpoch sequence requestId =>
    clientFrame .detach streamId streamEpoch sequence
      (controlPayload stringify ⟨requestId, "terminal:detach", []⟩)
  | ack streamId streamEpoch sequence => clientFrame .pong streamId streamEpoch sequence []
  | ping sequence => clientFrame .ping (.integer 0) (.integer 0) sequence []
  | resync streamId streamEpoch sequence =>
    clientFrame .resyncRequest streamId streamEpoch sequence []
  | input streamId streamEpoch sequence payload =>
    clientFrame .input streamId streamEpoch sequence payload
  | scrollback streamId streamEpoch sequence cursor maxBytes reverse =>
    clientFrame .scrollbackBegin streamId streamEpoch sequence
      (scrollbackPayload cursor.toNat maxBytes.toNat reverse)
  | resize streamId streamEpoch sequence cols rows =>
    clientFrame .resize streamId streamEpoch sequence
      (toBigEndian 2 cols.toNat ++ toBigEndian 2 rows.toNat)

end Call

theorem toU64_eq_some {number : Number} {value : ℕ} (h : toU64 number = some value) :
    number.toNat = value ∧ value ≤ maxSafeInteger := by
  cases number with
  | other => cases h
  | integer n =>
    simp only [toU64] at h
    split at h
    · rename_i hsafe
      obtain rfl := Option.some.inj h
      exact ⟨rfl, by omega⟩
    · cases h

theorem resizeDimension_eq_some {number : Number} {value : ℕ}
    (h : resizeDimension number = some value) : number.toNat = value := by
  cases number with
  | other => cases h
  | integer n =>
    simp only [resizeDimension] at h
    split at h
    · exact Option.some.inj h
    · cases h

/-- The client writes a frame as the server does. -/
theorem encodeProtocolFrame_eq {kind : FrameType} {streamId streamEpoch sequence : Number}
    {payload : Bytes}
    (h : encodeProtocolFrame kind streamId streamEpoch sequence payload = some bytes) :
    bytes = EncodedFrame.coalesce
        ⟨(clientFrame kind streamId streamEpoch sequence payload).header, payload⟩ ∧
      (clientFrame kind streamId streamEpoch sequence payload).Fits := by
  simp only [encodeProtocolFrame, Option.bind_eq_bind, Option.bind_eq_some_iff, Option.pure_def,
    Option.some.injEq] at h
  obtain ⟨id, hid, epoch, hepoch, position, hposition, rfl⟩ := h
  obtain ⟨hid, hid'⟩ := toU64_eq_some hid
  obtain ⟨hepoch, hepoch'⟩ := toU64_eq_some hepoch
  obtain ⟨hposition, hposition'⟩ := toU64_eq_some hposition
  refine ⟨?_, fits_of_safe rfl (hid.le.trans hid') (hepoch.le.trans hepoch')
    (hposition.le.trans hposition')⟩
  simp [EncodedFrame.coalesce, Frame.header, clientFrame, hid, hepoch, hposition, toBigEndian]

/-- Every accepted call writes its own frame, and a valid one. -/
theorem Call.encode_eq {call : Call} (h : call.encode stringify = some bytes) :
    bytes = EncodedFrame.coalesce ⟨(call.frame stringify).header, (call.frame stringify).payload⟩ ∧
      (call.frame stringify).Fits ∧
      validateFrame (call.frame stringify).kind (call.frame stringify).flags
        (call.frame stringify).position (call.frame stringify).payload = .ok () := by
  cases call with
  | attach sequence requestId terminalId afterSequence mode =>
    obtain ⟨hbytes, hfits⟩ := encodeProtocolFrame_eq h
    exact ⟨hbytes, hfits, rfl⟩
  | ready streamId streamEpoch sequence requestId =>
    obtain ⟨hbytes, hfits⟩ := encodeProtocolFrame_eq h
    exact ⟨hbytes, hfits, rfl⟩
  | detach streamId streamEpoch sequence requestId =>
    obtain ⟨hbytes, hfits⟩ := encodeProtocolFrame_eq h
    exact ⟨hbytes, hfits, rfl⟩
  | ack streamId streamEpoch sequence =>
    obtain ⟨hbytes, hfits⟩ := encodeProtocolFrame_eq h
    exact ⟨hbytes, hfits, rfl⟩
  | ping sequence =>
    obtain ⟨hbytes, hfits⟩ := encodeProtocolFrame_eq h
    exact ⟨hbytes, hfits, rfl⟩
  | resync streamId streamEpoch sequence =>
    obtain ⟨hbytes, hfits⟩ := encodeProtocolFrame_eq h
    exact ⟨hbytes, hfits, rfl⟩
  | input streamId streamEpoch sequence payload =>
    simp only [Call.encode, encodeTerminalInputFrame] at h
    split at h
    · cases h
    · rename_i hne
      obtain ⟨hbytes, hfits⟩ := encodeProtocolFrame_eq h
      refine ⟨hbytes, hfits, ?_⟩
      simp [Call.frame, clientFrame, validateFrame, hne]
  | scrollback streamId streamEpoch sequence cursor maxBytes reverse =>
    simp only [Call.encode, encodeTerminalScrollbackRequest, Option.bind_eq_bind,
      Option.bind_eq_some_iff] at h
    obtain ⟨position, hposition, limit, hlimit, h⟩ := h
    split at h
    · cases h
    · obtain ⟨hbytes, hfits⟩ := encodeProtocolFrame_eq h
      rw [← (toU64_eq_some hposition).1, ← (toU64_eq_some hlimit).1] at hbytes hfits
      exact ⟨hbytes, hfits, rfl⟩
  | resize streamId streamEpoch sequence cols rows =>
    simp only [Call.encode, encodeTerminalResizeFrame, Option.bind_eq_bind,
      Option.bind_eq_some_iff] at h
    obtain ⟨width, hwidth, height, hheight, h⟩ := h
    obtain ⟨hbytes, hfits⟩ := encodeProtocolFrame_eq h
    rw [← resizeDimension_eq_some hwidth, ← resizeDimension_eq_some hheight] at hbytes hfits
    refine ⟨hbytes, hfits, ?_⟩
    simp [Call.frame, clientFrame, validateFrame]

/-- The two codecs agree: the client decodes every frame of a server-sent type that the server's codec
encodes, empty history chunks apart, with the same type, stream, position, flags and payload; and
what the client's encoders write is one frame with the same fields for a codec whose limit the
payload meets. -/
theorem codecs_agree :
    (∀ (codec : Codec) (frame : Frame) (encoded : EncodedFrame), serverSent frame.kind = true →
      frame.streamId ≤ maxSafeInteger → frame.position.epoch ≤ maxSafeInteger →
      frame.position.sequence ≤ maxSafeInteger → frame.payload.length < 2 ^ 32 →
      (frame.kind = .scrollbackChunk → frame.payload ≠ []) →
      codec.encode frame = .ok encoded →
      ∃ frameType, frameType.kind = frame.kind ∧ frame.flags = 0 ∧
        decodeTerminalDataFrame utf8Decode encoded.coalesce =
          some
            { eventSequence := 0
              terminalSequence := frame.position.sequence
              id := none
              streamId := some frame.streamId
              streamEpoch := some frame.position.epoch
              frameType := some frameType
              payload := frame.payload }) ∧
    ∀ (codec : Codec) (call : Call) (bytes : Bytes), call.encode stringify = some bytes →
      (call.frame stringify).payload.length ≤ codec.maxPayload →
      (call.frame stringify).payload.length < 2 ^ 32 →
      codec.decode bytes = (.ok (some (call.frame stringify)), []) := by
  refine ⟨fun codec frame encoded hsent hstreamId hepoch hsequence hwidth hchunk hencode =>
    decode_encoded utf8Decode hsent hstreamId hepoch hsequence hwidth hchunk hencode,
    fun codec call bytes hcall hsize hwidth => ?_⟩
  obtain ⟨rfl, hfits, hvalid⟩ := Call.encode_eq stringify hcall
  have hencode := Codec.encode_of_valid hsize hvalid
  simpa using Codec.decode_encoded hencode hfits hwidth []

/-- Input of any length is written. -/
theorem encode_input {payload : Bytes} (h : payload ≠ []) :
    ∃ bytes, (Call.input (.integer 1) (.integer 1) (.integer 1) payload).encode stringify =
      some bytes := by
  rw [Call.encode, encodeTerminalInputFrame, if_neg h]
  exact ⟨_, rfl⟩

/-- A history chunk without data, which the server's codec encodes. -/
def emptyChunk : Frame := ⟨.scrollbackChunk, 0, 1, ⟨1, 1⟩, []⟩

/-- More input than the server's codec takes in one frame. -/
def longInput : Call :=
  .input (.integer 1) (.integer 1) (.integer 1) (List.replicate (defaultMaxPayload + 1) 0)

/-- The client refuses a history chunk without data, the server a frame that is too long, and the
older layout of terminal data is none of the server's frames. -/
theorem codecs_disagree :
    (∃ encoded, (default : Codec).encode emptyChunk = .ok encoded ∧
      ∀ utf8Decode, decodeTerminalDataFrame utf8Decode encoded.coalesce = none) ∧
    (∀ stringify, ∃ bytes, longInput.encode stringify = some bytes ∧
      (default : Codec).decode bytes ≠ (.ok (some (longInput.frame stringify)), [])) ∧
    ∃ bytes, encodeTerminalDataFrame (.integer 1) (.integer 1) "terminal-1-of-this-host" [104] =
      some bytes ∧ (default : Codec).decode bytes = (.error .badMagic, bytes) := by
  refine ⟨⟨_, rfl, fun utf8Decode => ?_⟩, fun stringify => ?_, ⟨_, rfl, ?_⟩⟩
  · rw [decodeTerminalDataFrame, if_neg (by decide +kernel), if_pos (by decide +kernel)]
    decide +kernel
  · have hpayload : List.replicate (defaultMaxPayload + 1) (0 : UInt8) ≠ [] := by
      simp
    obtain ⟨bytes, hbytes⟩ := encode_input stringify hpayload
    refine ⟨bytes, hbytes, fun hdecode => ?_⟩
    have hsize := (Codec.decode_accepts hdecode).size
    have hlength : (longInput.frame stringify).payload.length = defaultMaxPayload + 1 :=
      List.length_replicate
    have hmax : (default : Codec).maxPayload = defaultMaxPayload := rfl
    omega
  · rfl

end PiDeck.Wire.Client
