import Mathlib
import PiDeck.Storage.BigEndian
import PiDeck.Wire.Frame

/-! The codec of the terminal protocol over bytes. A reader appends what arrives to its buffer and
decodes frames from the front as long as it can. -/
namespace PiDeck.Wire
open PiDeck.Storage

/-- The byte of a frame type on the wire. -/
def FrameType.code : FrameType → UInt8
  | hello => 1
  | attach => 2
  | attachAck => 3
  | snapshot => 4
  | ready => 5
  | ptyData => 6
  | input => 7
  | resize => 8
  | scrollbackBegin => 9
  | scrollbackChunk => 10
  | scrollbackEnd => 11
  | resyncRequest => 12
  | resyncBegin => 13
  | sessionExit => 14
  | error => 15
  | ping => 16
  | pong => 17
  | detach => 18
  | controlAck => 19

def FrameType.tryFrom (value : UInt8) : Except ProtocolError FrameType :=
  match value with
  | 1 => .ok .hello
  | 2 => .ok .attach
  | 3 => .ok .attachAck
  | 4 => .ok .snapshot
  | 5 => .ok .ready
  | 6 => .ok .ptyData
  | 7 => .ok .input
  | 8 => .ok .resize
  | 9 => .ok .scrollbackBegin
  | 10 => .ok .scrollbackChunk
  | 11 => .ok .scrollbackEnd
  | 12 => .ok .resyncRequest
  | 13 => .ok .resyncBegin
  | 14 => .ok .sessionExit
  | 15 => .ok .error
  | 16 => .ok .ping
  | 17 => .ok .pong
  | 18 => .ok .detach
  | 19 => .ok .controlAck
  | other => .error (.unknownType other)

theorem FrameType.tryFrom_code (kind : FrameType) : tryFrom kind.code = .ok kind := by
  cases kind <;> rfl

theorem FrameType.code_of_tryFrom {value : UInt8} {kind : FrameType}
    (h : tryFrom value = .ok kind) : kind.code = value := by
  unfold tryFrom at h
  split at h <;> cases h <;> rfl

def magic : Bytes := [80, 68]
def version : UInt8 := 4

/-- Header and payload, kept separate. -/
structure EncodedFrame where
  header : Bytes
  payload : Bytes

def EncodedFrame.coalesce (frame : EncodedFrame) : Bytes := frame.header ++ frame.payload

structure Codec where
  maxPayload : ℕ
  positive : 1 ≤ maxPayload

/-- The header that `encode` writes; a number is cut to the width of its field. -/
def Frame.header (frame : Frame) : Bytes :=
  magic ++ [version, frame.kind.code] ++ toBigEndian 2 frame.flags ++ toBigEndian 2 headerLen ++
    toBigEndian 8 frame.streamId ++ toBigEndian 8 frame.position.epoch ++
    toBigEndian 8 frame.position.sequence ++ toBigEndian 4 frame.payload.length

/-- The number in the `width` bytes of the input from `offset` on. -/
def bigEndianAt (offset width : ℕ) (input : Bytes) : ℕ :=
  ofBigEndian ((input.drop offset).take width)

namespace Codec

def new (maxPayload : ℕ) : Codec := ⟨max maxPayload 1, le_max_right _ _⟩

instance : Inhabited Codec := ⟨new defaultMaxPayload⟩

variable (codec : Codec)

def encode (frame : Frame) : Except ProtocolError EncodedFrame :=
  if codec.maxPayload < frame.payload.length then
    .error (.payloadTooLarge frame.payload.length codec.maxPayload)
  else
    match validateFrame frame.kind frame.flags frame.position frame.payload with
    | .error e => .error e
    | .ok () => .ok ⟨frame.header, frame.payload⟩

/-- Decode one frame from the front of the input, and what is left of the input. -/
def decode (input : Bytes) : Except ProtocolError (Option Frame) × Bytes :=
  if input.length < headerLen then (.ok none, input)
  else if input.take 2 ≠ magic then (.error .badMagic, input)
  else if input.getD 2 0 ≠ version then (.error (.unsupportedVersion (input.getD 2 0)), input)
  else
    match FrameType.tryFrom (input.getD 3 0) with
    | .error e => (.error e, input)
    | .ok kind =>
      let flags := bigEndianAt 4 2 input
      let headerLength := bigEndianAt 6 2 input
      let payloadLen := bigEndianAt 32 4 input
      if flags ≠ 0 then (.error (.unknownFlags flags), input)
      else if headerLength ≠ headerLen then (.error (.invalidHeaderLength headerLength), input)
      else if codec.maxPayload < payloadLen then
        (.error (.payloadTooLarge payloadLen codec.maxPayload), input)
      else if 2 ^ 64 ≤ headerLen + payloadLen then (.error .lengthOverflow, input)
      else if input.length < headerLen + payloadLen then (.ok none, input)
      else
        ((Frame.new kind flags (bigEndianAt 8 8 input) ⟨bigEndianAt 16 8 input,
            bigEndianAt 24 8 input⟩ ((input.drop headerLen).take payloadLen)).map some,
          input.drop (headerLen + payloadLen))

end Codec

/-! ### The fields of a header -/

variable {codec : Codec} {frame : Frame} {input body : Bytes}

/-- A frame whose numbers fit the widths of their fields. -/
structure Frame.Fits (frame : Frame) : Prop where
  flags : frame.flags < 2 ^ 16
  streamId : frame.streamId < 2 ^ 64
  epoch : frame.position.epoch < 2 ^ 64
  sequence : frame.position.sequence < 2 ^ 64

@[simp] theorem Frame.length_header (frame : Frame) : frame.header.length = headerLen := by
  simp [header, magic, headerLen]

/-- A field is read back where it was written. -/
theorem bigEndianAt_field {width n : ℕ} (before after : Bytes) (hn : n < 256 ^ width) :
    bigEndianAt before.length width (before ++ (toBigEndian width n ++ after)) = n := by
  rw [bigEndianAt, List.drop_left, List.take_left' (length_toBigEndian width n),
    ofBigEndian_toBigEndian hn]

theorem Frame.flags_header (h : frame.Fits) (body : Bytes) :
    bigEndianAt 4 2 (frame.header ++ body) = frame.flags := by
  have hfield := bigEndianAt_field (magic ++ [version, frame.kind.code])
    (toBigEndian 2 headerLen ++ toBigEndian 8 frame.streamId ++
      toBigEndian 8 frame.position.epoch ++ toBigEndian 8 frame.position.sequence ++
      toBigEndian 4 frame.payload.length ++ body) (show frame.flags < 256 ^ 2 from h.flags)
  simpa [header, magic] using hfield

theorem Frame.headerLength_header (frame : Frame) (body : Bytes) :
    bigEndianAt 6 2 (frame.header ++ body) = headerLen := by
  have hfield := bigEndianAt_field (magic ++ [version, frame.kind.code] ++
      toBigEndian 2 frame.flags)
    (toBigEndian 8 frame.streamId ++ toBigEndian 8 frame.position.epoch ++
      toBigEndian 8 frame.position.sequence ++ toBigEndian 4 frame.payload.length ++ body)
    (show headerLen < 256 ^ 2 by decide)
  simpa [header, magic] using hfield

theorem Frame.streamId_header (h : frame.Fits) (body : Bytes) :
    bigEndianAt 8 8 (frame.header ++ body) = frame.streamId := by
  have hfield := bigEndianAt_field (magic ++ [version, frame.kind.code] ++
      toBigEndian 2 frame.flags ++ toBigEndian 2 headerLen)
    (toBigEndian 8 frame.position.epoch ++ toBigEndian 8 frame.position.sequence ++
      toBigEndian 4 frame.payload.length ++ body)
    (show frame.streamId < 256 ^ 8 from h.streamId)
  simpa [header, magic] using hfield

theorem Frame.epoch_header (h : frame.Fits) (body : Bytes) :
    bigEndianAt 16 8 (frame.header ++ body) = frame.position.epoch := by
  have hfield := bigEndianAt_field (magic ++ [version, frame.kind.code] ++
      toBigEndian 2 frame.flags ++ toBigEndian 2 headerLen ++ toBigEndian 8 frame.streamId)
    (toBigEndian 8 frame.position.sequence ++ toBigEndian 4 frame.payload.length ++ body)
    (show frame.position.epoch < 256 ^ 8 from h.epoch)
  simpa [header, magic] using hfield

theorem Frame.sequence_header (h : frame.Fits) (body : Bytes) :
    bigEndianAt 24 8 (frame.header ++ body) = frame.position.sequence := by
  have hfield := bigEndianAt_field (magic ++ [version, frame.kind.code] ++
      toBigEndian 2 frame.flags ++ toBigEndian 2 headerLen ++ toBigEndian 8 frame.streamId ++
      toBigEndian 8 frame.position.epoch)
    (toBigEndian 4 frame.payload.length ++ body)
    (show frame.position.sequence < 256 ^ 8 from h.sequence)
  simpa [header, magic] using hfield

theorem Frame.payloadLen_header (h : frame.payload.length < 2 ^ 32) (body : Bytes) :
    bigEndianAt 32 4 (frame.header ++ body) = frame.payload.length := by
  have hfield := bigEndianAt_field (magic ++ [version, frame.kind.code] ++
      toBigEndian 2 frame.flags ++ toBigEndian 2 headerLen ++ toBigEndian 8 frame.streamId ++
      toBigEndian 8 frame.position.epoch ++ toBigEndian 8 frame.position.sequence)
    body (show frame.payload.length < 256 ^ 4 from h)
  simpa [header, magic] using hfield

/-! ### Decoding what was encoded -/

theorem flags_of_validateFrame {kind : FrameType} {flags : ℕ} {position : StreamPosition}
    {payload : Bytes} (h : validateFrame kind flags position payload = .ok ()) : flags = 0 := by
  unfold validateFrame at h
  split at h
  · cases h
  · rename_i hflags
    exact not_not.mp hflags

namespace Codec

theorem encode_ok {encoded : EncodedFrame} (h : codec.encode frame = .ok encoded) :
    frame.payload.length ≤ codec.maxPayload ∧
      validateFrame frame.kind frame.flags frame.position frame.payload = .ok () ∧
      encoded = ⟨frame.header, frame.payload⟩ := by
  unfold encode at h
  split at h
  · cases h
  · rename_i hsize
    cases hvalid : validateFrame frame.kind frame.flags frame.position frame.payload with
    | error e => simp [hvalid] at h
    | ok _ =>
      simp only [hvalid, Except.ok.injEq] at h
      exact ⟨Nat.le_of_not_lt hsize, rfl, h.symm⟩

theorem encode_of_valid (hsize : frame.payload.length ≤ codec.maxPayload)
    (hvalid : validateFrame frame.kind frame.flags frame.position frame.payload = .ok ()) :
    codec.encode frame = .ok ⟨frame.header, frame.payload⟩ := by
  simp [encode, hvalid, Nat.not_lt.mpr hsize]

/-- What the codec makes of a header that it wrote, whatever follows it. -/
theorem decode_header (hfits : frame.Fits) (hsize : frame.payload.length ≤ codec.maxPayload)
    (hflags : frame.flags = 0) (hwidth : frame.payload.length < 2 ^ 32) (body : Bytes) :
    codec.decode (frame.header ++ body) =
      if body.length < frame.payload.length then (.ok none, frame.header ++ body)
      else ((Frame.new frame.kind frame.flags frame.streamId frame.position
        (body.take frame.payload.length)).map some, body.drop frame.payload.length) := by
  have hmagic : (frame.header ++ body).take 2 = magic := by simp [Frame.header, magic]
  have hversion : (frame.header ++ body).getD 2 0 = version := by simp [Frame.header, magic]
  have hkind : (frame.header ++ body).getD 3 0 = frame.kind.code := by simp [Frame.header, magic]
  have hlength : (frame.header ++ body).length = headerLen + body.length := by simp
  have hoverflow : ¬2 ^ 64 ≤ headerLen + frame.payload.length := by
    rw [headerLen]
    omega
  have hbody : (frame.header ++ body).drop headerLen = body :=
    List.drop_left' frame.length_header
  have hrest : (frame.header ++ body).drop (headerLen + frame.payload.length) =
      body.drop frame.payload.length := by
    rw [← List.drop_drop, hbody]
  have hbodyLength : headerLen + body.length < headerLen + frame.payload.length ↔
      body.length < frame.payload.length := by omega
  have hflags' := Frame.flags_header hfits body
  rw [hflags] at hflags'
  simp only [decode, hlength, hmagic, hversion, hkind, FrameType.tryFrom_code, hflags',
    Frame.headerLength_header, Frame.streamId_header hfits, Frame.epoch_header hfits,
    Frame.sequence_header hfits, Frame.payloadLen_header hwidth, hbody, hrest, hbodyLength,
    if_neg (Nat.not_lt.mpr (Nat.le_add_right headerLen body.length)), ne_eq, not_true_eq_false,
    if_false, if_neg (Nat.not_lt.mpr hsize), if_neg hoverflow, hflags]

/-- A frame that is there in full is decoded, and what follows it is left. -/
theorem decode_encoded {encoded : EncodedFrame} (h : codec.encode frame = .ok encoded)
    (hfits : frame.Fits) (hwidth : frame.payload.length < 2 ^ 32) (rest : Bytes) :
    codec.decode (encoded.coalesce ++ rest) = (.ok (some frame), rest) := by
  obtain ⟨hsize, hvalid, rfl⟩ := encode_ok h
  have hflags := flags_of_validateFrame hvalid
  rw [EncodedFrame.coalesce, List.append_assoc, decode_header hfits hsize hflags hwidth,
    if_neg (by simp), List.take_left, List.drop_left]
  simp only [Frame.new, hvalid]
  rfl

/-- What an accepted frame says about the bytes it was decoded from. -/
structure Accepts (codec : Codec) (input : Bytes) (frame : Frame) (rest : Bytes) : Prop where
  header : headerLen ≤ input.length
  magic : input.take 2 = magic
  version : input.getD 2 0 = version
  kind : input.getD 3 0 = frame.kind.code
  flags : bigEndianAt 4 2 input = frame.flags
  headerLength : bigEndianAt 6 2 input = headerLen
  streamId : bigEndianAt 8 8 input = frame.streamId
  epoch : bigEndianAt 16 8 input = frame.position.epoch
  sequence : bigEndianAt 24 8 input = frame.position.sequence
  payloadLen : bigEndianAt 32 4 input = frame.payload.length
  size : frame.payload.length ≤ codec.maxPayload
  valid : validateFrame frame.kind frame.flags frame.position frame.payload = .ok ()
  split : input = input.take headerLen ++ (frame.payload ++ rest)

theorem decode_accepts {rest : Bytes} (h : codec.decode input = (.ok (some frame), rest)) :
    codec.Accepts input frame rest := by
  unfold decode at h
  split at h
  · simp at h
  split at h
  · simp at h
  split at h
  · simp at h
  rename_i hheader hmagic hversion
  cases hkind : FrameType.tryFrom (input.getD 3 0) with
  | error e =>
    simp only [hkind] at h
    cases (Prod.mk.inj h).1
  | ok kind =>
    simp only [hkind] at h
    split at h
    · simp at h
    split at h
    · simp at h
    split at h
    · simp at h
    split at h
    · simp at h
    split at h
    · simp at h
    rename_i hflags hlength hsize hoverflow hwhole
    rw [Prod.mk.injEq] at h
    obtain ⟨hframe, rfl⟩ := h
    unfold Frame.new at hframe
    split at hframe
    · cases hframe
    · rename_i hvalid
      simp only [Except.map, Except.ok.injEq, Option.some.injEq] at hframe
      subst hframe
      have hpayload : ((input.drop headerLen).take (bigEndianAt 32 4 input)).length =
          bigEndianAt 32 4 input := by
        rw [List.length_take, List.length_drop]
        omega
      exact
        { header := Nat.le_of_not_lt hheader
          magic := not_not.mp hmagic
          version := not_not.mp hversion
          kind := (FrameType.code_of_tryFrom hkind).symm
          flags := rfl
          headerLength := not_not.mp hlength
          streamId := rfl
          epoch := rfl
          sequence := rfl
          payloadLen := hpayload.symm
          size := hpayload.le.trans (Nat.le_of_not_lt hsize)
          valid := hvalid
          split := by rw [← List.drop_drop, List.take_append_drop, List.take_append_drop] }

end Codec

/-- A field that was read is written back as it was. -/
theorem toBigEndian_bigEndianAt {offset width : ℕ} (h : offset + width ≤ input.length) :
    toBigEndian width (bigEndianAt offset width input) = (input.drop offset).take width := by
  have hlength : ((input.drop offset).take width).length = width := by
    rw [List.length_take, List.length_drop]
    omega
  exact toBigEndian_ofBigEndian hlength

theorem take_one_drop {n : ℕ} (h : n < input.length) : (input.drop n).take 1 = [input.getD n 0] := by
  rw [List.drop_eq_getElem_cons h, List.getD_eq_getElem _ _ h]
  rfl

theorem bigEndianAt_lt {offset width : ℕ} : bigEndianAt offset width input < 256 ^ width :=
  (ofBigEndian_lt _).trans_le (Nat.pow_le_pow_right (by decide) (List.length_take_le _ _))

namespace Codec.Accepts
variable {rest : Bytes}

theorem fits (h : codec.Accepts input frame rest) : frame.Fits :=
  { flags := h.flags ▸ bigEndianAt_lt
    streamId := h.streamId ▸ bigEndianAt_lt
    epoch := h.epoch ▸ bigEndianAt_lt
    sequence := h.sequence ▸ bigEndianAt_lt }

theorem width (h : codec.Accepts input frame rest) : frame.payload.length < 2 ^ 32 :=
  h.payloadLen ▸ bigEndianAt_lt

/-- The header of an accepted frame is written back as it was read. -/
theorem header_eq (h : codec.Accepts input frame rest) : frame.header = input.take headerLen := by
  have hlong := h.header
  rw [headerLen] at hlong
  have hflags : toBigEndian 2 frame.flags = (input.drop 4).take 2 :=
    h.flags ▸ toBigEndian_bigEndianAt (by omega)
  have hlength : toBigEndian 2 headerLen = (input.drop 6).take 2 := by
    rw [← h.headerLength]
    exact toBigEndian_bigEndianAt (by omega)
  have hstreamId : toBigEndian 8 frame.streamId = (input.drop 8).take 8 :=
    h.streamId ▸ toBigEndian_bigEndianAt (by omega)
  have hepoch : toBigEndian 8 frame.position.epoch = (input.drop 16).take 8 :=
    h.epoch ▸ toBigEndian_bigEndianAt (by omega)
  have hsequence : toBigEndian 8 frame.position.sequence = (input.drop 24).take 8 :=
    h.sequence ▸ toBigEndian_bigEndianAt (by omega)
  have hpayload : toBigEndian 4 frame.payload.length = (input.drop 32).take 4 :=
    h.payloadLen ▸ toBigEndian_bigEndianAt (by omega)
  have hversion : [Wire.version] = (input.drop 2).take 1 := by
    rw [take_one_drop (by omega), h.version]
  have hkind : [frame.kind.code] = (input.drop 3).take 1 := by
    rw [take_one_drop (by omega), h.kind]
  calc frame.header
      = Wire.magic ++ [Wire.version] ++ [frame.kind.code] ++ toBigEndian 2 frame.flags ++
          toBigEndian 2 headerLen ++ toBigEndian 8 frame.streamId ++
          toBigEndian 8 frame.position.epoch ++ toBigEndian 8 frame.position.sequence ++
          toBigEndian 4 frame.payload.length := by simp [Frame.header]
    _ = input.take (2 + 1 + 1 + 2 + 2 + 8 + 8 + 8 + 4) := by
        rw [← h.magic, hversion, hkind, hflags, hlength, hstreamId, hepoch, hsequence, hpayload]
        simp only [List.take_add]
    _ = input.take headerLen := rfl

/-- An accepted frame encodes to exactly the bytes it was decoded from. -/
theorem encode (h : codec.Accepts input frame rest) :
    codec.encode frame = .ok ⟨frame.header, frame.payload⟩ ∧
      input = EncodedFrame.coalesce ⟨frame.header, frame.payload⟩ ++ rest := by
  refine ⟨encode_of_valid h.size h.valid, ?_⟩
  rw [EncodedFrame.coalesce, h.header_eq, List.append_assoc]
  exact h.split

theorem shorter (h : codec.Accepts input frame rest) : rest.length < input.length := by
  have hlength := congrArg List.length h.split
  rw [List.length_append, List.length_append, List.length_take] at hlength
  have hlong := h.header
  have hpos : 0 < headerLen := by decide
  omega

end Codec.Accepts

/-! ### Reading a stream -/

namespace Codec

/-- Decode as long as there is a frame: the frames, what is left and what went wrong. -/
def drain (codec : Codec) (buffer : Bytes) : List Frame × Bytes × Option ProtocolError :=
  match _h : codec.decode buffer with
  | (.error e, rest) => ([], rest, some e)
  | (.ok none, rest) => ([], rest, none)
  | (.ok (some frame), rest) =>
    let drained := codec.drain rest
    (frame :: drained.1, drained.2)
termination_by buffer.length
decreasing_by exact (decode_accepts _h).shorter

/-- What a reader has decoded, what it keeps of its input, and the error that ended it. -/
structure Reader where
  frames : List Frame
  buffer : Bytes
  failed : Option ProtocolError

def Reader.initial : Reader := ⟨[], [], none⟩

/-- Some more bytes arrive. -/
def feed (codec : Codec) (reader : Reader) (chunk : Bytes) : Reader :=
  match reader.failed with
  | some _ => reader
  | none =>
    let drained := codec.drain (reader.buffer ++ chunk)
    ⟨reader.frames ++ drained.1, drained.2.1, drained.2.2⟩

def read (codec : Codec) (chunks : List Bytes) : Reader := chunks.foldl codec.feed .initial

variable {frames : List Frame} {bytes rest : Bytes}

end Codec
end PiDeck.Wire
