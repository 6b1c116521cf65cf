import Mathlib
import PiDeck.History.Paging
import PiDeck.Transport.Link
import PiDeck.Wire.ClientCodec

/-! History requests over the binary socket, from the bytes that the client writes to the page that
the history reads. The client's encoder allows 8 MiB a page and the socket's loop 256 KiB. -/
namespace PiDeck.Transport
open PiDeck.Storage PiDeck.Wire

def defaultPageBytes : ℕ := 256 * 1024

/-- A page that the socket's loop asks the history for. -/
structure PageRequest where
  terminalId : String
  cursor : ℕ
  maxBytes : ℕ
  reverse : Bool
  deriving DecidableEq

/-- The byte limit under which the history reads the page. -/
def PageRequest.limit (request : PageRequest) : ℕ :=
  History.pageLimit defaultPageBytes (some request.maxBytes)

/-- What the loop makes of a binary message. The frames of other kinds have their own handlers. -/
inductive BinaryResult
  | closed
  | page (request : PageRequest)
  | delegated (kind : FrameType)
  deriving DecidableEq

namespace StreamServer

variable (server : StreamServer)

def refuse (reason : String) : StreamServer × BinaryResult :=
  ((server.closeWith 1002 reason).1, .closed)

def scrollbackDirection : UInt8 → Option Bool
  | 0 => some false
  | 1 => some true
  | _ => none

/-- The branch of a history request on the stream of its frame. -/
def handleScrollbackBegin (stream : ServerStream) (frame : Frame) : StreamServer × BinaryResult :=
  let expected := stream.expectedControl
  if frame.position.sequence ≠ expected then server.refuse controlGap
  else
    let cursor := bigEndianAt 0 8 frame.payload
    let maxBytes := bigEndianAt 8 4 frame.payload
    match scrollbackDirection (frame.payload.getD 12 0) with
    | none => server.refuse "invalid scrollback direction"
    | some reverse =>
      if ¬ (1 ≤ maxBytes ∧ maxBytes ≤ 256 * 1024) then
        server.refuse "invalid scrollback byte limit"
      else
        (server.setStream frame.streamId (some { stream with controlPosition := expected }),
          .page ⟨stream.terminalId, cursor, maxBytes, reverse⟩)

def handleOnStream (stream : ServerStream) (frame : Frame) : StreamServer × BinaryResult :=
  match frame.kind with
  | .pong | .resyncRequest | .ready | .detach | .input => (server, .delegated frame.kind)
  | .scrollbackBegin =>
    if frame.payload.length = 13 then server.handleScrollbackBegin stream frame
    else server.refuse "unsupported terminal binary frame"
  | .resize =>
    if frame.payload.length = 4 then (server, .delegated frame.kind)
    else server.refuse "unsupported terminal binary frame"
  | _ => server.refuse "unsupported terminal binary frame"

def handleDecoded (frame : Frame) : StreamServer × BinaryResult :=
  if frame.kind = .ping ∨ frame.kind = .attach then (server, .delegated frame.kind)
  else
    match server.terminalStreams frame.streamId with
    | none => server.refuse "unknown terminal stream"
    | some stream =>
      if frame.position.epoch ≠ stream.epoch then server.refuse "stale terminal stream epoch"
      else server.handleOnStream stream frame

/-- `Message::Binary` in the loop. A message holds exactly one frame. -/
def handleBinary (data : Bytes) : StreamServer × BinaryResult :=
  match (default : Codec).decode data with
  | (.ok (some frame), []) => server.handleDecoded frame
  | (.ok (some _), _ :: _) =>
    server.refuse "multiple terminal frames in one websocket message"
  | _ => server.refuse "invalid terminal binary frame"

end StreamServer

/-! ### The request on the wire -/

section Request
variable {streamId epoch sequence cursor maxBytes : Client.Number} {reverse : Bool} {bytes : Bytes}

/-- What an accepted history request says about its arguments. -/
theorem encodeTerminalScrollbackRequest_bounds
    (h : Client.encodeTerminalScrollbackRequest streamId epoch sequence cursor maxBytes reverse =
      some bytes) :
    cursor.toNat < 256 ^ 8 ∧ 1 ≤ maxBytes.toNat ∧ maxBytes.toNat ≤ 8 * 1024 * 1024 := by
  simp only [Client.encodeTerminalScrollbackRequest, Option.bind_eq_bind,
    Option.bind_eq_some_iff] at h
  obtain ⟨position, hposition, limit, hlimit, h⟩ := h
  obtain ⟨hposition, hsafe⟩ := Client.toU64_eq_some hposition
  obtain ⟨hlimit, -⟩ := Client.toU64_eq_some hlimit
  have hwide : Client.maxSafeInteger < 256 ^ 8 := by decide
  split at h
  · cases h
  · rename_i hbounds
    omega

/-- The server decodes the request as the client meant it. -/
theorem decode_scrollbackRequest
    (h : Client.encodeTerminalScrollbackRequest streamId epoch sequence cursor maxBytes reverse =
      some bytes) :
    (default : Codec).decode bytes =
      (.ok (some (Client.clientFrame .scrollbackBegin streamId epoch sequence
        (Client.scrollbackPayload cursor.toNat maxBytes.toNat reverse))), []) := by
  let call := Client.Call.scrollback streamId epoch sequence cursor maxBytes reverse
  have hcall : call.encode (fun _ => "") = some bytes := h
  obtain ⟨rfl, hfits, hvalid⟩ := Client.Call.encode_eq _ hcall
  have hlength : (call.frame fun _ => "").payload.length = 13 := by
    simp [call, Client.Call.frame, Client.clientFrame, Client.scrollbackPayload]
  have hsize : (call.frame fun _ => "").payload.length ≤ (default : Codec).maxPayload := by
    rw [hlength]
    decide
  have hencode := Codec.encode_of_valid hsize hvalid
  have hdecode := Codec.decode_encoded hencode hfits (by rw [hlength]; decide) []
  rw [List.append_nil] at hdecode
  exact hdecode

theorem scrollbackPayload_cursor {cursor : ℕ} (h : cursor < 256 ^ 8) (maxBytes : ℕ)
    (reverse : Bool) :
    bigEndianAt 0 8 (Client.scrollbackPayload cursor maxBytes reverse) = cursor := by
  have hfield := bigEndianAt_field []
    (toBigEndian 4 maxBytes ++ [if reverse then 1 else 0]) h
  simpa [Client.scrollbackPayload] using hfield

theorem scrollbackPayload_maxBytes {maxBytes : ℕ} (h : maxBytes < 256 ^ 4) (cursor : ℕ)
    (reverse : Bool) :
    bigEndianAt 8 4 (Client.scrollbackPayload cursor maxBytes reverse) = maxBytes := by
  have hfield := bigEndianAt_field (toBigEndian 8 cursor) [if reverse then 1 else 0] h
  simpa [Client.scrollbackPayload] using hfield

theorem scrollbackPayload_reverse (cursor maxBytes : ℕ) (reverse : Bool) :
    StreamServer.scrollbackDirection
      ((Client.scrollbackPayload cursor maxBytes reverse).getD 12 0) = some reverse := by
  have hbyte : (Client.scrollbackPayload cursor maxBytes reverse).getD 12 0 =
      if reverse then 1 else 0 := by
    rw [Client.scrollbackPayload, List.getD_append_right _ _ _ _ (by simp)]
    simp
  rw [hbyte]
  cases reverse <;> rfl

/-- The loop on a request that the client has written: each check in its order. -/
theorem handleBinary_request (server : StreamServer)
    (h : Client.encodeTerminalScrollbackRequest streamId epoch sequence cursor maxBytes reverse =
      some bytes) :
    server.handleBinary bytes =
      match server.terminalStreams streamId.toNat with
      | none => server.refuse "unknown terminal stream"
      | some stream =>
        if epoch.toNat ≠ stream.epoch then server.refuse "stale terminal stream epoch"
        else if sequence.toNat ≠ stream.expectedControl then server.refuse controlGap
        else if 256 * 1024 < maxBytes.toNat then server.refuse "invalid scrollback byte limit"
        else
          (server.setStream streamId.toNat
              (some { stream with controlPosition := stream.expectedControl }),
            .page ⟨stream.terminalId, cursor.toNat, maxBytes.toNat, reverse⟩) := by
  obtain ⟨hcursor, hpositive, hmost⟩ := encodeTerminalScrollbackRequest_bounds h
  have hlength : (Client.scrollbackPayload cursor.toNat maxBytes.toNat reverse).length = 13 := by
    simp [Client.scrollbackPayload]
  rw [StreamServer.handleBinary, decode_scrollbackRequest h]
  simp only [StreamServer.handleDecoded, Client.clientFrame, reduceCtorEq, or_self, if_false]
  cases server.terminalStreams streamId.toNat with
  | none => rfl
  | some stream =>
    simp only [StreamServer.handleOnStream, hlength, if_true, StreamServer.handleScrollbackBegin,
      scrollbackPayload_cursor hcursor, scrollbackPayload_reverse,
      scrollbackPayload_maxBytes (show maxBytes.toNat < 256 ^ 4 by omega), hpositive, true_and,
      not_le]

/-- The socket's model, which takes frames apart already, does the same to the streams. -/
theorem handleBinary_handleFrame (server : StreamServer) (outcome : Outcome) (enqueued : Bool)
    (h : Client.encodeTerminalScrollbackRequest streamId epoch sequence cursor maxBytes reverse =
      some bytes) :
    (server.handleBinary bytes).1 =
      (server.handleFrame (.scrollback streamId.toNat epoch.toNat sequence.toNat cursor.toNat
        maxBytes.toNat reverse) outcome enqueued).1 := by
  obtain ⟨-, hpositive, -⟩ := encodeTerminalScrollbackRequest_bounds h
  rw [handleBinary_request server h]
  simp only [StreamServer.handleFrame]
  cases server.terminalStreams streamId.toNat with
  | none => rfl
  | some stream =>
    simp only [hpositive, true_and, not_le]
    split_ifs <;> rfl

/-- The loop takes the message, leaves the connection open and has the history read a page from the
requested cursor, in the requested direction and under the requested limit. -/
def StreamServer.Serves (server : StreamServer) (bytes : Bytes) (cursor maxBytes : ℕ)
    (reverse : Bool) : Prop :=
  ∃ request, (server.handleBinary bytes).2 = .page request ∧
    (server.handleBinary bytes).1.closed = server.closed ∧
    request.cursor = cursor ∧ request.limit = maxBytes ∧ request.reverse = reverse

/-- The stream that a request names is there, in the request's epoch and at the position before
the request's. -/
def StreamServer.Awaits (server : StreamServer) (streamId epoch sequence : ℕ) : Prop :=
  ∃ stream, server.terminalStreams streamId = some stream ∧ stream.epoch = epoch ∧
    stream.expectedControl = sequence

/-- Up to its own page size the history applies the limit that it is asked for. -/
theorem PageRequest.limit_eq {request : PageRequest} (hpositive : 1 ≤ request.maxBytes)
    (hmost : request.maxBytes ≤ 256 * 1024) : request.limit = request.maxBytes := by
  rw [PageRequest.limit, History.pageLimit, Option.getD_some, defaultPageBytes,
    min_eq_left hmost, max_eq_right hpositive]

/-- A request that the client's encoder has accepted is served as requested exactly when its stream
expects it and it asks for at most 256 KiB. -/
theorem StreamServer.serves_iff (server : StreamServer)
    (h : Client.encodeTerminalScrollbackRequest streamId epoch sequence cursor maxBytes reverse =
      some bytes) :
    server.Serves bytes cursor.toNat maxBytes.toNat reverse ↔
      server.Awaits streamId.toNat epoch.toNat sequence.toNat ∧
        maxBytes.toNat ≤ 256 * 1024 := by
  obtain ⟨-, hpositive, -⟩ := encodeTerminalScrollbackRequest_bounds h
  have hrun := handleBinary_request server h
  cases hstream : server.terminalStreams streamId.toNat with
  | none =>
    rw [hstream] at hrun
    constructor
    · rintro ⟨request, hpage, -⟩
      rw [hrun] at hpage
      cases hpage
    · rintro ⟨⟨stream, hsome, -⟩, -⟩
      rw [hstream] at hsome
      cases hsome
  | some stream =>
    rw [hstream] at hrun
    simp only at hrun
    constructor
    · rintro ⟨request, hpage, -⟩
      rw [hrun] at hpage
      by_cases hepoch : epoch.toNat = stream.epoch
      · by_cases hsequence : sequence.toNat = stream.expectedControl
        · refine ⟨⟨stream, hstream, hepoch.symm, hsequence.symm⟩, not_lt.mp fun hlong => ?_⟩
          rw [if_neg (not_not.mpr hepoch), if_neg (not_not.mpr hsequence), if_pos hlong] at hpage
          cases hpage
        · rw [if_neg (not_not.mpr hepoch), if_pos hsequence] at hpage
          cases hpage
      · rw [if_pos hepoch] at hpage
        cases hpage
    · rintro ⟨⟨stream', hsome, hepoch, hsequence⟩, hmost⟩
      obtain rfl := Option.some.inj (hstream.symm.trans hsome)
      rw [if_neg (not_not.mpr hepoch.symm), if_neg (not_not.mpr hsequence.symm),
        if_neg (not_lt.mpr hmost)] at hrun
      refine ⟨_, congrArg Prod.snd hrun, congrArg (fun result => result.1.closed) hrun, rfl, ?_, rfl⟩
      exact PageRequest.limit_eq hpositive hmost

end Request

/-- A connection with one attached terminal, before its first control frame. -/
def attachedServer : StreamServer :=
  ⟨fun streamId => if streamId = 17 then some ⟨"terminal-1", 9, 0, 0, 1⟩ else none, none⟩

theorem handleBinary_handleFrame_page : ∃ bytes,
    Client.encodeTerminalScrollbackRequest (.integer 17) (.integer 9) (.integer 1) (.integer 4096)
      (.integer 262144) true = some bytes ∧ (attachedServer.handleBinary bytes).1 =
        (attachedServer.handleFrame (.scrollback 17 9 1 4096 262144 true) .done true).1 := by
  obtain ⟨bytes, h⟩ : ∃ bytes, Client.encodeTerminalScrollbackRequest (.integer 17) (.integer 9)
      (.integer 1) (.integer 4096) (.integer 262144) true = some bytes := ⟨_, rfl⟩
  exact ⟨bytes, h, handleBinary_handleFrame attachedServer .done true h⟩

theorem serves_quarter_mebibyte : ∃ bytes,
    Client.encodeTerminalScrollbackRequest (.integer 17) (.integer 9) (.integer 1) (.integer 4096)
      (.integer 262144) true = some bytes ∧ attachedServer.Serves bytes 4096 262144 true := by
  obtain ⟨bytes, h⟩ : ∃ bytes, Client.encodeTerminalScrollbackRequest (.integer 17) (.integer 9)
      (.integer 1) (.integer 4096) (.integer 262144) true = some bytes := ⟨_, rfl⟩
  exact ⟨bytes, h, (attachedServer.serves_iff h).mpr ⟨⟨_, rfl, rfl, rfl⟩, by decide⟩⟩

/-- One byte more is what the encoder still accepts; the connection is closed for it. -/
theorem long_page_closes : ∃ bytes,
    Client.encodeTerminalScrollbackRequest (.integer 17) (.integer 9) (.integer 1) (.integer 4096)
      (.integer 262145) true = some bytes ∧
    attachedServer.Awaits 17 9 1 ∧ ¬attachedServer.Serves bytes 4096 262145 true ∧
    (attachedServer.handleBinary bytes).1.closed =
      some (1002, "invalid scrollback byte limit") := by
  obtain ⟨bytes, h⟩ : ∃ bytes, Client.encodeTerminalScrollbackRequest (.integer 17) (.integer 9)
      (.integer 1) (.integer 4096) (.integer 262145) true = some bytes := ⟨_, rfl⟩
  have hrun : attachedServer.handleBinary bytes =
      attachedServer.refuse "invalid scrollback byte limit" := handleBinary_request attachedServer h
  refine ⟨bytes, h, ⟨_, rfl, rfl, rfl⟩, ?_, by rw [hrun]; rfl⟩
  rintro ⟨request, hpage, -⟩
  rw [hrun] at hpage
  cases hpage

end PiDeck.Transport
