import PiDeck.Transport.Link

/-! The two ends of a socket agree on the positions of a stream as long as no positioned frame
crosses a reset. The frames in flight that belong to the server's record lead from the server's
positions to the client's. -/
namespace PiDeck.Transport
open PiDeck.Wire PiDeck.Transition PiDeck.Transition.Machine

namespace ClientFrame

/-- The stream that a frame is for; an attach is for none. -/
def streamId : ClientFrame → Option ℕ
  | .attach .. => none
  | .control _ streamId .. | .input streamId .. | .resize streamId .. | .scrollback streamId .. =>
    some streamId

/-- Whether the server checks the frame's position. -/
def positioned : ClientFrame → Bool
  | .input .. | .resize .. | .scrollback .. => true
  | .attach .. | .control .. => false

/-- The input and control positions after a frame that continues the given ones. -/
def advance (positions : ℕ × ℕ) : ClientFrame → Option (ℕ × ℕ)
  | .input _ _ sequence payload =>
    if sequence = positions.1 + payload.length ∧ sequence ≤ maxSafeInteger then
      some (sequence, positions.2)
    else none
  | .resize _ _ sequence _ _ | .scrollback _ _ sequence _ _ _ =>
    if sequence = positions.2 + 1 ∧ sequence ≤ maxSafeInteger then some (positions.1, sequence)
    else none
  | .attach .. | .control .. => some positions

end ClientFrame

/-- The position that a frame carries is the one that the server expects next. -/
def StreamServer.Expects (server : StreamServer) : ClientFrame → Prop
  | .attach sequence _ _ _ => sequence ≠ 0
  | .input streamId epoch sequence payload => ∀ stream,
      server.terminalStreams streamId = some stream → epoch = stream.epoch →
        sequence = stream.expectedInput payload
  | .resize streamId epoch sequence _ _ | .scrollback streamId epoch sequence _ _ _ => ∀ stream,
      server.terminalStreams streamId = some stream → epoch = stream.epoch →
        sequence = stream.expectedControl
  | .control .. => True

namespace Link

/-- A positioned frame reaches the server while the record there is still the one that the client
built it from, and no history request is rejected by its encoder. -/
def InStep (s : Link) : LinkAction → Prop
  | .serve _ _ => ∀ sent ∈ s.toServer.head?, sent.frame.positioned = true →
      ∀ streamId ∈ sent.frame.streamId, ∀ stream ∈ s.server.terminalStreams streamId,
        sent.attach = stream.attach
  | .readHistory terminalId cursor maxBytes reverse _ => ∀ known ∈ s.client.streamFor terminalId,
      known.1 ∉ s.client.pendingHistory →
        (encodeTerminalScrollbackRequest known.1 known.2.epoch (known.2.controlPosition + 1) cursor
          maxBytes reverse).isSome = true
  | _ => True

instance (s : Link) (action : LinkAction) : Decidable (s.InStep action) := by
  cases action <;> unfold InStep <;> infer_instance

/-! The frames in flight for one record of a stream. -/

def carries (streamId attach : ℕ) (sent : Sent) : Bool :=
  decide (sent.frame.streamId = some streamId) && decide (sent.attach = attach)

/-- The positions after the frames in flight for a record. -/
def follow (streamId attach : ℕ) : List Sent → ℕ × ℕ → Option (ℕ × ℕ)
  | [], positions => some positions
  | sent :: rest, positions =>
    if carries streamId attach sent then
      (sent.frame.advance positions).bind (follow streamId attach rest)
    else follow streamId attach rest positions

variable {streamId attach : ℕ} {positions : ℕ × ℕ} {sent : Sent} {sents rest : List Sent}

theorem follow_append (sents more : List Sent) (positions : ℕ × ℕ) :
    follow streamId attach (sents ++ more) positions =
      (follow streamId attach sents positions).bind (follow streamId attach more) := by
  induction sents generalizing positions with
  | nil => rfl
  | cons sent sents ih =>
    simp only [List.cons_append, follow]
    split
    · cases sent.frame.advance positions with
      | none => rfl
      | some next => exact ih next
    · exact ih positions

theorem follow_of_not_carries (h : ∀ sent ∈ sents, carries streamId attach sent = false) :
    follow streamId attach sents positions = some positions := by
  induction sents with
  | nil => rfl
  | cons sent sents ih =>
    rw [follow, if_neg (by simp [h sent])]
    exact ih fun other hother => h other (List.mem_cons_of_mem _ hother)

def attachId (sent : Sent) : Option ℕ :=
  match sent.frame with
  | .attach _ requestId _ _ => some requestId
  | _ => none

def ackId : ServerFrame → Option ℕ
  | .attachAck requestId _ _ _ _ => some requestId
  | _ => none

/-- The attaches that are under way: first the acknowledgements, then the requests. -/
def underWay (s : Link) : List ℕ := s.toClient.filterMap ackId ++ s.toServer.filterMap attachId

/-- The invariant of an open link. -/
structure Agreed (s : Link) : Prop where
  sequenced : ∀ sent ∈ s.toServer, ∀ sequence requestId terminalId after,
    sent.frame = .attach sequence requestId terminalId after → sequence ≠ 0
  ordered : s.underWay.Pairwise (· < ·)
  issued : ∀ requestId ∈ s.underWay, requestId ≤ s.client.realtimeRequestSequence
  client : ∀ streamId record, s.client.terminalStreams streamId = some record →
    record.attach ≤ s.client.realtimeRequestSequence ∧
      ∀ requestId ∈ s.underWay, record.attach < requestId
  server : ∀ streamId record, s.server.terminalStreams streamId = some record →
    record.attach ≤ s.client.realtimeRequestSequence ∧
      ∀ requestId ∈ s.toServer.filterMap attachId, record.attach < requestId
  acks : ∀ requestId streamId epoch terminalId last,
    .attachAck requestId streamId epoch terminalId last ∈ s.toClient →
      ∀ record, s.server.terminalStreams streamId = some record → requestId ≤ record.attach
  behind : ∀ streamId ours theirs, s.client.terminalStreams streamId = some ours →
    s.server.terminalStreams streamId = some theirs → ours.attach ≤ theirs.attach
  frames : ∀ sent ∈ s.toServer, ∀ streamId, sent.frame.streamId = some streamId →
    ∃ record, s.client.terminalStreams streamId = some record ∧ sent.attach ≤ record.attach
  positions : ∀ streamId theirs, s.server.terminalStreams streamId = some theirs →
    (∃ ours, s.client.terminalStreams streamId = some ours ∧ ours.attach = theirs.attach ∧
      follow streamId theirs.attach s.toServer (theirs.inputPosition, theirs.controlPosition) =
        some (ours.inputPosition, ours.controlPosition)) ∨
    ((∀ ours, s.client.terminalStreams streamId = some ours → ours.attach < theirs.attach) ∧
      theirs.inputPosition = 0 ∧ theirs.controlPosition = 0)

end Link

/-! What the client's calls do. -/

/-- A call of the client and the frame that it sends, if any. -/
inductive ClientMove (before after : WebHostTransport) : Option Sent → Prop
  | still (requests : before.realtimeRequestSequence ≤ after.realtimeRequestSequence)
      (streams : after.terminalStreams = before.terminalStreams) : ClientMove before after none
  | attach (terminalId : String) (afterSequence : ℕ)
      (requests : after.realtimeRequestSequence = before.realtimeRequestSequence + 1)
      (streams : after.terminalStreams = before.terminalStreams) :
      ClientMove before after (some
        ⟨.attach after.realtimeRequestSequence after.realtimeRequestSequence terminalId
          afterSequence, after.realtimeRequestSequence⟩)
  | frame (streamId : ℕ) (ours moved : TerminalStream) (frame : ClientFrame)
      (requests : before.realtimeRequestSequence ≤ after.realtimeRequestSequence)
      (known : before.terminalStreams streamId = some ours)
      (streams : after.terminalStreams =
        Function.update before.terminalStreams streamId (some moved))
      (same : moved.attach = ours.attach) (stream : frame.streamId = some streamId)
      (advance : frame.advance (ours.inputPosition, ours.controlPosition) =
        some (moved.inputPosition, moved.controlPosition)) :
      ClientMove before after (some ⟨frame, ours.attach⟩)

namespace WebHostTransport
variable {transport : WebHostTransport} {terminalId : String} {taken : Bool} {streamId : ℕ}
  {stream : TerminalStream}

theorem streamFor_known (h : transport.streamFor terminalId = some (streamId, stream)) :
    transport.terminalStreams streamId = some stream := by
  simp only [streamFor, Option.bind_eq_some_iff, Option.map_eq_some_iff] at h
  obtain ⟨id, -, found, hfound, heq⟩ := h
  cases heq
  exact hfound

theorem toU64_eq_some {value encoded : ℕ} (h : toU64 value = some encoded) :
    encoded = value ∧ value ≤ maxSafeInteger := by
  unfold toU64 at h
  split at h
  · rename_i hle
    exact ⟨(Option.some.inj h).symm, hle⟩
  · cases h

/-- The numbers that stand before the payload of a positioned frame. -/
theorem encoded_eq_some {epoch sequence : ℕ} {build : ℕ → ℕ → ℕ → ClientFrame} {frame : ClientFrame}
    (h : (do
      let streamId ← toU64 streamId
      let epoch ← toU64 epoch
      let sequence ← toU64 sequence
      return build streamId epoch sequence) = some frame) :
    frame = build streamId epoch sequence ∧ sequence ≤ maxSafeInteger := by
  simp only [Option.bind_eq_bind, Option.bind_eq_some_iff, Option.pure_def] at h
  obtain ⟨id, hid, e, he, n, hn, heq⟩ := h
  obtain ⟨rfl, -⟩ := toU64_eq_some hid
  obtain ⟨rfl, -⟩ := toU64_eq_some he
  obtain ⟨rfl, hle⟩ := toU64_eq_some hn
  exact ⟨(Option.some.inj heq).symm, hle⟩

theorem encodeTerminalInputFrame_eq_some {epoch sequence : ℕ} {payload : Bytes}
    {frame : ClientFrame} (h : encodeTerminalInputFrame streamId epoch sequence payload = some frame) :
    frame = .input streamId epoch sequence payload ∧ sequence ≤ maxSafeInteger := by
  unfold encodeTerminalInputFrame at h
  split at h
  · cases h
  · exact encoded_eq_some h

theorem encodeTerminalResizeFrame_eq_some {epoch sequence : ℕ} {cols rows : ℤ}
    {frame : ClientFrame}
    (h : encodeTerminalResizeFrame streamId epoch sequence cols rows = some frame) :
    frame = .resize streamId epoch sequence cols.toNat rows.toNat ∧
      sequence ≤ maxSafeInteger := by
  unfold encodeTerminalResizeFrame at h
  split at h
  · cases h
  · exact encoded_eq_some h

theorem encodeTerminalScrollbackRequest_eq_some {epoch sequence : ℕ} {cursor maxBytes : ℤ}
    {reverse : Bool} {frame : ClientFrame}
    (h : encodeTerminalScrollbackRequest streamId epoch sequence cursor maxBytes reverse =
      some frame) :
    frame = .scrollback streamId epoch sequence cursor.toNat maxBytes.toNat reverse ∧
      sequence ≤ maxSafeInteger := by
  unfold encodeTerminalScrollbackRequest at h
  split at h
  · cases h
  · split at h
    · cases h
    · exact encoded_eq_some h

theorem invokeAttach_move (afterSequence : ℕ) :
    ClientMove transport (transport.invokeAttach terminalId afterSequence taken).1
      (transport.invokeAttach terminalId afterSequence taken).2 := by
  unfold invokeAttach
  cases taken with
  | true => exact .attach terminalId afterSequence rfl rfl
  | false => exact .still (Nat.le_succ _) rfl

theorem sendControl_move {op : HotOp} {observed : Bool} :
    ClientMove transport (transport.sendControl op terminalId observed taken).1
      (transport.sendControl op terminalId observed taken).2 := by
  unfold sendControl
  split
  · refine .still ?_ ?_
    · cases observed
      · exact Nat.le_refl _
      · exact Nat.le_succ _
    · cases observed <;> rfl
  · rename_i streamId stream hstream
    cases taken with
    | true =>
      refine .frame streamId stream stream _ ?_ (streamFor_known hstream) ?_ rfl rfl rfl
      · cases observed <;> exact Nat.le_succ _
      · rw [← streamFor_known hstream, Function.update_eq_self]
        cases observed <;> rfl
    | false => exact .still (Nat.le_succ _) rfl

theorem write_move {payload : Bytes} :
    ClientMove transport (transport.write terminalId payload taken).1
      (transport.write terminalId payload taken).2.1 := by
  unfold write
  split
  · exact .still (Nat.le_refl _) rfl
  · rename_i streamId stream hstream
    split
    · exact .still (Nat.le_refl _) rfl
    · dsimp only
      split
      · rename_i frame hencode
        obtain ⟨rfl, hle⟩ := encodeTerminalInputFrame_eq_some hencode
        exact .frame streamId stream _ _ (Nat.le_refl _) (streamFor_known hstream) rfl rfl rfl
          (if_pos ⟨rfl, hle⟩)
      · exact .still (Nat.le_refl _) rfl

theorem resize_move {cols rows : ℤ} :
    ClientMove transport (transport.resize terminalId cols rows taken).1
      (transport.resize terminalId cols rows taken).2.1 := by
  unfold resize
  split
  · exact .still (Nat.le_refl _) rfl
  · rename_i streamId stream hstream
    dsimp only
    split
    · rename_i frame hencode
      obtain ⟨rfl, hle⟩ := encodeTerminalResizeFrame_eq_some hencode
      exact .frame streamId stream _ _ (Nat.le_refl _) (streamFor_known hstream) rfl rfl rfl
        (if_pos ⟨rfl, hle⟩)
    · exact .still (Nat.le_refl _) rfl

theorem readTerminalHistory_move {cursor maxBytes : ℤ} {reverse : Bool}
    (hencodes : ∀ known ∈ transport.streamFor terminalId, known.1 ∉ transport.pendingHistory →
      (encodeTerminalScrollbackRequest known.1 known.2.epoch (known.2.controlPosition + 1) cursor
        maxBytes reverse).isSome = true) :
    ClientMove transport
      (transport.readTerminalHistory terminalId cursor maxBytes reverse taken).1
      (transport.readTerminalHistory terminalId cursor maxBytes reverse taken).2 := by
  unfold readTerminalHistory
  split
  · exact .still (Nat.le_refl _) rfl
  · rename_i streamId stream hstream
    split
    · exact .still (Nat.le_refl _) rfl
    · rename_i hpending
      dsimp only
      split
      · rename_i hnone
        have hencodes := hencodes (streamId, stream) hstream hpending
        simp [hnone] at hencodes
      · rename_i frame hencode
        obtain ⟨rfl, hle⟩ := encodeTerminalScrollbackRequest_eq_some hencode
        cases taken with
        | true =>
          exact .frame streamId stream _ _ (Nat.le_refl _) (streamFor_known hstream) rfl rfl rfl
            (if_pos ⟨rfl, hle⟩)
        | false => exact .still (Nat.le_refl _) rfl

end WebHostTransport

namespace Link
variable {s : Link} {client : WebHostTransport}

theorem carries_eq_false {streamId attach other : ℕ} {sent : Sent}
    (h : sent.frame.streamId = some other) (hne : other ≠ streamId ∨ sent.attach ≠ attach) :
    carries streamId attach sent = false := by
  rcases hne with hne | hne <;> simp [carries, h, hne]

/-- An attach is carried for no stream. -/
theorem carries_attach {streamId attach : ℕ} {sent : Sent} {requestId : ℕ}
    (h : attachId sent = some requestId) : carries streamId attach sent = false := by
  obtain ⟨frame, tag⟩ := sent
  cases frame <;> simp_all [attachId, carries, ClientFrame.streamId]

theorem attachId_of_streamId {sent : Sent} {streamId : ℕ}
    (h : sent.frame.streamId = some streamId) : attachId sent = none := by
  obtain ⟨frame, tag⟩ := sent
  cases frame <;> simp_all [attachId, ClientFrame.streamId]

theorem sends_still (hs : s.Agreed)
    (hrequests : s.client.realtimeRequestSequence ≤ client.realtimeRequestSequence)
    (hstreams : client.terminalStreams = s.client.terminalStreams) : (s.sends client none).Agreed := by
  have hlater : ∀ {n}, n ≤ s.client.realtimeRequestSequence → n ≤ client.realtimeRequestSequence :=
    fun h => h.trans hrequests
  have hqueue : (s.sends client none).toServer = s.toServer := by simp [sends]
  have hunder : (s.sends client none).underWay = s.underWay := by simp [underWay, sends]
  refine ⟨hqueue ▸ hs.sequenced, hunder ▸ hs.ordered, fun r hr => hlater (hs.issued r (hunder ▸ hr)),
    fun streamId record hrecord => ?_, fun streamId record hrecord => ?_, hs.acks,
    fun streamId ours theirs ho ht => ?_, fun sent hsent streamId hstream => ?_,
    fun streamId theirs ht => ?_⟩
  · obtain ⟨hle, hlt⟩ := hs.client streamId record (hstreams ▸ hrecord)
    exact ⟨hlater hle, fun r hr => hlt r (hunder ▸ hr)⟩
  · obtain ⟨hle, hlt⟩ := hs.server streamId record hrecord
    exact ⟨hlater hle, hqueue ▸ hlt⟩
  · exact hs.behind streamId ours theirs (hstreams ▸ ho) ht
  · exact hstreams ▸ hs.frames sent (hqueue ▸ hsent) streamId hstream
  · have := hs.positions streamId theirs ht
    rw [hqueue]
    exact hstreams ▸ this

/-- A new attach comes behind everything that is under way. -/
theorem sends_attach (hs : s.Agreed) (terminalId : String) (afterSequence : ℕ)
    (hrequests : client.realtimeRequestSequence = s.client.realtimeRequestSequence + 1)
    (hstreams : client.terminalStreams = s.client.terminalStreams) :
    (s.sends client (some ⟨.attach client.realtimeRequestSequence client.realtimeRequestSequence
      terminalId afterSequence, client.realtimeRequestSequence⟩)).Agreed := by
  set sent : Sent := ⟨.attach client.realtimeRequestSequence client.realtimeRequestSequence
    terminalId afterSequence, client.realtimeRequestSequence⟩ with hsent
  have hid : attachId sent = some client.realtimeRequestSequence := rfl
  have hqueue : (s.sends client (some sent)).toServer = s.toServer ++ [sent] := rfl
  have hunder : (s.sends client (some sent)).underWay =
      s.underWay ++ [client.realtimeRequestSequence] := by
    simp [underWay, sends, hid, List.append_assoc]
  have hnew : ∀ n ≤ s.client.realtimeRequestSequence, n < client.realtimeRequestSequence :=
    fun n hn => by omega
  refine ⟨?_, ?_, ?_, fun streamId record hrecord => ?_, fun streamId record hrecord => ?_, hs.acks,
    fun streamId ours theirs ho ht => ?_, fun other hother streamId hstream => ?_,
    fun streamId theirs ht => ?_⟩
  · intro other hother sequence requestId terminal after hframe
    rcases List.mem_append.mp hother with hother | hother
    · exact hs.sequenced other hother sequence requestId terminal after hframe
    · obtain rfl := List.mem_singleton.mp hother
      cases hframe
      omega
  · rw [hunder, List.pairwise_append]
    refine ⟨hs.ordered, List.pairwise_singleton _ _, fun a ha b hb => ?_⟩
    exact List.mem_singleton.mp hb ▸ hnew a (hs.issued a ha)
  · intro r hr
    rw [hunder] at hr
    rcases List.mem_append.mp hr with hr | hr
    · exact Nat.le_of_lt (hnew r (hs.issued r hr))
    · exact Nat.le_of_eq (List.mem_singleton.mp hr)
  · obtain ⟨hle, hlt⟩ := hs.client streamId record (hstreams ▸ hrecord)
    refine ⟨Nat.le_of_lt (hnew _ hle), fun r hr => ?_⟩
    rw [hunder] at hr
    rcases List.mem_append.mp hr with hr | hr
    · exact hlt r hr
    · exact List.mem_singleton.mp hr ▸ hnew _ hle
  · obtain ⟨hle, hlt⟩ := hs.server streamId record hrecord
    refine ⟨Nat.le_of_lt (hnew _ hle), fun r hr => ?_⟩
    rw [hqueue, List.filterMap_append] at hr
    rcases List.mem_append.mp hr with hr | hr
    · exact hlt r hr
    · have : r = client.realtimeRequestSequence := by simpa [hid] using hr
      exact this ▸ hnew _ hle
  · exact hs.behind streamId ours theirs (hstreams ▸ ho) ht
  · rcases List.mem_append.mp hother with hother | hother
    · exact hstreams ▸ hs.frames other hother streamId hstream
    · obtain rfl := List.mem_singleton.mp hother
      cases hstream
  · have hfollow : ∀ positions, follow streamId theirs.attach (s.toServer ++ [sent]) positions =
        follow streamId theirs.attach s.toServer positions := by
      intro positions
      rw [follow_append]
      cases follow streamId theirs.attach s.toServer positions with
      | none => rfl
      | some next =>
        refine follow_of_not_carries fun other hother => ?_
        exact List.mem_singleton.mp hother ▸ carries_attach hid
    rw [hqueue, hfollow]
    exact hstreams ▸ hs.positions streamId theirs ht

/-- A frame of a stream continues the frames in flight for the client's record. -/
theorem sends_frame (hs : s.Agreed) {streamId : ℕ} {ours moved : TerminalStream}
    {frame : ClientFrame}
    (hrequests : s.client.realtimeRequestSequence ≤ client.realtimeRequestSequence)
    (hknown : s.client.terminalStreams streamId = some ours)
    (hstreams : client.terminalStreams =
      Function.update s.client.terminalStreams streamId (some moved))
    (hsame : moved.attach = ours.attach) (hstream : frame.streamId = some streamId)
    (hadvance : frame.advance (ours.inputPosition, ours.controlPosition) =
      some (moved.inputPosition, moved.controlPosition)) :
    (s.sends client (some ⟨frame, ours.attach⟩)).Agreed := by
  set sent : Sent := ⟨frame, ours.attach⟩ with hsent
  have hid : attachId sent = none := attachId_of_streamId hstream
  have hqueue : (s.sends client (some sent)).toServer = s.toServer ++ [sent] := rfl
  have hunder : (s.sends client (some sent)).underWay = s.underWay := by
    simp [underWay, sends, hid]
  -- Every record of the client keeps its attach.
  have hrecord : ∀ other record, client.terminalStreams other = some record →
      ∃ before, s.client.terminalStreams other = some before ∧ before.attach = record.attach := by
    intro other record hother
    by_cases heq : other = streamId
    · subst heq
      obtain rfl : moved = record := by simpa [hstreams] using hother
      exact ⟨ours, hknown, hsame.symm⟩
    · exact ⟨record, by simpa [hstreams, heq] using hother, rfl⟩
  have hkept : ∀ other before, s.client.terminalStreams other = some before →
      ∃ record, client.terminalStreams other = some record ∧ before.attach = record.attach := by
    intro other before hbefore
    by_cases heq : other = streamId
    · subst heq
      obtain rfl : ours = before := Option.some.inj (hknown.symm.trans hbefore)
      exact ⟨moved, by simp [hstreams], hsame.symm⟩
    · exact ⟨before, by simpa [hstreams, heq] using hbefore, rfl⟩
  refine ⟨?_, hunder ▸ hs.ordered, fun r hr => (hs.issued r (hunder ▸ hr)).trans hrequests,
    fun other record hother => ?_, fun other record hother => ?_, hs.acks,
    fun other ours' theirs ho ht => ?_, fun queued hqueued other hother => ?_,
    fun other theirs ht => ?_⟩
  · intro queued hqueued sequence requestId terminal after hframe
    rcases List.mem_append.mp hqueued with hqueued | hqueued
    · exact hs.sequenced queued hqueued sequence requestId terminal after hframe
    · obtain rfl := List.mem_singleton.mp hqueued
      have hframe' : frame = .attach sequence requestId terminal after := hframe
      simp [hframe', ClientFrame.streamId] at hstream
  · obtain ⟨before, hbefore, heq⟩ := hrecord other record hother
    obtain ⟨hle, hlt⟩ := hs.client other before hbefore
    exact heq ▸ ⟨hle.trans hrequests, fun r hr => hlt r (hunder ▸ hr)⟩
  · obtain ⟨hle, hlt⟩ := hs.server other record hother
    refine ⟨hle.trans hrequests, fun r hr => hlt r ?_⟩
    simpa [hqueue, hid] using hr
  · obtain ⟨before, hbefore, heq⟩ := hrecord other ours' ho
    exact heq ▸ hs.behind other before theirs hbefore ht
  · rcases List.mem_append.mp hqueued with hqueued | hqueued
    · obtain ⟨before, hbefore, hle⟩ := hs.frames queued hqueued other hother
      obtain ⟨record, hrec, heq⟩ := hkept other before hbefore
      exact ⟨record, hrec, heq ▸ hle⟩
    · obtain rfl := List.mem_singleton.mp hqueued
      obtain rfl : streamId = other := Option.some.inj (hstream.symm.trans hother)
      exact ⟨moved, by simp [sends, hstreams], Nat.le_of_eq hsame.symm⟩
  · rw [hqueue]
    rcases hs.positions other theirs ht with ⟨ours', ho, hattach, hfollow⟩ | ⟨hbehind, hzero⟩
    · refine .inl ?_
      by_cases heq : other = streamId
      · subst heq
        obtain rfl : ours = ours' := Option.some.inj (hknown.symm.trans ho)
        refine ⟨moved, by simp [sends, hstreams], hsame.trans hattach, ?_⟩
        have hcarries : carries other theirs.attach sent = true := by
          simp [carries, hsent, hstream, hattach]
        rw [follow_append, hfollow, Option.bind_some, follow, if_pos hcarries]
        exact (congrArg (Option.bind · _) hadvance).trans rfl
      · refine ⟨ours', by simpa [sends, hstreams, heq] using ho, hattach, ?_⟩
        rw [follow_append, hfollow, Option.bind_some]
        refine follow_of_not_carries fun queued hqueued => ?_
        exact List.mem_singleton.mp hqueued ▸ carries_eq_false hstream (.inl (Ne.symm heq))
    · refine .inr ⟨fun ours' ho => ?_, hzero⟩
      obtain ⟨before, hbefore, heq⟩ := hrecord other ours' ho
      exact heq ▸ hbehind before hbefore

theorem move_agreed (hs : s.Agreed) {sent : Option Sent} (h : ClientMove s.client client sent) :
    (s.sends client sent).Agreed := by
  cases h with
  | still hrequests hstreams => exact sends_still hs hrequests hstreams
  | attach terminalId afterSequence hrequests hstreams =>
    exact sends_attach hs terminalId afterSequence hrequests hstreams
  | frame streamId ours moved frame hrequests hknown hstreams hsame hstream hadvance =>
    exact sends_frame hs hrequests hknown hstreams hsame hstream hadvance

/-! What the server does with the next frame. -/

variable {sent : Sent} {rest : List Sent} {server : StreamServer} {replies : List ServerFrame}

def taken (s : Link) (server : StreamServer) (rest : List Sent) (replies : List ServerFrame) :
    Link :=
  { s with server := server, toServer := rest, toClient := s.toClient ++ replies }

/-- A frame of a stream that leaves the stream's record where the frame leads. -/
theorem taken_frame (hs : s.Agreed) (hqueue : s.toServer = sent :: rest) {streamId : ℕ}
    {theirs moved : ServerStream} (hstream : sent.frame.streamId = some streamId)
    (hknown : s.server.terminalStreams streamId = some theirs)
    (hstreams : server.terminalStreams =
      Function.update s.server.terminalStreams streamId (some moved))
    (hsame : moved.attach = theirs.attach)
    (hadvance : sent.attach = theirs.attach →
      sent.frame.advance (theirs.inputPosition, theirs.controlPosition) =
        some (moved.inputPosition, moved.controlPosition))
    (hstray : sent.attach ≠ theirs.attach →
      moved.inputPosition = theirs.inputPosition ∧ moved.controlPosition = theirs.controlPosition)
    (hreplies : replies.filterMap ackId = []) : (s.taken server rest replies).Agreed := by
  have hid : attachId sent = none := attachId_of_streamId hstream
  have hmem : ∀ queued ∈ rest, queued ∈ s.toServer := fun queued h =>
    hqueue ▸ List.mem_cons_of_mem _ h
  have hattaches : rest.filterMap attachId = s.toServer.filterMap attachId := by
    simp [hqueue, hid]
  have hunder : (s.taken server rest replies).underWay = s.underWay := by
    simp [underWay, taken, hreplies, hattaches]
  have hrecord : ∀ other record, server.terminalStreams other = some record →
      ∃ before, s.server.terminalStreams other = some before ∧ before.attach = record.attach := by
    intro other record hother
    by_cases heq : other = streamId
    · subst heq
      obtain rfl : moved = record := by simpa [hstreams] using hother
      exact ⟨theirs, hknown, hsame.symm⟩
    · exact ⟨record, by simpa [hstreams, heq] using hother, rfl⟩
  refine ⟨fun queued hq => hs.sequenced queued (hmem queued hq), hunder ▸ hs.ordered,
    hunder ▸ hs.issued, hunder ▸ hs.client, fun other record hother => ?_,
    fun requestId other epoch terminalId last hack record hother => ?_,
    fun other ours record ho hother => ?_, fun queued hq => hs.frames queued (hmem queued hq),
    fun other record hother => ?_⟩
  · obtain ⟨before, hbefore, heq⟩ := hrecord other record hother
    exact heq ▸ hattaches ▸ hs.server other before hbefore
  · obtain ⟨before, hbefore, heq⟩ := hrecord other record hother
    rcases List.mem_append.mp hack with hack | hack
    · exact heq ▸ hs.acks requestId other epoch terminalId last hack before hbefore
    · have := List.filterMap_eq_nil_iff.mp hreplies _ hack
      cases this
  · obtain ⟨before, hbefore, heq⟩ := hrecord other record hother
    exact heq ▸ hs.behind other ours before ho hbefore
  · by_cases heq : other = streamId
    · subst heq
      obtain rfl : moved = record := by simpa [taken, hstreams] using hother
      rcases hs.positions other theirs hknown with ⟨ours, ho, hattach, hfollow⟩ | ⟨hbehind, hzero⟩
      · refine .inl ⟨ours, ho, hattach.trans hsame.symm, ?_⟩
        show follow other moved.attach rest _ = _
        rw [hqueue, follow] at hfollow
        rw [hsame]
        by_cases htag : sent.attach = theirs.attach
        · rw [if_pos (by simp [carries, hstream, htag]), hadvance htag] at hfollow
          exact hfollow
        · rw [if_neg (by simp [carries, htag])] at hfollow
          rw [(hstray htag).1, (hstray htag).2]
          exact hfollow
      · -- No frame in flight is for a record that the client has not seen yet.
        have htag : sent.attach ≠ theirs.attach := by
          obtain ⟨ours, ho, hle⟩ := hs.frames sent (hqueue ▸ List.mem_cons_self) other hstream
          have := hbehind ours ho
          omega
        exact .inr ⟨fun ours ho => hsame ▸ hbehind ours ho, (hstray htag).1.trans hzero.1,
          (hstray htag).2.trans hzero.2⟩
    · have hother' : s.server.terminalStreams other = some record := by
        simpa [taken, hstreams, heq] using hother
      rcases hs.positions other record hother' with ⟨ours, ho, hattach, hfollow⟩ | hzero
      · refine .inl ⟨ours, ho, hattach, ?_⟩
        rw [hqueue, follow, if_neg] at hfollow
        · exact hfollow
        · simp [carries_eq_false hstream (.inl (Ne.symm heq))]
      · exact .inr hzero

/-- A detached stream is forgotten by the server. -/
theorem taken_detach (hs : s.Agreed) (hqueue : s.toServer = sent :: rest) {streamId : ℕ}
    (hstream : sent.frame.streamId = some streamId)
    (hstreams : server.terminalStreams = Function.update s.server.terminalStreams streamId none)
    (hreplies : replies.filterMap ackId = []) : (s.taken server rest replies).Agreed := by
  have hid : attachId sent = none := attachId_of_streamId hstream
  have hmem : ∀ queued ∈ rest, queued ∈ s.toServer := fun queued h =>
    hqueue ▸ List.mem_cons_of_mem _ h
  have hattaches : rest.filterMap attachId = s.toServer.filterMap attachId := by
    simp [hqueue, hid]
  have hunder : (s.taken server rest replies).underWay = s.underWay := by
    simp [underWay, taken, hreplies, hattaches]
  have hrecord : ∀ other record, server.terminalStreams other = some record →
      other ≠ streamId ∧ s.server.terminalStreams other = some record := by
    intro other record hother
    by_cases heq : other = streamId
    · simp [hstreams, heq] at hother
    · exact ⟨heq, by simpa [hstreams, heq] using hother⟩
  refine ⟨fun queued hq => hs.sequenced queued (hmem queued hq), hunder ▸ hs.ordered,
    hunder ▸ hs.issued, hunder ▸ hs.client, fun other record hother => ?_,
    fun requestId other epoch terminalId last hack record hother => ?_,
    fun other ours record ho hother => hs.behind other ours record ho (hrecord other record hother).2,
    fun queued hq => hs.frames queued (hmem queued hq), fun other record hother => ?_⟩
  · exact hattaches ▸ hs.server other record (hrecord other record hother).2
  · rcases List.mem_append.mp hack with hack | hack
    · exact hs.acks requestId other epoch terminalId last hack record (hrecord other record hother).2
    · have := List.filterMap_eq_nil_iff.mp hreplies _ hack
      cases this
  · obtain ⟨heq, hother'⟩ := hrecord other record hother
    rcases hs.positions other record hother' with ⟨ours, ho, hattach, hfollow⟩ | hzero
    · refine .inl ⟨ours, ho, hattach, ?_⟩
      rw [hqueue, follow, if_neg] at hfollow
      · exact hfollow
      · simp [carries_eq_false hstream (.inl (Ne.symm heq))]
    · exact .inr hzero

/-- The attach at the head is newer than everything but what follows it. -/
theorem head_attach (hs : s.Agreed) (hqueue : s.toServer = sent :: rest) {requestId : ℕ}
    (hid : attachId sent = some requestId) :
    s.underWay = s.toClient.filterMap ackId ++ requestId :: rest.filterMap attachId ∧
      (∀ ack ∈ s.toClient.filterMap ackId, ack < requestId) ∧
      ∀ later ∈ rest.filterMap attachId, requestId < later := by
  have hunder : s.underWay = s.toClient.filterMap ackId ++ requestId :: rest.filterMap attachId := by
    simp [underWay, hqueue, hid]
  have hordered := hunder ▸ hs.ordered
  obtain ⟨-, hlater, hbefore⟩ := List.pairwise_append.mp hordered
  exact ⟨hunder, fun ack hack => hbefore ack hack requestId List.mem_cons_self,
    (List.pairwise_cons.mp hlater).1⟩

theorem taken_refused (hs : s.Agreed) (hqueue : s.toServer = sent :: rest) {requestId : ℕ}
    (hid : attachId sent = some requestId) (hstreams : server.terminalStreams = s.server.terminalStreams)
    (hreplies : replies.filterMap ackId = []) : (s.taken server rest replies).Agreed := by
  obtain ⟨hunder, -, -⟩ := head_attach hs hqueue hid
  have hmem : ∀ queued ∈ rest, queued ∈ s.toServer := fun queued h =>
    hqueue ▸ List.mem_cons_of_mem _ h
  have hsub : ∀ r ∈ (s.taken server rest replies).underWay, r ∈ s.underWay := by
    intro r hr
    rw [hunder]
    simp only [underWay, taken, List.filterMap_append, hreplies, List.append_nil,
      List.mem_append] at hr
    rcases hr with hr | hr
    · exact List.mem_append_left _ hr
    · exact List.mem_append_right _ (List.mem_cons_of_mem _ hr)
  refine ⟨fun queued hq => hs.sequenced queued (hmem queued hq), ?_, fun r hr => hs.issued r (hsub r hr),
    fun other record hother => ?_, fun other record hother => ?_,
    fun requestId other epoch terminalId last hack record hother => ?_,
    fun other ours record ho hother => hs.behind other ours record ho (hstreams ▸ hother),
    fun queued hq => hs.frames queued (hmem queued hq), fun other record hother => ?_⟩
  · have hsublist : (s.taken server rest replies).underWay.Sublist s.underWay := by
      rw [hunder]
      simp only [underWay, taken, List.filterMap_append, hreplies, List.append_nil]
      exact List.Sublist.append (List.Sublist.refl _) (List.sublist_cons_self _ _)
    exact hs.ordered.sublist hsublist
  · obtain ⟨hle, hlt⟩ := hs.client other record hother
    exact ⟨hle, fun r hr => hlt r (hsub r hr)⟩
  · obtain ⟨hle, hlt⟩ := hs.server other record (hstreams ▸ hother)
    exact ⟨hle, fun r hr => hlt r (by rw [hqueue, List.filterMap_cons, hid]; exact List.mem_cons_of_mem _ hr)⟩
  · rcases List.mem_append.mp hack with hack | hack
    · exact hs.acks requestId other epoch terminalId last hack record (hstreams ▸ hother)
    · have := List.filterMap_eq_nil_iff.mp hreplies _ hack
      cases this
  · rcases hs.positions other record (hstreams ▸ hother) with ⟨ours, ho, hattach, hfollow⟩ | hzero
    · refine .inl ⟨ours, ho, hattach, ?_⟩
      rw [hqueue, follow, if_neg] at hfollow
      · exact hfollow
      · simp [carries_attach hid]
    · exact .inr hzero

/-- An accepted attach starts a record at zero, which the client has not seen yet. -/
theorem taken_attached (hs : s.Agreed) (hqueue : s.toServer = sent :: rest) {requestId : ℕ}
    (hid : attachId sent = some requestId) {streamId epoch last : ℕ} {terminalId : String}
    (hstreams : server.terminalStreams = Function.update s.server.terminalStreams streamId (some
      ⟨terminalId, epoch, 0, 0, requestId⟩)) :
    (s.taken server rest [.attachAck requestId streamId epoch terminalId last]).Agreed := by
  obtain ⟨hunder, hacks, hlater⟩ := head_attach hs hqueue hid
  have hmem : ∀ queued ∈ rest, queued ∈ s.toServer := fun queued h =>
    hqueue ▸ List.mem_cons_of_mem _ h
  have hsame : (s.taken server rest [.attachAck requestId streamId epoch terminalId last]).underWay =
      s.underWay := by
    rw [hunder]
    simp [underWay, taken, ackId]
  have hunderId : requestId ∈ s.underWay := hunder ▸ List.mem_append_right _ List.mem_cons_self
  refine ⟨fun queued hq => hs.sequenced queued (hmem queued hq), hsame ▸ hs.ordered,
    hsame ▸ hs.issued, hsame ▸ hs.client, fun other record hother => ?_,
    fun ack other epoch' terminalId' last' hack record hother => ?_,
    fun other ours record ho hother => ?_, fun queued hq => hs.frames queued (hmem queued hq),
    fun other record hother => ?_⟩
  · by_cases heq : other = streamId
    · subst heq
      obtain rfl := by simpa [taken, hstreams] using hother
      exact ⟨hs.issued requestId hunderId, hlater⟩
    · obtain ⟨hle, hlt⟩ := hs.server other record (by simpa [taken, hstreams, heq] using hother)
      refine ⟨hle, fun r hr => hlt r ?_⟩
      rw [hqueue, List.filterMap_cons, hid]
      exact List.mem_cons_of_mem _ hr
  · rcases List.mem_append.mp hack with hold | hnew
    · by_cases heq : other = streamId
      · subst heq
        obtain rfl := by simpa [taken, hstreams] using hother
        exact Nat.le_of_lt (hacks ack (List.mem_filterMap.mpr
          ⟨.attachAck ack other epoch' terminalId' last', hold, rfl⟩))
      · exact hs.acks ack other epoch' terminalId' last' hold record
          (by simpa [taken, hstreams, heq] using hother)
    · cases List.mem_singleton.mp hnew
      obtain rfl := by simpa [taken, hstreams] using hother
      exact Nat.le_refl _
  · by_cases heq : other = streamId
    · subst heq
      obtain rfl := by simpa [taken, hstreams] using hother
      exact Nat.le_of_lt ((hs.client other ours ho).2 requestId hunderId)
    · exact hs.behind other ours record ho (by simpa [taken, hstreams, heq] using hother)
  · by_cases heq : other = streamId
    · subst heq
      obtain rfl := by simpa [taken, hstreams] using hother
      exact .inr ⟨fun ours ho => (hs.client other ours ho).2 requestId hunderId, rfl, rfl⟩
    · have hother' : s.server.terminalStreams other = some record := by
        simpa [taken, hstreams, heq] using hother
      rcases hs.positions other record hother' with ⟨ours, ho, hattach, hfollow⟩ | hzero
      · refine .inl ⟨ours, ho, hattach, ?_⟩
        rw [hqueue, follow, if_neg] at hfollow
        · exact hfollow
        · simp [carries_attach hid]
      · exact .inr hzero

/-- The frame that the server takes next carries the position that the server expects. -/
theorem head_expected (hs : s.Agreed) (hqueue : s.toServer = sent :: rest) {outcome : Outcome}
    {enqueued : Bool} (hg : s.InStep (.serve outcome enqueued)) : s.server.Expects sent.frame := by
  have hhead : sent ∈ s.toServer.head? := by simp [hqueue]
  -- A positioned frame continues the positions of the record there.
  have hcontinues : ∀ streamId theirs, sent.frame.positioned = true →
      sent.frame.streamId = some streamId → s.server.terminalStreams streamId = some theirs →
      ∃ next, sent.frame.advance (theirs.inputPosition, theirs.controlPosition) = some next := by
    intro streamId theirs hpositioned hstream hknown
    have htag := hg sent hhead hpositioned streamId hstream theirs hknown
    rcases hs.positions streamId theirs hknown with ⟨ours, ho, hattach, hfollow⟩ | ⟨hbehind, -⟩
    · rw [hqueue, follow, if_pos (by simp [carries, hstream, htag])] at hfollow
      obtain ⟨next, hnext, -⟩ := Option.bind_eq_some_iff.mp hfollow
      exact ⟨next, hnext⟩
    · obtain ⟨ours, ho, hle⟩ := hs.frames sent (hqueue ▸ List.mem_cons_self) streamId hstream
      have := hbehind ours ho
      omega
  cases hframe : sent.frame with
  | attach sequence requestId terminalId after =>
    exact hs.sequenced sent (hqueue ▸ List.mem_cons_self) sequence requestId terminalId after hframe
  | control => trivial
  | input streamId epoch sequence payload =>
    intro theirs hknown _
    obtain ⟨next, hnext⟩ := hcontinues streamId theirs (by simp [hframe, ClientFrame.positioned])
      (by simp [hframe, ClientFrame.streamId]) hknown
    simp only [hframe, ClientFrame.advance] at hnext
    split at hnext
    · rename_i hpos
      obtain ⟨hpos, hsafe⟩ := hpos
      simp only [ServerStream.expectedInput, maxSafeInteger] at *
      omega
    · cases hnext
  | resize streamId epoch sequence cols rows =>
    intro theirs hknown _
    obtain ⟨next, hnext⟩ := hcontinues streamId theirs (by simp [hframe, ClientFrame.positioned])
      (by simp [hframe, ClientFrame.streamId]) hknown
    simp only [hframe, ClientFrame.advance] at hnext
    split at hnext
    · rename_i hpos
      obtain ⟨hpos, hsafe⟩ := hpos
      simp only [ServerStream.expectedControl, maxSafeInteger] at *
      omega
    · cases hnext
  | scrollback streamId epoch sequence cursor maxBytes reverse =>
    intro theirs hknown _
    obtain ⟨next, hnext⟩ := hcontinues streamId theirs (by simp [hframe, ClientFrame.positioned])
      (by simp [hframe, ClientFrame.streamId]) hknown
    simp only [hframe, ClientFrame.advance] at hnext
    split at hnext
    · rename_i hpos
      obtain ⟨hpos, hsafe⟩ := hpos
      simp only [ServerStream.expectedControl, maxSafeInteger] at *
      omega
    · cases hnext

/-- The reasons to close a socket whose positions do not agree. -/
def gapReasons : List String := [inputGap, controlGap, invalidAttach]

/-- The invariant of every link: an open one agrees, a closed one was not closed for a gap. -/
structure Sound (s : Link) : Prop where
  agreed : s.server.closed = none → s.Agreed
  closed : ∀ code reason, s.server.closed = some (code, reason) → reason ∉ gapReasons

theorem sound_closeWith {code : ℕ} {reason : String} (hreason : reason ∉ gapReasons) :
    (s.taken (server.closeWith code reason).1 rest (server.closeWith code reason).2).Sound :=
  ⟨fun h => by simp [taken, StreamServer.closeWith] at h, fun _ _ h => by
    obtain ⟨-, rfl⟩ := Prod.mk.inj (Option.some.inj h)
    exact hreason⟩

theorem sound_answer {enqueued : Bool} (h : (s.taken server rest replies).Sound) :
    (s.taken (server.answer replies enqueued).1 rest (server.answer replies enqueued).2).Sound := by
  unfold StreamServer.answer
  split
  · exact h
  · exact sound_closeWith (by decide)

theorem sound_report {outcome : Outcome} {enqueued : Bool}
    (h : ∀ replies, replies.filterMap ackId = [] → (s.taken server rest replies).Sound) :
    (s.taken (server.report outcome enqueued).1 rest (server.report outcome enqueued).2).Sound := by
  unfold StreamServer.report
  split
  · exact sound_answer (h _ rfl)
  · exact h [] rfl

theorem sound_of_agreed (hopen : s.server.closed = none) (hclosed : server.closed = s.server.closed)
    (h : (s.taken server rest replies).Agreed) : (s.taken server rest replies).Sound :=
  ⟨fun _ => h, fun _ _ hsome => by simp [taken, hclosed, hopen] at hsome⟩

/-- A positioned frame that meets its position moves the server's record. -/
theorem sound_positioned (hs : s.Agreed) (hopen : s.server.closed = none)
    (hqueue : s.toServer = sent :: rest) {streamId : ℕ} {theirs moved : ServerStream}
    (hstream : sent.frame.streamId = some streamId)
    (hknown : s.server.terminalStreams streamId = some theirs)
    (htag : sent.attach = theirs.attach) (hsame : moved.attach = theirs.attach)
    (hadvance : ∀ next,
      sent.frame.advance (theirs.inputPosition, theirs.controlPosition) = some next →
        next = (moved.inputPosition, moved.controlPosition))
    (replies : List ServerFrame) (hreplies : replies.filterMap ackId = []) :
    (s.taken (s.server.setStream streamId (some moved)) rest replies).Sound := by
  refine sound_of_agreed hopen rfl (taken_frame hs hqueue hstream hknown rfl hsame (fun _ => ?_)
    (fun hne => absurd htag hne) hreplies)
  rcases hs.positions streamId theirs hknown with ⟨ours, -, -, hfollow⟩ | ⟨hbehind, -⟩
  · rw [hqueue, follow, if_pos (by simp [carries, hstream, htag])] at hfollow
    obtain ⟨next, hnext, -⟩ := Option.bind_eq_some_iff.mp hfollow
    rw [hnext, hadvance next hnext]
  · obtain ⟨ours, ho, hle⟩ := hs.frames sent (hqueue ▸ List.mem_cons_self) streamId hstream
    have := hbehind ours ho
    omega

theorem serve_sound (hs : s.Agreed) (hopen : s.server.closed = none)
    (hqueue : s.toServer = sent :: rest) {outcome : Outcome} {enqueued : Bool}
    (hg : s.InStep (.serve outcome enqueued)) :
    (s.taken (s.server.handleFrame sent.frame outcome enqueued).1 rest
      (s.server.handleFrame sent.frame outcome enqueued).2).Sound := by
  have hexpects := head_expected hs hqueue hg
  have hhead : sent ∈ s.toServer.head? := by simp [hqueue]
  cases hframe : sent.frame with
  | attach sequence requestId terminalId after =>
    have hid : attachId sent = some requestId := by simp [attachId, hframe]
    rw [hframe] at hexpects
    simp only [StreamServer.handleFrame, StreamServer.handleAttach, if_neg hexpects]
    split
    · exact sound_answer (sound_of_agreed hopen rfl (taken_attached hs hqueue hid rfl))
    · exact sound_answer (sound_of_agreed hopen rfl (taken_refused hs hqueue hid rfl rfl))
  | control op streamId epoch sequence requestId =>
    have hstream : sent.frame.streamId = some streamId := by simp [hframe, ClientFrame.streamId]
    simp only [StreamServer.handleFrame]
    split
    · exact sound_closeWith (by decide)
    · rename_i theirs hknown
      split
      · exact sound_closeWith (by decide)
      · have hreply : [if outcome = .done then ServerFrame.controlAck requestId
            else .error (some requestId)].filterMap ackId = [] := by
          split <;> rfl
        cases enqueued with
        | false =>
          simp only [StreamServer.answer, Bool.false_eq_true, if_false, and_false]
          exact sound_closeWith (by decide)
        | true =>
          by_cases hop : op = .detach
          · simp only [StreamServer.answer, if_pos, hop, true_and]
            exact sound_of_agreed hopen rfl (taken_detach hs hqueue hstream rfl hreply)
          · simp only [StreamServer.answer, if_true, hop, false_and, if_false]
            refine sound_of_agreed hopen rfl (taken_frame hs hqueue hstream hknown ?_ rfl
              (fun _ => by rw [hframe]; rfl) (fun _ => ⟨rfl, rfl⟩) hreply)
            rw [← hknown, Function.update_eq_self]
  | input streamId epoch sequence payload =>
    have hstream : sent.frame.streamId = some streamId := by simp [hframe, ClientFrame.streamId]
    rw [hframe] at hexpects
    simp only [StreamServer.handleFrame]
    split
    · exact sound_closeWith (by decide)
    · split
      · exact sound_closeWith (by decide)
      · rename_i theirs hknown
        split
        · exact sound_closeWith (by decide)
        · rename_i hepoch
          have hexpected := hexpects theirs hknown (not_not.mp hepoch)
          rw [if_neg (not_not.mpr hexpected)]
          refine sound_report (sound_positioned hs hopen hqueue hstream hknown
            (hg sent hhead (by simp [hframe, ClientFrame.positioned]) streamId hstream theirs hknown)
            rfl fun next hnext => ?_)
          simp only [hframe, ClientFrame.advance] at hnext
          split at hnext
          · exact hexpected ▸ (Option.some.inj hnext).symm
          · cases hnext
  | resize streamId epoch sequence cols rows =>
    have hstream : sent.frame.streamId = some streamId := by simp [hframe, ClientFrame.streamId]
    rw [hframe] at hexpects
    simp only [StreamServer.handleFrame]
    split
    · exact sound_closeWith (by decide)
    · rename_i theirs hknown
      split
      · exact sound_closeWith (by decide)
      · rename_i hepoch
        have hexpected := hexpects theirs hknown (not_not.mp hepoch)
        rw [if_neg (not_not.mpr hexpected)]
        refine sound_report (sound_positioned hs hopen hqueue hstream hknown
          (hg sent hhead (by simp [hframe, ClientFrame.positioned]) streamId hstream theirs hknown)
          rfl fun next hnext => ?_)
        simp only [hframe, ClientFrame.advance] at hnext
        split at hnext
        · exact hexpected ▸ (Option.some.inj hnext).symm
        · cases hnext
  | scrollback streamId epoch sequence cursor maxBytes reverse =>
    have hstream : sent.frame.streamId = some streamId := by simp [hframe, ClientFrame.streamId]
    rw [hframe] at hexpects
    simp only [StreamServer.handleFrame]
    split
    · exact sound_closeWith (by decide)
    · rename_i theirs hknown
      split
      · exact sound_closeWith (by decide)
      · rename_i hepoch
        have hexpected := hexpects theirs hknown (not_not.mp hepoch)
        rw [if_neg (not_not.mpr hexpected)]
        split
        · exact sound_closeWith (by decide)
        · let moved : ServerStream := { theirs with controlPosition := theirs.expectedControl }
          have hmoved : ∀ next,
              sent.frame.advance (theirs.inputPosition, theirs.controlPosition) = some next →
                next = (moved.inputPosition, moved.controlPosition) := by
            intro next hnext
            simp only [hframe, ClientFrame.advance] at hnext
            split at hnext
            · show next = (theirs.inputPosition, theirs.expectedControl)
              exact hexpected ▸ (Option.some.inj hnext).symm
            · cases hnext
          have hsame : moved.attach = theirs.attach := rfl
          exact sound_positioned hs hopen hqueue hstream hknown
            (hg sent hhead (by simp [hframe, ClientFrame.positioned]) streamId hstream theirs hknown)
            hsame hmoved [] rfl

/-! What the client does with an answer. -/

/-- An answer that is no acknowledgement of a pending attach leaves the streams alone. -/
theorem received_still (hs : s.Agreed) {reply : ServerFrame} {rest : List ServerFrame}
    (hqueue : s.toClient = reply :: rest)
    (hrequests : client.realtimeRequestSequence = s.client.realtimeRequestSequence)
    (hstreams : client.terminalStreams = s.client.terminalStreams) :
    ({ s with client := client, toClient := rest } : Link).Agreed := by
  have hsublist : ({ s with client := client, toClient := rest } : Link).underWay.Sublist
      s.underWay := by
    refine List.Sublist.append ?_ (List.Sublist.refl _)
    rw [hqueue]
    exact (List.sublist_cons_self reply rest).filterMap ackId
  have hsub := hsublist.subset
  refine ⟨hs.sequenced, hs.ordered.sublist hsublist, fun r hr => ?_, fun other record hother => ?_,
    fun other record hother => ?_, fun requestId other epoch terminalId last hack =>
      hs.acks requestId other epoch terminalId last (hqueue ▸ List.mem_cons_of_mem _ hack),
    hstreams ▸ hs.behind, fun sent hsent other hother => hstreams ▸ hs.frames sent hsent other hother,
    fun other record hother => hstreams ▸ hs.positions other record hother⟩
  · exact hrequests ▸ hs.issued r (hsub hr)
  · obtain ⟨hle, hlt⟩ := hs.client other record (hstreams ▸ hother)
    exact ⟨hrequests ▸ hle, fun r hr => hlt r (hsub hr)⟩
  · exact hrequests ▸ hs.server other record hother

/-- An acknowledgement starts the client's record at zero, where the server's record, if it is
still the one acknowledged, has stayed. -/
theorem received_ack (hs : s.Agreed) {rest : List ServerFrame}
    {requestId streamId epoch last : ℕ} {terminalId : String}
    (hqueue : s.toClient = .attachAck requestId streamId epoch terminalId last :: rest)
    (hrequests : client.realtimeRequestSequence = s.client.realtimeRequestSequence)
    {ours : TerminalStream} (hstreams : client.terminalStreams =
      Function.update s.client.terminalStreams streamId (some ours))
    (hattach : ours.attach = requestId) (hinput : ours.inputPosition = 0)
    (hcontrol : ours.controlPosition = 0) :
    ({ s with client := client, toClient := rest } : Link).Agreed := by
  have hunder : s.underWay = requestId ::
      ({ s with client := client, toClient := rest } : Link).underWay := by
    simp [underWay, hqueue, ackId]
  obtain ⟨hlater, hordered⟩ := List.pairwise_cons.mp (hunder ▸ hs.ordered)
  have hsub : ∀ r ∈ ({ s with client := client, toClient := rest } : Link).underWay,
      r ∈ s.underWay := fun r hr => hunder ▸ List.mem_cons_of_mem _ hr
  have hmem : requestId ∈ s.underWay := hunder ▸ List.mem_cons_self
  have holder : ∀ record, s.client.terminalStreams streamId = some record →
      record.attach < requestId := fun record hrecord =>
    (hs.client streamId record hrecord).2 requestId hmem
  have hnewer : ∀ theirs, s.server.terminalStreams streamId = some theirs →
      requestId ≤ theirs.attach :=
    hs.acks requestId streamId epoch terminalId last (hqueue ▸ List.mem_cons_self)
  refine ⟨hs.sequenced, hordered, fun r hr => hrequests ▸ hs.issued r (hsub r hr),
    fun other record hother => ?_, fun other record hother => hrequests ▸ hs.server other record hother,
    fun ack other epoch' terminalId' last' hack =>
      hs.acks ack other epoch' terminalId' last' (hqueue ▸ List.mem_cons_of_mem _ hack),
    fun other record theirs hother htheirs => ?_, fun sent hsent other hother => ?_,
    fun other theirs htheirs => ?_⟩
  · by_cases heq : other = streamId
    · subst heq
      obtain rfl : ours = record := by simpa [hstreams] using hother
      exact hattach ▸ ⟨hrequests ▸ hs.issued requestId hmem, hlater⟩
    · obtain ⟨hle, hlt⟩ := hs.client other record (by simpa [hstreams, heq] using hother)
      exact ⟨hrequests ▸ hle, fun r hr => hlt r (hsub r hr)⟩
  · by_cases heq : other = streamId
    · subst heq
      obtain rfl : ours = record := by simpa [hstreams] using hother
      exact hattach ▸ hnewer theirs htheirs
    · exact hs.behind other record theirs (by simpa [hstreams, heq] using hother) htheirs
  · obtain ⟨record, hrecord, hle⟩ := hs.frames sent hsent other hother
    by_cases heq : other = streamId
    · subst heq
      refine ⟨ours, by simp [hstreams], ?_⟩
      have := holder record hrecord
      omega
    · exact ⟨record, by simpa [hstreams, heq] using hrecord, hle⟩
  · by_cases heq : other = streamId
    · subst heq
      -- Whatever the server's record is, the client had not seen it before.
      have hzero : theirs.inputPosition = 0 ∧ theirs.controlPosition = 0 := by
        rcases hs.positions other theirs htheirs with ⟨record, hrecord, htag, -⟩ | ⟨-, hzero⟩
        · have := holder record hrecord
          have := hnewer theirs htheirs
          omega
        · exact hzero
      by_cases htag : requestId = theirs.attach
      · refine .inl ⟨ours, by simp [hstreams], hattach.trans htag, ?_⟩
        rw [hzero.1, hzero.2, hinput, hcontrol]
        refine follow_of_not_carries fun sent hsent => ?_
        cases hstream : sent.frame.streamId with
        | none => simp [carries, hstream]
        | some target =>
          by_cases htarget : target = other
          · subst htarget
            obtain ⟨record, hrecord, hle⟩ := hs.frames sent hsent target hstream
            have := holder record hrecord
            exact carries_eq_false hstream (.inr (by omega))
          · exact carries_eq_false hstream (.inl htarget)
      · refine .inr ⟨fun record hrecord => ?_, hzero⟩
        obtain rfl : ours = record := by simpa [hstreams] using hrecord
        have := hnewer theirs htheirs
        omega
    · have hupdate : client.terminalStreams other = s.client.terminalStreams other := by
        simp [hstreams, heq]
      have := hs.positions other theirs htheirs
      rwa [← hupdate] at this

theorem receive_agreed (hs : s.Agreed) {reply : ServerFrame} {rest : List ServerFrame}
    (hqueue : s.toClient = reply :: rest) :
    ({ s with client := s.client.resolveRealtime reply, toClient := rest } : Link).Agreed := by
  unfold WebHostTransport.resolveRealtime
  split
  · split
    · dsimp only
      split
      · exact received_ack hs hqueue rfl rfl rfl rfl rfl
      · exact received_still hs hqueue rfl rfl
    · exact received_still hs hqueue rfl rfl
  all_goals exact received_still hs hqueue rfl rfl

/-! Whole runs. -/

theorem step_sound {s' : Link} {action : LinkAction} (hs : s.Sound) (hg : s.InStep action)
    (h : s.step action = some s') : s'.Sound := by
  have hmove : ∀ client sent, ClientMove s.client client sent →
      (s.sends client sent).Sound := fun _ _ hclient =>
    ⟨fun hopen => move_agreed (hs.agreed hopen) hclient, hs.closed⟩
  cases action with
  | attach terminalId afterSequence taken =>
    cases h
    exact hmove _ _ (WebHostTransport.invokeAttach_move afterSequence)
  | control op terminalId observed taken =>
    simp only [step] at h
    split at h
    · cases h
    · cases h
      exact hmove _ _ WebHostTransport.sendControl_move
  | timeout requestId =>
    cases h
    have := hmove (s.client.timeout requestId) none (.still (Nat.le_refl _) rfl)
    simpa [sends] using this
  | write terminalId payload taken =>
    cases h
    exact hmove _ _ WebHostTransport.write_move
  | resize terminalId cols rows taken =>
    cases h
    exact hmove _ _ WebHostTransport.resize_move
  | readHistory terminalId cursor maxBytes reverse taken =>
    cases h
    exact hmove _ _ (WebHostTransport.readTerminalHistory_move hg)
  | historyEnds streamId =>
    cases h
    have := hmove (s.client.historyEnds streamId) none (.still (Nat.le_refl _) rfl)
    simpa [sends] using this
  | serve outcome enqueued =>
    simp only [step] at h
    split at h
    · rename_i sent rest hopen hqueue
      cases h
      exact serve_sound (hs.agreed hopen) hopen hqueue hg
    · cases h
  | receive =>
    simp only [step] at h
    split at h
    · rename_i reply rest hqueue
      cases h
      exact ⟨fun hopen => receive_agreed (hs.agreed hopen) hqueue, hs.closed⟩
    · cases h

theorem initial_sound : initial.Sound :=
  ⟨fun _ => ⟨by simp [initial], List.Pairwise.nil, by simp [initial, underWay],
    by simp [initial, WebHostTransport.opened], by simp [initial], by simp [initial],
    by simp [initial], by simp [initial], by simp [initial]⟩, by simp [initial]⟩

theorem run_sound {actions : List LinkAction} (h : machine.Path InStep initial actions s) :
    s.Sound :=
  h.invariant (I := Sound) (fun _ _ _ hs hg hstep => step_sound hs hg hstep) initial_sound

/-- The socket is never closed for a gap, and every frame that the server takes carries the
position that the server expects. -/
theorem positions_agree {actions : List LinkAction} (h : machine.Path InStep initial actions s) :
    (∀ code reason, s.server.closed = some (code, reason) → reason ∉ gapReasons) ∧
      ∀ sent rest outcome enqueued, s.server.closed = none → s.toServer = sent :: rest →
        s.InStep (.serve outcome enqueued) → s.server.Expects sent.frame := by
  have hs := run_sound h
  exact ⟨hs.closed, fun sent rest outcome enqueued hopen hqueue hg =>
    head_expected (hs.agreed hopen) hqueue hg⟩

/-- Attach the stream again with everything settled, then send in the new positions. -/
theorem positions_agree_reattached : ∃ s, machine.Path InStep initial
      [.attach "term" 0 true, .serve (.attached 7 0) true, .receive, .write "term" [97, 98, 99] true,
        .serve .done true, .attach "term" 0 true, .serve (.attached 7 0) true, .receive,
        .write "term" [100] true, .resize "term" 80 24 true, .serve .done true] s ∧
      (∀ code reason, s.server.closed = some (code, reason) → reason ∉ gapReasons) ∧
      ∀ sent rest outcome enqueued, s.server.closed = none → s.toServer = sent :: rest →
        s.InStep (.serve outcome enqueued) → s.server.Expects sent.frame := by
  obtain ⟨s, hs⟩ := Option.isSome_iff_exists.mp
    (by decide +kernel : (machine.exec InStep initial
      [.attach "term" 0 true, .serve (.attached 7 0) true, .receive, .write "term" [97, 98, 99] true,
        .serve .done true, .attach "term" 0 true, .serve (.attached 7 0) true, .receive,
        .write "term" [100] true, .resize "term" 80 24 true, .serve .done true]).isSome = true)
  exact ⟨s, path_of_exec hs, positions_agree (path_of_exec hs)⟩

/-- Input sent behind an attach that is still unanswered meets the position that it reset. -/
theorem input_across_attach : ¬ ∀ (actions : List LinkAction) (s : Link),
    machine.Run initial actions s →
      (∀ code reason, s.server.closed = some (code, reason) → reason ∉ gapReasons) ∧
      ∀ sent rest, s.server.closed = none → s.toServer = sent :: rest →
        s.server.Expects sent.frame := by
  intro h
  obtain ⟨s, hs, hclosed⟩ := Option.bind_eq_some_iff.mp
    (by decide +kernel : (machine.exec (fun _ _ => True) initial
      [.attach "term" 0 true, .serve (.attached 7 0) true, .receive, .write "term" [97, 98, 99] true,
        .serve .done true, .attach "term" 0 true, .write "term" [100, 101] true,
        .serve (.attached 7 0) true, .serve .done true]).bind (·.server.closed) =
      some (1002, inputGap))
  exact (h _ s (path_of_exec hs)).1 1002 inputGap hclosed (by decide)

end Link
end PiDeck.Transport
