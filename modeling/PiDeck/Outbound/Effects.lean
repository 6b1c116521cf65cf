import Mathlib
import PiDeck.Outbound.Connection

/-! What each operation on a connection's outbound side does to the queued data of one terminal and
to whether its emissions are accepted. -/
namespace PiDeck.Outbound
open PiDeck.Wire

/-- The live data of one terminal that a frame carries. -/
def ptyData (terminalId : String) (frame : OutboundFrame) : Option Frame :=
  match frame.data with
  | .binary data =>
    if frame.terminalId = some terminalId ∧ data.kind = .ptyData then some data else none
  | .text _ => none

theorem ptyData_eq_some {t : String} {f : OutboundFrame} {data : Frame} :
    ptyData t f = some data ↔
      f.data = .binary data ∧ f.terminalId = some t ∧ data.kind = .ptyData := by
  unfold ptyData
  cases hd : f.data with
  | text d => simp
  | binary d =>
    by_cases hc : f.terminalId = some t ∧ d.kind = .ptyData
    · simp only [if_pos hc, Option.some.injEq, FrameData.binary.injEq]
      exact ⟨fun h => ⟨h, h ▸ hc⟩, fun h => h.1⟩
    · simp only [if_neg hc, reduceCtorEq, FrameData.binary.injEq, false_iff]
      rintro ⟨rfl, h⟩
      exact hc h

theorem ptyData_eq_none_of_ne {t : String} {f : OutboundFrame} (h : f.terminalId ≠ some t) :
    ptyData t f = none := by
  refine Option.eq_none_iff_forall_not_mem.mpr fun data hd => h (ptyData_eq_some.mp hd).2.1

namespace OutboundMailbox
variable {mailbox : OutboundMailbox}

/-- The live data waiting for one terminal. -/
def queuedData (mailbox : OutboundMailbox) (t : String) : List Frame :=
  mailbox.liveFrames.filterMap (ptyData t)

theorem Extends.queuedData {before after : OutboundMailbox} {control live : List OutboundFrame}
    (h : Extends before after control live) (t : String) :
    after.queuedData t = before.queuedData t ++ live.filterMap (ptyData t) := by
  simp [OutboundMailbox.queuedData, h.live]

theorem queuedData_discard_of_ne {t terminalId : String} (predicate : ℕ → Bool)
    (h : t ≠ terminalId) :
    (mailbox.discardTerminalWhere terminalId predicate).queuedData t = mailbox.queuedData t := by
  rw [queuedData, liveFrames_discardTerminalWhere, List.filterMap_filter, queuedData]
  refine List.filterMap_congr fun f _ => ?_
  split
  · rfl
  · rename_i hc
    have hid : f.terminalId = some terminalId := by
      by_contra hne
      simp [hne] at hc
    exact (ptyData_eq_none_of_ne (by simp [hid, Ne.symm h])).symm

/-- Live frames are filed under the sequence of the data that they carry. -/
def Sequenced (mailbox : OutboundMailbox) : Prop :=
  ∀ f ∈ mailbox.liveFrames, ∀ t data, ptyData t f = some data →
    f.terminalSequence = some data.position.sequence

theorem queuedData_discard_self (hs : mailbox.Sequenced) (t : String) (predicate : ℕ → Bool) :
    (mailbox.discardTerminalWhere t predicate).queuedData t =
      (mailbox.queuedData t).filter fun data => !predicate data.position.sequence := by
  rw [queuedData, liveFrames_discardTerminalWhere, List.filterMap_filter, queuedData,
    List.filter_filterMap]
  refine List.filterMap_congr fun f hf => ?_
  cases hd : ptyData t f with
  | none => simp
  | some data =>
    have hseq := hs f hf t data hd
    have hid := (ptyData_eq_some.mp hd).2.1
    cases hp : predicate data.position.sequence <;> simp [hid, hseq, hp, Option.filter]

end OutboundMailbox

namespace ConnectionOutbound
variable {outbound after : ConnectionOutbound} {t : String}

/-- Whether an emission of the terminal would be enqueued, flow control permitting. -/
def Accepting (outbound : ConnectionOutbound) (t : String) : Prop :=
  outbound.stopped = false ∧ outbound.close = none ∧ t ∉ outbound.replayRequired ∧
    outbound.flow t ≠ none

/-- Nothing changes for the terminal, except that its emissions may stop being accepted. -/
structure Quiet (before after : ConnectionOutbound) (t : String) : Prop where
  queued : after.mailbox.queuedData t = before.mailbox.queuedData t
  accepting : after.Accepting t → before.Accepting t

theorem Quiet.refl (outbound : ConnectionOutbound) (t : String) : Quiet outbound outbound t :=
  ⟨rfl, id⟩

theorem Quiet.trans {a b c : ConnectionOutbound} (h : Quiet a b t) (k : Quiet b c t) :
    Quiet a c t :=
  ⟨k.queued.trans h.queued, fun hc => h.accepting (k.accepting hc)⟩

/-- A frame that carries no live data. -/
def Reply (frame : OutboundFrame) : Prop :=
  frame.terminalId = none ∧ ∀ data, frame.data = .binary data → data.kind ≠ .ptyData

/-- The priority lane grows at its end, live frames at most go, and other frames are replies. -/
structure Upholds (before after : ConnectionOutbound) : Prop where
  control : before.mailbox.controlFrames <+: after.mailbox.controlFrames
  live : ∀ f ∈ after.mailbox.liveFrames, f ∈ before.mailbox.liveFrames
  other : ∀ f ∈ after.mailbox.otherFrames, f ∈ before.mailbox.otherFrames ∨ Reply f

theorem Upholds.of_mailbox {before after : ConnectionOutbound}
    (h : after.mailbox = before.mailbox) : Upholds before after := by
  refine ⟨by rw [h], ?_, ?_⟩ <;> rw [h]
  · exact fun _ hf => hf
  · exact fun _ hf => .inl hf

theorem Upholds.trans {a b c : ConnectionOutbound} (h : Upholds a b) (k : Upholds b c) :
    Upholds a c where
  control := h.control.trans k.control
  live f hf := h.live f (k.live f hf)
  other f hf := by
    rcases k.other f hf with hf | hr
    · exact h.other f hf
    · exact .inr hr

theorem reply_text (data : Bytes) : Reply (.text data) := ⟨rfl, by simp [OutboundFrame.text]⟩

theorem reply_binary {frame : Frame} (h : frame.kind ≠ .ptyData) : Reply (.binary frame) := by
  refine ⟨rfl, fun data hd => ?_⟩
  obtain rfl : frame = data := by simpa [OutboundFrame.binary] using hd
  exact h

theorem enqueueReliableFrame_quiet {frame : OutboundFrame} (hr : Reply frame) (t : String) :
    Quiet outbound (outbound.enqueueReliableFrame frame).1 t ∧
      Upholds outbound (outbound.enqueueReliableFrame frame).1 := by
  obtain ⟨hext, hother⟩ :=
    OutboundMailbox.enqueueReliable_spec outbound.mailbox frame
  unfold enqueueReliableFrame
  split
  · exact ⟨.refl _ _, .of_mailbox rfl⟩
  · dsimp only
    split
    · refine ⟨⟨by simpa using hext.queuedData t, id⟩, by simp [hext.control],
        by simp [hext.live], fun f hf => ?_⟩
      rcases hother f hf with hf | rfl
      · exact .inl hf
      · exact .inr hr
    · exact ⟨⟨rfl, fun h => by simp [Accepting] at h⟩, .of_mailbox rfl⟩

theorem closeWith_quiet (code : ℕ) (reason : String) (t : String) :
    Quiet outbound (outbound.closeWith code reason) t ∧
      Upholds outbound (outbound.closeWith code reason) := by
  refine ⟨⟨rfl, ?_⟩, .of_mailbox rfl⟩
  rintro ⟨hs, hc, hr, hf⟩
  exact ⟨hs, (Option.or_eq_none_iff.mp hc).1, hr, hf⟩

theorem enqueueProtocolFrame_quiet {kind : FrameType} (hk : kind ≠ .ptyData)
    (streamId epoch sequence : ℕ) (payload : Bytes) (t : String) :
    Quiet outbound (outbound.enqueueProtocolFrame kind streamId epoch sequence payload).1 t ∧
      Upholds outbound (outbound.enqueueProtocolFrame kind streamId epoch sequence payload).1 := by
  unfold enqueueProtocolFrame
  split
  · rename_i frame hframe
    refine enqueueReliableFrame_quiet (reply_binary ?_) t
    rw [Frame.encoded_ok hframe]
    exact hk
  · exact closeWith_quiet _ _ t

theorem enqueueHistory_quiet {frames : List Frame} (hk : ∀ f ∈ frames, f.kind ≠ .ptyData)
    (t : String) :
    Quiet outbound (outbound.enqueueHistory frames).1 t ∧
      Upholds outbound (outbound.enqueueHistory frames).1 := by
  obtain ⟨hext, hother⟩ := OutboundMailbox.enqueueHistoryBatch_spec
    outbound.mailbox (frames.map .binary)
  unfold enqueueHistory
  split
  · exact ⟨.refl _ _, .of_mailbox rfl⟩
  · dsimp only
    split
    · refine ⟨⟨by simpa using hext.queuedData t, id⟩, by simp [hext.control],
        by simp [hext.live], fun f hf => ?_⟩
      rcases hother f hf with hf | hf
      · exact .inl hf
      · obtain ⟨frame, hframe, rfl⟩ := List.mem_map.mp hf
        exact .inr (reply_binary (hk frame hframe))
    · exact ⟨.refl _ _, .of_mailbox rfl⟩

theorem acknowledge_flow (outbound : ConnectionOutbound) (terminalId : String) (sequence : ℕ) (t : String) :
    (outbound.acknowledge terminalId sequence).flow t ≠ none → outbound.flow t ≠ none := by
  unfold acknowledge
  split
  · rename_i flow hflow
    by_cases ht : t = terminalId
    · subst ht
      simp [hflow]
    · simp [setFlow, Function.update_of_ne ht]
  · exact id

theorem acknowledge_eq (outbound : ConnectionOutbound) (terminalId : String) (sequence : ℕ) :
    ∃ flow, outbound.acknowledge terminalId sequence = { outbound with flow := flow } := by
  unfold acknowledge
  split
  · exact ⟨_, rfl⟩
  · exact ⟨outbound.flow, rfl⟩

theorem acknowledge_quiet (terminalId : String) (sequence : ℕ) (t : String) :
    Quiet outbound (outbound.acknowledge terminalId sequence) t ∧
      Upholds outbound (outbound.acknowledge terminalId sequence) := by
  have hflow := acknowledge_flow outbound terminalId sequence t
  obtain ⟨flow, heq⟩ := acknowledge_eq outbound terminalId sequence
  rw [heq] at hflow ⊢
  exact ⟨⟨rfl, fun ⟨hs, hc, hr, hf⟩ => ⟨hs, hc, hr, hflow hf⟩⟩, .of_mailbox rfl⟩

theorem attach_quiet {terminalId : String} (acknowledged : ℕ) (ht : t ≠ terminalId) :
    Quiet outbound (outbound.attach terminalId acknowledged) t where
  queued := rfl
  accepting h := by
    obtain ⟨hs, hc, hr, hf⟩ := h
    refine ⟨hs, hc, ?_, ?_⟩
    · simpa [attach, ht] using hr
    · simpa [attach, setFlow, Function.update_of_ne ht] using hf

theorem detach_quiet {terminalId : String} (ht : t ≠ terminalId) :
    Quiet outbound (outbound.detach terminalId) t where
  queued := rfl
  accepting h := by
    obtain ⟨hs, hc, hr, hf⟩ := h
    refine ⟨hs, hc, ?_, ?_⟩
    · simpa [detach, ht] using hr
    · simpa [detach, setFlow, Function.update_of_ne ht] using hf

theorem pushPriority_ok {encoded : Except ProtocolError Frame} {unserializable overflow : String}
    (h : outbound.pushPriority encoded unserializable overflow = .ok after) :
    ∃ frame, encoded = .ok frame ∧ after = { outbound with mailbox := after.mailbox } ∧
      OutboundMailbox.Extends outbound.mailbox after.mailbox [.binary frame] [] ∧
      ∀ f ∈ after.mailbox.otherFrames, f ∈ outbound.mailbox.otherFrames ∨ f = .binary frame := by
  unfold pushPriority at h
  split at h
  · cases h
  · rename_i frame
    obtain ⟨hext, -, hother⟩ :=
      OutboundMailbox.enqueueReliablePriority_spec outbound.mailbox (.binary frame)
    dsimp only at h
    split at h
    · rename_i haccepted
      cases h
      exact ⟨frame, rfl, rfl, hext haccepted, hother⟩
    · cases h

theorem pushPriority_error {encoded : Except ProtocolError Frame}
    {unserializable overflow : String}
    (h : outbound.pushPriority encoded unserializable overflow = .error after) :
    ∃ reason, after = { outbound with close := some reason } := by
  unfold pushPriority at h
  split at h
  · cases h
    exact ⟨_, rfl⟩
  · dsimp only at h
    split at h
    · cases h
    · cases h
      exact ⟨_, rfl⟩

/-- Either way a push changes nothing for the live frames. -/
theorem pushPriority_quiet {encoded : Except ProtocolError Frame}
    {unserializable overflow : String} (hk : ∀ frame, encoded = .ok frame → frame.kind ≠ .ptyData)
    (h : outbound.pushPriority encoded unserializable overflow = .ok after ∨
      outbound.pushPriority encoded unserializable overflow = .error after) (t : String) :
    Quiet outbound after t ∧ Upholds outbound after := by
  rcases h with h | h
  · obtain ⟨frame, hframe, heq, hext, hother⟩ := pushPriority_ok h
    refine ⟨⟨by simpa using hext.queuedData t, fun ha => ?_⟩, by simp [hext.control],
      by simp [hext.live], fun f hf => ?_⟩
    · rw [heq] at ha
      exact ha
    · rcases hother f hf with hf | rfl
      · exact .inl hf
      · exact .inr (reply_binary (hk frame hframe))
  · obtain ⟨reason, rfl⟩ := pushPriority_error h
    exact ⟨⟨rfl, fun h => by simp [Accepting] at h⟩, .of_mailbox rfl⟩

theorem cutThrough_eq (outbound : ConnectionOutbound) (terminalId : String) (sequence : ℕ) :
    ∃ flow, outbound.cutThrough terminalId sequence =
      { outbound with
        flow := flow
        mailbox := outbound.mailbox.discardTerminalThrough terminalId sequence } ∧
      ∀ t, flow t ≠ none → outbound.flow t ≠ none := by
  have hflow := acknowledge_flow outbound terminalId sequence
  obtain ⟨flow, heq⟩ := acknowledge_eq outbound terminalId sequence
  rw [heq] at hflow
  exact ⟨flow, by rw [cutThrough, heq], hflow⟩

theorem cutThrough_upholds (outbound : ConnectionOutbound) (terminalId : String) (sequence : ℕ) :
    Upholds outbound (outbound.cutThrough terminalId sequence) := by
  obtain ⟨flow, heq, -⟩ := cutThrough_eq outbound terminalId sequence
  rw [heq]
  refine ⟨List.prefix_rfl, fun f hf => ?_, fun f hf => .inl hf⟩
  rw [OutboundMailbox.discardTerminalThrough, OutboundMailbox.liveFrames_discardTerminalWhere] at hf
  exact (List.mem_filter.mp hf).1

theorem cutThrough_accepting (terminalId : String) (sequence : ℕ) (t : String)
    (h : (outbound.cutThrough terminalId sequence).Accepting t) : outbound.Accepting t := by
  obtain ⟨flow, heq, hflow⟩ := cutThrough_eq outbound terminalId sequence
  rw [heq] at h
  obtain ⟨hs, hc, hr, hf⟩ := h
  exact ⟨hs, hc, hr, hflow t hf⟩

theorem cutThrough_quiet {terminalId : String} (sequence : ℕ) (ht : t ≠ terminalId) :
    Quiet outbound (outbound.cutThrough terminalId sequence) t where
  queued := by
    obtain ⟨flow, heq, -⟩ := cutThrough_eq outbound terminalId sequence
    rw [heq]
    exact OutboundMailbox.queuedData_discard_of_ne _ ht
  accepting := cutThrough_accepting terminalId sequence t

theorem cutThrough_queuedData (hs : outbound.mailbox.Sequenced) (t : String) (sequence : ℕ) :
    (outbound.cutThrough t sequence).mailbox.queuedData t =
      (outbound.mailbox.queuedData t).filter fun data => decide (sequence < data.position.sequence) := by
  obtain ⟨flow, heq, -⟩ := cutThrough_eq outbound t sequence
  rw [heq]
  refine (OutboundMailbox.queuedData_discard_self hs t _).trans (List.filter_congr fun data _ => ?_)
  by_cases h : sequence < data.position.sequence <;> simp [h, Nat.le_of_not_lt]

/-- Both outcomes of the part of an attach answer that follows the acknowledgement. -/
theorem answerAttach_upholds {terminalId : String} {snapshotSequence : Option ℕ}
    {stream : Option (ℕ × ℕ)} {snapshot : Option Bytes}
    (h : outbound.answerAttach terminalId snapshotSequence stream snapshot = .ok after ∨
      outbound.answerAttach terminalId snapshotSequence stream snapshot = .error after) :
    Upholds outbound after ∧ ∀ t, t ≠ terminalId → Quiet outbound after t := by
  have hcut : ∀ sequence, Upholds outbound (outbound.cutThrough terminalId sequence) ∧
      ∀ t, t ≠ terminalId → Quiet outbound (outbound.cutThrough terminalId sequence) t :=
    fun sequence => ⟨cutThrough_upholds _ _ _, fun t ht => cutThrough_quiet sequence ht⟩
  have hkind : ∀ {kind : FrameType} {streamId epoch sequence : ℕ} {payload : Bytes},
      kind ≠ .ptyData → ∀ frame, Frame.encoded kind streamId ⟨epoch, sequence⟩ payload = .ok frame →
      frame.kind ≠ .ptyData := by
    intro kind _ _ _ _ hne frame hframe
    rw [Frame.encoded_ok hframe]
    exact hne
  unfold answerAttach at h
  split at h
  · rename_i sequence streamId epoch
    obtain ⟨hu, hq⟩ := hcut sequence
    have hsnapshot : ∀ mid,
        (outbound.cutThrough terminalId sequence).pushSnapshot streamId epoch sequence snapshot =
            .ok mid ∨
          (outbound.cutThrough terminalId sequence).pushSnapshot streamId epoch sequence snapshot =
            .error mid →
        ∀ t, Quiet (outbound.cutThrough terminalId sequence) mid t ∧
          Upholds (outbound.cutThrough terminalId sequence) mid := by
      intro mid hmid t
      unfold pushSnapshot at hmid
      split at hmid
      · exact pushPriority_quiet (hkind (by decide)) hmid t
      · rcases hmid with hmid | hmid <;> cases hmid
        exact ⟨.refl _ _, .of_mailbox rfl⟩
    split at h
    · rename_i failed hfailed
      rcases h with h | h <;> cases h
      have hs := hsnapshot after (.inr hfailed)
      exact ⟨hu.trans (hs terminalId).2, fun t ht => (hq t ht).trans (hs t).1⟩
    · rename_i mid hmid
      have hs := hsnapshot mid (.inl hmid)
      have hr := pushPriority_quiet (hkind (by decide)) h
      exact ⟨(hu.trans (hs terminalId).2).trans (hr terminalId).2,
        fun t ht => ((hq t ht).trans (hs t).1).trans (hr t).1⟩
  · rename_i sequence
    rcases h with h | h <;> cases h
    exact hcut sequence
  · rcases h with h | h <;> cases h
    refine ⟨.of_mailbox rfl, fun t ht => ⟨rfl, fun ⟨hs, hc, hr, hf⟩ => ⟨hs, hc, ?_, ?_⟩⟩⟩
    · simpa [ht] using hr
    · simpa [setFlow, Function.update_of_ne ht] using hf

theorem enqueueAttachResult_upholds (outbound : ConnectionOutbound) (terminalId : String) (snapshotSequence : Option ℕ)
    (stream : Option (ℕ × ℕ)) (snapshot : Option Bytes) (ok : Bool) (data : Bytes) :
    let result := outbound.enqueueAttachResult terminalId snapshotSequence stream snapshot ok data
    Upholds outbound result.1 ∧ ∀ t, t ≠ terminalId → Quiet outbound result.1 t := by
  intro result
  have hresult : result =
    outbound.enqueueAttachResult terminalId snapshotSequence stream snapshot ok data := rfl
  unfold enqueueAttachResult at hresult
  dsimp only at hresult
  split at hresult
  · rw [hresult]
    exact ⟨(closeWith_quiet _ _ terminalId).2, fun t _ => (closeWith_quiet _ _ t).1⟩
  · rename_i frame hframe
    have hk : ∀ f, (Except.ok frame : Except ProtocolError Frame) = .ok f → f.kind ≠ .ptyData := by
      rintro f ⟨⟩
      rw [Frame.encoded_ok hframe]
      cases ok <;> simp
    split at hresult
    · rename_i failed hfailed
      have hq := pushPriority_quiet hk (.inr hfailed)
      rw [hresult]
      exact ⟨(hq terminalId).2, fun t _ => (hq t).1⟩
    · rename_i mid hmid
      have hq := pushPriority_quiet hk (.inl hmid)
      split at hresult
      · rename_i failed hfailed
        obtain ⟨hu, ha⟩ := answerAttach_upholds (.inr hfailed)
        rw [hresult]
        exact ⟨(hq terminalId).2.trans hu, fun t ht => (hq t).1.trans (ha t ht)⟩
      · rename_i done hdone
        obtain ⟨hu, ha⟩ := answerAttach_upholds (.inl hdone)
        rw [hresult]
        exact ⟨((hq terminalId).2.trans hu).trans (.of_mailbox rfl),
          fun t ht => ((hq t).1.trans (ha t ht)).trans ⟨rfl, id⟩⟩

/-- The frames that answer an attach at the cut `sequence`. -/
def attachFrames (streamId epoch sequence : ℕ) (snapshot : Option Bytes) (data : Bytes) :
    List OutboundFrame :=
  let frame (kind : FrameType) (payload : Bytes) : OutboundFrame :=
    .binary ⟨kind, 0, streamId, ⟨epoch, sequence⟩, payload⟩
  frame .attachAck data :: (snapshot.toList.map (frame .snapshot) ++ [frame .ready []])

/-- A taken answer puts its frames into the priority lane in order, drops what the snapshot
contains and lowers the fence. -/
theorem enqueueAttachResult_taken (hs : outbound.mailbox.Sequenced)
    {terminalId : String} {streamId epoch sequence : ℕ} {snapshot : Option Bytes} {data : Bytes}
    (h : outbound.enqueueAttachResult terminalId (some sequence) (some (streamId, epoch)) snapshot
      true data = (after, true)) :
    after.mailbox.controlFrames = outbound.mailbox.controlFrames ++
        attachFrames streamId epoch sequence snapshot data ∧
      after.mailbox.queuedData terminalId = (outbound.mailbox.queuedData terminalId).filter
        (fun data => decide (sequence < data.position.sequence)) ∧
      (after.Accepting terminalId → outbound.Accepting terminalId) := by
  simp only [enqueueAttachResult, Option.getD_some, if_true] at h
  split at h
  · simp at h
  · rename_i ack hack
    split at h
    · simp at h
    · rename_i acked hacked
      obtain ⟨_, hframe, heq₁, hext₁, -⟩ := pushPriority_ok hacked
      obtain rfl := Except.ok.inj hframe
      have hs₁ : acked.mailbox.Sequenced := by
        intro f hf
        rw [hext₁.live, List.append_nil] at hf
        exact hs f hf
      split at h
      · simp at h
      · rename_i done hdone
        obtain ⟨rfl, -⟩ := Prod.mk.inj h
        simp only [answerAttach] at hdone
        split at hdone
        · cases hdone
        · rename_i mid hmid
          obtain ⟨ready, hready, heq₃, hext₃, -⟩ := pushPriority_ok hdone
          -- Between the acknowledgement and READY: the cut, then at most one SNAPSHOT frame.
          have hsnapshot : mid.mailbox.controlFrames = acked.mailbox.controlFrames ++
                snapshot.toList.map (fun payload =>
                  .binary ⟨.snapshot, 0, streamId, ⟨epoch, sequence⟩, payload⟩) ∧
              mid.mailbox.queuedData terminalId =
                (acked.cutThrough terminalId sequence).mailbox.queuedData terminalId ∧
              (mid.Accepting terminalId →
                (acked.cutThrough terminalId sequence).Accepting terminalId) := by
            have hcontrol := (cutThrough_upholds acked terminalId sequence).control
            obtain ⟨flow, hcut, -⟩ := cutThrough_eq acked terminalId sequence
            have hlane : (acked.cutThrough terminalId sequence).mailbox.controlFrames =
                acked.mailbox.controlFrames := by
              rw [hcut]
              rfl
            unfold pushSnapshot at hmid
            split at hmid
            · rename_i payload
              obtain ⟨frame, hframe, heq, hext, -⟩ := pushPriority_ok hmid
              refine ⟨?_, by simpa using hext.queuedData terminalId, fun ha => ?_⟩
              · rw [hext.control, hlane, Frame.encoded_ok hframe]
                simp
              · rw [heq] at ha
                exact ha
            · cases hmid
              exact ⟨by simp [hlane], rfl, id⟩
          obtain ⟨hcontrol, hqueued, haccepting⟩ := hsnapshot
          refine ⟨?_, ?_, fun ha => ?_⟩
          · rw [hext₃.control, hcontrol, hext₁.control, Frame.encoded_ok hready,
              Frame.encoded_ok hack]
            simp [attachFrames]
          · have h₃ : done.mailbox.queuedData terminalId = mid.mailbox.queuedData terminalId := by
              simpa using hext₃.queuedData terminalId
            have h₁ : acked.mailbox.queuedData terminalId =
                outbound.mailbox.queuedData terminalId := by
              simpa using hext₁.queuedData terminalId
            show done.mailbox.queuedData terminalId = _
            rw [h₃, hqueued, cutThrough_queuedData hs₁, h₁]
          · have hmidA : mid.Accepting terminalId := by
              rw [heq₃] at ha
              exact ha
            have := cutThrough_accepting _ _ _ (haccepting hmidA)
            rw [heq₁] at this
            exact this

theorem desynchronize_upholds (outbound : ConnectionOutbound) (frame : TerminalFrame) (flow : TerminalFlow)
    (unserializable : String) :
    let after := outbound.desynchronize frame flow unserializable
    Upholds outbound after ∧ (∀ t, t ≠ frame.terminalId → Quiet outbound after t) ∧
      ¬ after.Accepting frame.terminalId ∧
      (outbound.mailbox.Sequenced → after.mailbox.queuedData frame.terminalId = []) := by
  intro after
  -- The state once the deltas are gone; only the notice to the client can still be added to it.
  let cleared : ConnectionOutbound :=
    { outbound.setFlow frame.terminalId (some flow.desynchronize) with
      mailbox := outbound.mailbox.discardTerminal frame.terminalId
      replayRequired := insert frame.terminalId outbound.replayRequired }
  have hcleared : Upholds outbound cleared ∧
      (∀ t, t ≠ frame.terminalId → Quiet outbound cleared t) ∧
      frame.terminalId ∈ cleared.replayRequired ∧
      (outbound.mailbox.Sequenced → cleared.mailbox.queuedData frame.terminalId = []) := by
    refine ⟨⟨List.prefix_rfl, fun f hf => ?_, fun f hf => .inl hf⟩, fun t ht => ⟨?_, ?_⟩,
      Finset.mem_insert_self _ _, fun hs => ?_⟩
    · have hf' := hf
      simp only [cleared, OutboundMailbox.discardTerminal,
        OutboundMailbox.liveFrames_discardTerminalWhere] at hf'
      exact (List.mem_filter.mp hf').1
    · exact OutboundMailbox.queuedData_discard_of_ne _ ht
    · rintro ⟨hs, hc, hr, hf⟩
      refine ⟨hs, hc, ?_, ?_⟩
      · simpa [cleared, ht] using hr
      · simpa [cleared, setFlow, Function.update_of_ne ht] using hf
    · refine (OutboundMailbox.queuedData_discard_self hs _ _).trans ?_
      simp
  obtain ⟨hu, hq, hreplay, hempty⟩ := hcleared
  cases hresync : encodeResyncBegin frame flow.acknowledged with
  | error e =>
    have hafter : after = { cleared with close := some (1011, unserializable) } := by
      simp only [after, desynchronize, hresync]
      rfl
    rw [hafter]
    exact ⟨hu.trans (.of_mailbox rfl),
      fun t ht => (hq t ht).trans ⟨rfl, fun h => by simp [Accepting] at h⟩,
      fun h => h.2.2.1 hreplay, hempty⟩
  | ok resync =>
    obtain ⟨hext, hother⟩ :=
      OutboundMailbox.enqueueReliable_spec cleared.mailbox (.binary resync)
    cases haccepted : (cleared.mailbox.enqueueReliable (.binary resync)).2.accepted with
    | true =>
      have hafter : after =
          { cleared with mailbox := (cleared.mailbox.enqueueReliable (.binary resync)).1 } := by
        simp only [after, desynchronize, hresync]
        exact if_pos haccepted
      rw [hafter]
      refine ⟨hu.trans ⟨by simp [hext.control], by simp [hext.live], fun f hf => ?_⟩,
        fun t ht => (hq t ht).trans ⟨by simpa using hext.queuedData t, id⟩,
        fun h => h.2.2.1 hreplay, fun hs => ?_⟩
      · rcases hother f hf with hf | rfl
        · exact .inl hf
        · refine .inr (reply_binary ?_)
          rw [Frame.encoded_ok hresync]
          simp
      · refine (hext.queuedData frame.terminalId).trans ?_
        simpa using hempty hs
    | false =>
      have hafter : after =
          { cleared with close := some (1013, "replay fence mailbox overflow") } := by
        simp only [after, desynchronize, hresync]
        exact if_neg (by rw [haccepted]; simp)
      rw [hafter]
      exact ⟨hu.trans (.of_mailbox rfl),
        fun t ht => (hq t ht).trans ⟨rfl, fun h => by simp [Accepting] at h⟩,
        fun h => h.2.2.1 hreplay, hempty⟩

/-- The outbound frame of an emission. -/
def liveFrame (frame : TerminalFrame) : OutboundFrame :=
  .terminal frame.terminalId frame.chunk.sequence frame.wireData

/-- An emission is ignored, enqueued behind the live frames, or makes the terminal desynchronized;
the other terminals notice nothing. -/
theorem enqueueTerminal_outcome (outbound : ConnectionOutbound) (frame : TerminalFrame) :
    let after := outbound.enqueueTerminal frame
    (¬ outbound.Accepting frame.terminalId ∧ after = outbound) ∨
    (outbound.Accepting frame.terminalId ∧
      OutboundMailbox.Extends outbound.mailbox after.mailbox [] [liveFrame frame] ∧
      after.mailbox.otherFrames = outbound.mailbox.otherFrames ∧
      (∀ t, t ≠ frame.terminalId → after.Accepting t → outbound.Accepting t)) ∨
    (outbound.Accepting frame.terminalId ∧ ¬ after.Accepting frame.terminalId ∧
      Upholds outbound after ∧ (∀ t, t ≠ frame.terminalId → Quiet outbound after t) ∧
      (outbound.mailbox.Sequenced → after.mailbox.queuedData frame.terminalId = [])) := by
  intro after
  have hafter : after = outbound.enqueueTerminal frame := rfl
  unfold enqueueTerminal at hafter
  split at hafter
  · rename_i hblocked
    refine .inl ⟨fun ⟨hs, hc, hr, _⟩ => ?_, hafter⟩
    simp [hs, hc, hr] at hblocked
  · rename_i hopen
    obtain ⟨hs, hc, hr⟩ : outbound.stopped = false ∧ outbound.close = none ∧
        frame.terminalId ∉ outbound.replayRequired := by simpa using hopen
    split at hafter
    · rename_i hflow
      exact .inl ⟨fun h => h.2.2.2 hflow, hafter⟩
    · rename_i flow hflow
      have haccepting : outbound.Accepting frame.terminalId := ⟨hs, hc, hr, by simp [hflow]⟩
      split at hafter
      · obtain ⟨hu, hq, hna, hempty⟩ := desynchronize_upholds outbound frame flow
          "resync frame serialization failed"
        rw [hafter]
        exact .inr (.inr ⟨haccepting, hna, hu, hq, hempty⟩)
      · rename_i reserved _
        have hset : Upholds outbound (outbound.setFlow frame.terminalId (some reserved)) ∧
            ∀ t, t ≠ frame.terminalId →
              Quiet outbound (outbound.setFlow frame.terminalId (some reserved)) t := by
          refine ⟨.of_mailbox rfl, fun t ht => ⟨rfl, fun ⟨hs, hc, hr, hf⟩ => ⟨hs, hc, hr, ?_⟩⟩⟩
          simpa [setFlow, Function.update_of_ne ht] using hf
        obtain ⟨hext, -, hother⟩ := OutboundMailbox.enqueueLegacy_spec outbound.mailbox
          frame.terminalId (liveFrame frame)
        dsimp only at hafter
        split at hafter
        · rename_i haccepted
          rw [hafter]
          exact .inr (.inl ⟨haccepting, hext haccepted, hother,
            fun t ht h => (hset.2 t ht).accepting h⟩)
        · obtain ⟨hu, hq, hna, hempty⟩ := desynchronize_upholds
            (outbound.setFlow frame.terminalId (some reserved)) frame reserved
            "replay fence serialization failed"
          rw [hafter]
          exact .inr (.inr ⟨haccepting, hna, hset.1.trans hu,
            fun t ht => (hset.2 t ht).trans (hq t ht), hempty⟩)

@[simp] theorem enqueueReliableFrame_attaching (frame : OutboundFrame) :
    (outbound.enqueueReliableFrame frame).1.attaching = outbound.attaching := by
  unfold enqueueReliableFrame
  split
  · rfl
  · dsimp only
    split <;> rfl

@[simp] theorem enqueueProtocolFrame_attaching (kind : FrameType) (streamId epoch sequence : ℕ)
    (payload : Bytes) :
    (outbound.enqueueProtocolFrame kind streamId epoch sequence payload).1.attaching =
      outbound.attaching := by
  unfold enqueueProtocolFrame
  split
  · simp
  · rfl

@[simp] theorem enqueueHistory_attaching (frames : List Frame) :
    (outbound.enqueueHistory frames).1.attaching = outbound.attaching := by
  unfold enqueueHistory
  split
  · rfl
  · dsimp only
    split <;> rfl

theorem desynchronize_attaching (frame : TerminalFrame) (flow : TerminalFlow)
    (unserializable : String) :
    (outbound.desynchronize frame flow unserializable).attaching = outbound.attaching := by
  unfold desynchronize
  dsimp only
  split
  · rfl
  · split <;> rfl

@[simp] theorem enqueueTerminal_attaching (frame : TerminalFrame) :
    (outbound.enqueueTerminal frame).attaching = outbound.attaching := by
  unfold enqueueTerminal
  split
  · rfl
  · split
    · rfl
    · split
      · exact desynchronize_attaching ..
      · dsimp only
        split
        · rfl
        · exact desynchronize_attaching ..

theorem pushPriority_attaching {encoded : Except ProtocolError Frame}
    {unserializable overflow : String}
    (h : outbound.pushPriority encoded unserializable overflow = .ok after ∨
      outbound.pushPriority encoded unserializable overflow = .error after) :
    after.attaching = outbound.attaching := by
  rcases h with h | h
  · obtain ⟨_, _, heq, -⟩ := pushPriority_ok h
    rw [heq]
  · obtain ⟨_, rfl⟩ := pushPriority_error h
    rfl

/-- An answer that is not taken leaves the fence up. -/
theorem enqueueAttachResult_refused {terminalId : String} {streamId epoch sequence : ℕ}
    {snapshot : Option Bytes} {data : Bytes}
    (h : outbound.enqueueAttachResult terminalId (some sequence) (some (streamId, epoch)) snapshot
      true data = (after, false)) : after.attaching = outbound.attaching := by
  simp only [enqueueAttachResult, Option.getD_some, if_true] at h
  split at h
  · cases h
    rfl
  · split at h
    · rename_i failed hfailed
      cases h
      exact pushPriority_attaching (.inr hfailed)
    · rename_i mid hmid
      have hm := pushPriority_attaching (.inl hmid)
      have hcut : (mid.cutThrough terminalId sequence).attaching = mid.attaching := by
        obtain ⟨flow, heq, -⟩ := cutThrough_eq mid terminalId sequence
        rw [heq]
      split at h
      · rename_i failed hfailed
        cases h
        simp only [answerAttach] at hfailed
        split at hfailed
        · rename_i hsnapshot
          cases hfailed
          unfold pushSnapshot at hsnapshot
          split at hsnapshot
          · rw [pushPriority_attaching (.inr hsnapshot), hcut, hm]
          · cases hsnapshot
        · rename_i pushed hsnapshot
          rw [pushPriority_attaching (.inr hfailed)]
          unfold pushSnapshot at hsnapshot
          split at hsnapshot
          · rw [pushPriority_attaching (.inl hsnapshot), hcut, hm]
          · cases hsnapshot
            rw [hcut, hm]
      · cases h

/-! What the socket writer takes. -/

theorem next_frame {after : ConnectionOutbound} {f : OutboundFrame}
    (h : outbound.next = some (.frame f, after)) :
    outbound.attaching = ∅ ∧ ∃ mailbox, outbound.mailbox.popNext = some (f, mailbox) ∧
      after = { outbound with mailbox := mailbox } := by
  unfold ConnectionOutbound.next at h
  split at h
  · rename_i frame mailbox hpop
    split at hpop
    · rename_i hattaching
      cases h
      exact ⟨hattaching, mailbox, hpop, rfl⟩
    · cases hpop
  · split at h <;> cases h

theorem next_close {after : ConnectionOutbound} {code : ℕ} {reason : String}
    (h : outbound.next = some (.close code reason, after)) :
    after = { outbound with close := none, stopped := true } := by
  unfold ConnectionOutbound.next at h
  split at h
  · cases h
  · split at h <;> cases h
    rfl

end ConnectionOutbound
end PiDeck.Outbound
