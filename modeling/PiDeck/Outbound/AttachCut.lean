import PiDeck.Outbound.Delivery
import PiDeck.Outbound.Effects

/-! The attach cut: after the answer of an attach at byte `N`, the live data that the client gets
continues at byte `N + 1` without a gap. The argument follows one terminal. Its queued frames are
an obsolete part, which the snapshot contains, and a part that covers the output after the cut;
while its emissions are followed the second part ends where the output ends. -/
namespace PiDeck.Outbound
open PiDeck.Wire PiDeck.Collections PiDeck.Transition PiDeck.Transition.Machine

/-- A data frame carries the emitted bytes of its range. -/
structure Carries (output : Bytes) (data : Frame) : Prop where
  nonempty : 0 < data.payload.length
  within : data.payload.length ≤ data.position.sequence
  emitted : data.position.sequence ≤ output.length
  payload : data.payload =
    (output.take data.position.sequence).drop (data.position.sequence - data.payload.length)

theorem Carries.append {output : Bytes} {data : Frame} (h : Carries output data) (more : Bytes) :
    Carries (output ++ more) data where
  nonempty := h.nonempty
  within := h.within
  emitted := by
    have := h.emitted
    rw [List.length_append]
    omega
  payload := by
    rw [List.take_append_of_le_length h.emitted]
    exact h.payload

namespace Delivery
variable {s s' : Delivery} {t : String}

def queuedData (s : Delivery) (t : String) : List Frame := s.outbound.mailbox.queuedData t

/-- The emissions of the terminal reach the mailbox of this connection. -/
def Follows (s : Delivery) (t : String) : Prop := t ∈ s.subscribed ∧ s.outbound.Accepting t

/-- Live data waits in the live lane only, filed as it was emitted. -/
structure WellQueued (s : Delivery) : Prop where
  live : ∀ f ∈ s.outbound.mailbox.liveFrames, ∃ t data,
    f = .terminal t data.position.sequence data ∧ data.kind = .ptyData ∧
      data.streamId = terminalStreamId t ∧ Carries (s.output t) data
  other : ∀ f ∈ s.outbound.mailbox.otherFrames, ConnectionOutbound.Reply f

/-- What a step other than a pop does to the data queued for a terminal that it does not attach or
detach. -/
inductive Effect (t : String) (s s' : Delivery) : Prop
  | quiet (queued : s'.queuedData t = s.queuedData t)
      (follows : s'.Follows t → s.Follows t ∧ s'.output t = s.output t)
  | appended (data : Frame) (queued : s'.queuedData t = s.queuedData t ++ [data])
      (follows : s.Follows t) (sequence : data.position.sequence = (s'.output t).length)
      (output : (s'.output t).length = (s.output t).length + data.payload.length)
  | cleared (queued : s'.queuedData t = []) (follows : ¬ s'.Follows t)

/-- The queued data is an obsolete part and one that covers the output after `p`, all of it while
the emissions of the terminal are followed. -/
def Tail (t : String) (obsolete : Frame → Prop) (p : ℕ) (s : Delivery) : Prop :=
  ∃ old new e, s.queuedData t = old ++ new ∧ (∀ data ∈ old, obsolete data) ∧
    Covers (·.position.sequence) (·.payload.length) p new e ∧
    (s.Follows t → e = (s.output t).length)

theorem Tail.effect {obsolete : Frame → Prop} {p : ℕ} (h : Tail t obsolete p s)
    (he : Effect t s s') : Tail t obsolete p s' := by
  obtain ⟨old, new, e, hq, hold, hcov, hfollow⟩ := h
  cases he with
  | quiet queued follows =>
    refine ⟨old, new, e, queued.trans hq, hold, hcov, fun hf => ?_⟩
    obtain ⟨hf', hout⟩ := follows hf
    rw [hout]
    exact hfollow hf'
  | appended data queued follows sequence output =>
    have hend := hfollow follows
    refine ⟨old, new ++ [data], data.position.sequence, by rw [queued, hq, List.append_assoc], hold,
      hcov.concat ?_, fun _ => sequence⟩
    show data.position.sequence = e + data.payload.length
    omega
  | cleared queued follows =>
    exact ⟨[], [], p, by simpa using queued, by simp, rfl, fun hf => absurd hf follows⟩

theorem WellQueued.sequenced (h : s.WellQueued) : s.outbound.mailbox.Sequenced := by
  intro f hf t data hd
  obtain ⟨t', data', rfl, -⟩ := h.live f hf
  obtain ⟨hdata, -⟩ := ptyData_eq_some.mp hd
  obtain rfl : data' = data := by simpa [OutboundFrame.terminal] using hdata
  rfl

theorem WellQueued.mem_queuedData (h : s.WellQueued) {data : Frame} (hd : data ∈ s.queuedData t) :
    Carries (s.output t) data := by
  obtain ⟨f, hf, hfd⟩ := List.mem_filterMap.mp hd
  obtain ⟨t', data', rfl, -, -, hc⟩ := h.live f hf
  obtain ⟨hdata, ht, -⟩ := ptyData_eq_some.mp hfd
  obtain rfl : data' = data := by simpa [OutboundFrame.terminal] using hdata
  obtain rfl : t' = t := by simpa [OutboundFrame.terminal] using ht
  exact hc

theorem WellQueued.upholds (h : s.WellQueued)
    (hu : ConnectionOutbound.Upholds s.outbound s'.outbound) (ho : s'.output = s.output) :
    s'.WellQueued where
  live f hf := by
    rw [ho]
    exact h.live f (hu.live f hf)
  other f hf := by
    rcases hu.other f hf with hf | hr
    · exact h.other f hf
    · exact hr

theorem Effect.of_quiet (hq : ConnectionOutbound.Quiet s.outbound s'.outbound t)
    (hs : t ∈ s'.subscribed → t ∈ s.subscribed) (ho : s'.output t = s.output t) : Effect t s s' :=
  .quiet hq.queued fun hf => ⟨⟨hs hf.1, hq.accepting hf.2⟩, ho⟩

/-- What an emission adds, and which frame it hands to a subscriber. -/
theorem emit_spec {terminalId : String} {data : Bytes} (h : s.emit terminalId data = some s') :
    data ≠ [] ∧ ∃ frame : TerminalFrame, frame.terminalId = terminalId ∧
      frame.chunk = ⟨(s.output terminalId).length + data.length, data⟩ ∧
      frame.wireData = ⟨.ptyData, 0, terminalStreamId terminalId,
        ⟨(s.streamOf terminalId).2, (s.output terminalId).length + data.length⟩, data⟩ ∧
      s' = { s with
        eventSequence := s.eventSequence + 1
        output := Function.update s.output terminalId (s.output terminalId ++ data)
        outbound :=
          if terminalId ∈ s.subscribed then s.outbound.enqueueTerminal frame else s.outbound } := by
  unfold emit at h
  dsimp only at h
  split at h
  · cases h
  · rename_i wire hwire
    refine ⟨(Frame.encoded_ptyData hwire).1, ?_⟩
    have hframe := Frame.encoded_ok hwire
    cases h
    exact ⟨⟨_, terminalId, _, _, ⟨_, data⟩, wire⟩, rfl, rfl, hframe, rfl⟩

/-- The queued frames of an emission's subscriber, as an effect on each terminal. -/
theorem emit_effect (hw : s.WellQueued) {terminalId : String} {data : Bytes}
    (h : s.emit terminalId data = some s') (t : String) :
    s'.WellQueued ∧ Effect t s s' ∧
      s.outbound.mailbox.controlFrames <+: s'.outbound.mailbox.controlFrames := by
  obtain ⟨hne, frame, hid, hchunk, hwire, rfl⟩ := emit_spec h
  have hgrow : ∀ t, ∃ more,
      Function.update s.output terminalId (s.output terminalId ++ data) t = s.output t ++ more := by
    intro t
    by_cases ht : t = terminalId
    · subst ht
      exact ⟨data, by simp⟩
    · exact ⟨[], by simp [Function.update_of_ne ht]⟩
  have hlive : ∀ f ∈ s.outbound.mailbox.liveFrames, ∃ t data',
      f = .terminal t data'.position.sequence data' ∧ data'.kind = .ptyData ∧
        data'.streamId = terminalStreamId t ∧
        Carries (Function.update s.output terminalId (s.output terminalId ++ data) t) data' := by
    intro f hf
    obtain ⟨t', data', rfl, hk, hstream, hc⟩ := hw.live f hf
    obtain ⟨more, hmore⟩ := hgrow t'
    exact ⟨t', data', rfl, hk, hstream, hmore ▸ hc.append more⟩
  have other_output : t ≠ terminalId →
      Function.update s.output terminalId (s.output terminalId ++ data) t = s.output t :=
    fun ht => Function.update_of_ne ht _ _
  split
  · rename_i hsub
    rcases ConnectionOutbound.enqueueTerminal_outcome s.outbound frame with
      ⟨hna, heq⟩ | ⟨ha, hext, hother, hacc⟩ | ⟨ha, hna, hu, hq, hempty⟩
    · rw [heq]
      refine ⟨⟨hlive, hw.other⟩, ?_, List.prefix_rfl⟩
      refine .quiet rfl fun hf => ?_
      have ht : t ≠ terminalId := by
        rintro rfl
        exact hna (hid ▸ hf.2)
      exact ⟨hf, other_output ht⟩
    · refine ⟨⟨fun f hf => ?_, fun f hf => hw.other f (hother ▸ hf)⟩, ?_, by simp [hext.control]⟩
      · rcases List.mem_append.mp (hext.live ▸ hf) with hf | hf
        · exact hlive f hf
        · obtain rfl := List.mem_singleton.mp hf
          refine ⟨terminalId, frame.wireData, ?_, by rw [hwire], by rw [hwire], ?_⟩
          · simp [ConnectionOutbound.liveFrame, hid, hchunk, hwire]
          · rw [hwire]
            refine ⟨List.length_pos_of_ne_nil hne, by simp, by simp, ?_⟩
            simp [List.take_append]
      · have hqd := hext.queuedData t
        by_cases ht : t = terminalId
        · subst ht
          have hf : ptyData t (ConnectionOutbound.liveFrame frame) = some frame.wireData := by
            rw [ptyData_eq_some]
            simp [ConnectionOutbound.liveFrame, OutboundFrame.terminal, hid, hwire]
          have hq : (s.outbound.enqueueTerminal frame).mailbox.queuedData t =
              s.outbound.mailbox.queuedData t ++ [frame.wireData] := by simpa [hf] using hqd
          refine .appended frame.wireData hq ⟨hsub, hid ▸ ha⟩ ?_ ?_
          · simp [hwire]
          · simp [hwire]
        · have hf : ptyData t (ConnectionOutbound.liveFrame frame) = none := by
            refine ptyData_eq_none_of_ne ?_
            simp [ConnectionOutbound.liveFrame, OutboundFrame.terminal, hid, Ne.symm ht]
          have hq : (s.outbound.enqueueTerminal frame).mailbox.queuedData t =
              s.outbound.mailbox.queuedData t := by simpa [hf] using hqd
          exact .quiet hq
            fun hfollow => ⟨⟨hfollow.1, hacc t (hid ▸ ht) hfollow.2⟩, other_output ht⟩
    · refine ⟨⟨fun f hf => hlive f (hu.live f hf), fun f hf => ?_⟩, ?_, hu.control⟩
      · rcases hu.other f hf with hf | hr
        · exact hw.other f hf
        · exact hr
      · by_cases ht : t = terminalId
        · subst ht
          exact .cleared (hid ▸ hempty hw.sequenced) fun hf => hna (hid ▸ hf.2)
        · exact .of_quiet (hq t (hid ▸ ht)) id (other_output ht)
  · rename_i hsub
    refine ⟨⟨hlive, hw.other⟩, ?_, List.prefix_rfl⟩
    refine .quiet rfl fun hf => ⟨hf, other_output ?_⟩
    rintro rfl
    exact hsub hf.1

theorem answer_fields (s : Delivery) (outbound : ConnectionOutbound) (terminalId : String)
    (cut : Option (ℕ × (ℕ × ℕ))) (snapshot : Option Bytes) (data : Bytes) :
    let after := s.answer outbound terminalId cut snapshot data
    after.output = s.output ∧ after.subscribed = s.subscribed ∧
      after.reader.attaches = none ∧
      ConnectionOutbound.Upholds outbound after.outbound ∧
      ∀ t, t ≠ terminalId → ConnectionOutbound.Quiet outbound after.outbound t := by
  obtain ⟨hu, hq⟩ := ConnectionOutbound.enqueueAttachResult_upholds outbound
    terminalId (cut.map Prod.fst) (cut.map Prod.snd) snapshot cut.isSome data
  refine ⟨rfl, rfl, ?_, hu, hq⟩
  simp only [answer]
  cases (outbound.enqueueAttachResult terminalId (cut.map Prod.fst) (cut.map Prod.snd) snapshot
    cut.isSome data).2 <;> rfl

end Delivery

/-- The calls that end the span of a terminal's attachment. -/
def DeliveryEvent.Reattaches (t : String) : DeliveryEvent → Prop
  | .beginAttach terminalId _ => terminalId = t
  | .detach terminalId => terminalId = t
  | _ => False

def DeliveryEvent.isPop : DeliveryEvent → Bool
  | .pop _ => true
  | _ => false

namespace Delivery
variable {s s' : Delivery} {t : String} {a : DeliveryEvent}

/-- What a step other than a pop does: the queues stay well formed, and a terminal that the step
does not attach or detach is affected as by an emission at most. -/
theorem step_effect (hw : s.WellQueued) (h : step s a = some s') (hp : a.isPop = false) :
    s'.WellQueued ∧ s.outbound.mailbox.controlFrames <+: s'.outbound.mailbox.controlFrames ∧
      ∀ t, ¬ a.Reattaches t → (s.reader.attaches ≠ some t ∨ s'.reader = s.reader) →
        Effect t s s' := by
  -- Everything but an emission leaves the output alone and at most replies.
  have close : ConnectionOutbound.Upholds s.outbound s'.outbound ∧ s'.output = s.output ∧
      (∀ t, ¬ a.Reattaches t → (s.reader.attaches ≠ some t ∨ s'.reader = s.reader) →
        ConnectionOutbound.Quiet s.outbound s'.outbound t ∧
          (t ∈ s'.subscribed → t ∈ s.subscribed)) →
      s'.WellQueued ∧ s.outbound.mailbox.controlFrames <+: s'.outbound.mailbox.controlFrames ∧
        ∀ t, ¬ a.Reattaches t → (s.reader.attaches ≠ some t ∨ s'.reader = s.reader) →
          Effect t s s' := by
    rintro ⟨hu, ho, hq⟩
    refine ⟨hw.upholds hu ho, hu.control, fun t hr hd => ?_⟩
    obtain ⟨hquiet, hsub⟩ := hq t hr hd
    exact .of_quiet hquiet hsub (by rw [ho])
  -- The same for a call on the outbound side that no terminal notices.
  have call : ∀ outbound, (∀ t, ConnectionOutbound.Quiet s.outbound outbound t ∧
      ConnectionOutbound.Upholds s.outbound outbound) → s' = { s with outbound := outbound } →
      s'.WellQueued ∧ s.outbound.mailbox.controlFrames <+: s'.outbound.mailbox.controlFrames ∧
        ∀ t, ¬ a.Reattaches t → (s.reader.attaches ≠ some t ∨ s'.reader = s.reader) →
          Effect t s s' := by
    rintro outbound hq rfl
    exact close ⟨(hq "").2, rfl, fun t _ _ => ⟨(hq t).1, id⟩⟩
  cases a with
  | emit terminalId data =>
    have hstep : s.emit terminalId data = some s' := h
    exact ⟨(emit_effect hw hstep "").1, (emit_effect hw hstep "").2.2,
      fun t _ _ => (emit_effect hw hstep t).2.1⟩
  | pop frame => cases hp
  | popClose code reason =>
    simp only [step] at h
    split at h
    · rename_i code' reason' outbound hnext
      split at h
      · cases h
        refine call outbound (fun t => ?_) rfl
        rw [ConnectionOutbound.next_close hnext]
        exact ⟨⟨rfl, fun h => by simp [ConnectionOutbound.Accepting] at h⟩, .of_mailbox rfl⟩
      · cases h
    · cases h
  | acknowledge terminalId sequence =>
    simp only [step] at h
    split at h
    · cases h
      exact call _ (ConnectionOutbound.acknowledge_quiet terminalId sequence) rfl
    · cases h
  | beginAttach terminalId acknowledged =>
    simp only [step] at h
    split at h
    · cases h
      refine close ⟨.of_mailbox rfl, rfl, fun t hr _ => ⟨?_, id⟩⟩
      exact ConnectionOutbound.attach_quiet acknowledged (Ne.symm hr)
    · cases h
  | register =>
    simp only [step] at h
    split at h
    · rename_i terminalId hreader
      cases h
      refine close ⟨.of_mailbox rfl, rfl, fun t _ hd => ⟨.refl _ _, fun ht => ?_⟩⟩
      have hne : terminalId ≠ t := by
        rintro rfl
        simp [hreader, ReaderPhase.attaches] at hd
      exact (Finset.mem_insert.mp ht).resolve_left (Ne.symm hne)
    · cases h
  | takeSnapshot =>
    simp only [step] at h
    split at h
    all_goals first
      | cases h
        exact close ⟨.of_mailbox rfl, rfl, fun t _ _ => ⟨.refl _ _, id⟩⟩
      | cases h
  | finishAttach snapshot data =>
    simp only [step] at h
    split at h
    · rename_i terminalId sequence hreader
      cases h
      obtain ⟨ho, hsub, hidle, hu, hq⟩ := answer_fields s s.outbound terminalId
        (some (sequence, s.streamOf terminalId)) snapshot data
      refine close ⟨hu, ho, fun t _ hd => ⟨hq t ?_, fun ht => hsub ▸ ht⟩⟩
      rintro rfl
      rcases hd with hd | hd
      · simp [hreader, ReaderPhase.attaches] at hd
      · rw [hd, hreader] at hidle
        simp [ReaderPhase.attaches] at hidle
    · cases h
  | failAttach data =>
    simp only [step] at h
    split at h
    · rename_i terminalId hreader
      cases h
      obtain ⟨ho, hsub, hidle, hu, hq⟩ := answer_fields
        { s with subscribed := s.subscribed.erase terminalId } (s.outbound.detach terminalId)
        terminalId none none data
      have hdetach : ConnectionOutbound.Upholds s.outbound (s.outbound.detach terminalId) :=
        .of_mailbox rfl
      refine close ⟨hdetach.trans hu, ho, fun t _ hd => ?_⟩
      have hne : t ≠ terminalId := by
        rintro rfl
        rcases hd with hd | hd
        · exact hd hreader
        · rw [hd, hreader] at hidle
          cases hidle
      refine ⟨(ConnectionOutbound.detach_quiet hne).trans (hq t hne), fun ht => ?_⟩
      exact Finset.mem_of_mem_erase (hsub ▸ ht)
    · cases h
  | unsubscribe terminalId =>
    simp only [step] at h
    split at h
    · cases h
      exact close ⟨.of_mailbox rfl, rfl, fun t _ _ => ⟨.refl _ _, Finset.mem_of_mem_erase⟩⟩
    · cases h
  | detach terminalId =>
    simp only [step] at h
    split at h
    · cases h
      refine close ⟨.of_mailbox rfl, rfl, fun t hr _ => ⟨?_, id⟩⟩
      exact ConnectionOutbound.detach_quiet (Ne.symm hr)
    · cases h
  | reply kind streamId epoch sequence payload =>
    simp only [step] at h
    split at h
    · rename_i hkind
      cases h
      have hne : kind ≠ .ptyData := by
        rintro rfl
        cases hkind
      exact call _ (ConnectionOutbound.enqueueProtocolFrame_quiet hne streamId epoch sequence payload)
        rfl
    · cases h
  | text data =>
    cases h
    exact call _ (ConnectionOutbound.enqueueReliableFrame_quiet (ConnectionOutbound.reply_text data)) rfl
  | history frames =>
    simp only [step] at h
    split at h
    · rename_i hkinds
      cases h
      have hne : ∀ f ∈ frames, f.kind ≠ .ptyData := by
        intro f hf hk
        have := List.all_eq_true.mp hkinds f hf
        rw [hk] at this
        cases this
      exact call _ (ConnectionOutbound.enqueueHistory_quiet hne) rfl
    · cases h
  | close code reason =>
    cases h
    exact call _ (ConnectionOutbound.closeWith_quiet code reason) rfl
  | stop =>
    cases h
    refine call s.outbound.stop (fun t => ⟨⟨rfl, fun h => ?_⟩, .of_mailbox rfl⟩) rfl
    simp [ConnectionOutbound.Accepting, ConnectionOutbound.stop] at h
  | disconnect =>
    simp only [step] at h
    split at h
    · cases h
      exact close ⟨.of_mailbox rfl, rfl, fun t _ _ => ⟨.refl _ _, fun ht => by simp at ht⟩⟩
    · cases h

/-- What a pop does: the priority lane goes first, then live data in the order it was queued. -/
theorem pop_effect (hw : s.WellQueued) {f : OutboundFrame} (h : step s (.pop f) = some s') :
    s.outbound.attaching = ∅ ∧ s'.WellQueued ∧
      (s.outbound.mailbox.controlFrames = f :: s'.outbound.mailbox.controlFrames ∨
        s.outbound.mailbox.controlFrames = []) ∧
      (∀ t, s.queuedData t = (ptyData t f).toList ++ s'.queuedData t) ∧
      (∀ t, s'.Follows t ↔ s.Follows t) ∧ s'.output = s.output ∧ s'.reader = s.reader := by
  simp only [step] at h
  split at h
  · rename_i taken outbound hnext
    split at h
    · rename_i htaken
      subst htaken
      cases h
      obtain ⟨hattaching, mailbox, hpop, rfl⟩ := ConnectionOutbound.next_frame hnext
      have keep : (∀ f ∈ mailbox.liveFrames, f ∈ s.outbound.mailbox.liveFrames) →
          (∀ f ∈ mailbox.otherFrames, f ∈ s.outbound.mailbox.otherFrames) →
          WellQueued { s with outbound := { s.outbound with mailbox := mailbox } } :=
        fun hl ho => ⟨fun f hf => hw.live f (hl f hf), fun f hf => hw.other f (ho f hf)⟩
      have reply_none : ∀ t, taken ∈ s.outbound.mailbox.otherFrames → ptyData t taken = none :=
        fun t hm => ptyData_eq_none_of_ne (by simp [(hw.other taken hm).1])
      rcases OutboundMailbox.popNext_spec hpop with
        ⟨rest, hc, hc', hl, hm, ho⟩ | ⟨hc, hc', hl, hm, ho⟩ | ⟨hc, hc', hl, ho⟩
      · refine ⟨hattaching, keep (fun f hf => hl ▸ hf) ho, .inl (by rw [hc, hc']), fun t => ?_,
          fun t => Iff.rfl, rfl, rfl⟩
        simp [queuedData, OutboundMailbox.queuedData, hl, reply_none t hm]
      · refine ⟨hattaching, keep (fun f hf => hl ▸ hf) ho, .inr hc, fun t => ?_,
          fun t => Iff.rfl, rfl, rfl⟩
        simp [queuedData, OutboundMailbox.queuedData, hl, reply_none t hm]
      · refine ⟨hattaching, keep (fun f hf => hl ▸ List.mem_cons_of_mem _ hf)
          (fun f hf => ho ▸ hf), .inr hc, fun t => ?_, fun t => Iff.rfl, rfl, rfl⟩
        simp only [queuedData, OutboundMailbox.queuedData, hl, List.filterMap_cons]
        cases ptyData t taken <;> rfl
    · cases h
  · cases h

/-- How a step moves the reader, and what becomes of the fences. -/
inductive ReaderMove (s s' : Delivery) (a : DeliveryEvent) : Prop
  | leaves (reader : s'.reader.attaches = none)
      (ended : s.reader = .ended → s'.reader = .ended ∧ s'.outbound.attaching = s.outbound.attaching)
  | begins (t : String) (acknowledged : ℕ) (event : a = .beginAttach t acknowledged)
      (idle : s.reader = .idle) (reader : s'.reader = .fenced t)
      (fence : t ∈ s'.outbound.attaching)
  | registers (t : String) (attaches : s.reader.attaches = some t)
      (reader : s'.reader = .registered t) (outbound : s'.outbound = s.outbound)
  | cuts (t : String) (attaches : s.reader.attaches = some t) (event : a = .takeSnapshot)
      (state : s' = { s with reader := .cut t (s.output t).length })
  | stays (reader : s'.reader = s.reader)
      (attaching : s'.outbound.attaching = s.outbound.attaching)

theorem step_reader (h : step s a = some s') : ReaderMove s s' a := by
  cases a with
  | emit terminalId data =>
    obtain ⟨-, frame, -, -, -, rfl⟩ := emit_spec (s := s) h
    refine .stays rfl ?_
    show ConnectionOutbound.attaching (if _ then _ else _) = _
    split
    · simp
    · rfl
  | pop frame =>
    simp only [step] at h
    split at h
    · rename_i taken outbound hnext
      split at h
      · cases h
        obtain ⟨-, mailbox, -, rfl⟩ := ConnectionOutbound.next_frame hnext
        exact .stays rfl rfl
      · cases h
    · cases h
  | popClose code reason =>
    simp only [step] at h
    split at h
    · rename_i code' reason' outbound hnext
      split at h
      · cases h
        exact .stays rfl (by rw [ConnectionOutbound.next_close hnext])
      · cases h
    · cases h
  | acknowledge terminalId sequence =>
    simp only [step] at h
    split at h
    · cases h
      obtain ⟨flow, heq⟩ := ConnectionOutbound.acknowledge_eq s.outbound terminalId
        sequence
      exact .stays rfl (by rw [heq])
    · cases h
  | beginAttach terminalId acknowledged =>
    simp only [step] at h
    split at h
    · rename_i hidle
      cases h
      exact .begins terminalId acknowledged rfl hidle rfl (Finset.mem_insert_self _ _)
    · cases h
  | register =>
    simp only [step] at h
    split at h
    · rename_i terminalId hreader
      cases h
      exact .registers terminalId (by rw [hreader]; rfl) rfl rfl
    · cases h
  | takeSnapshot =>
    simp only [step] at h
    split at h
    all_goals first
      | rename_i terminalId hreader
        cases h
        exact .cuts terminalId (by rw [hreader]; rfl) rfl rfl
      | cases h
  | finishAttach snapshot data =>
    simp only [step] at h
    split at h
    · rename_i hreader
      cases h
      exact .leaves (answer_fields ..).2.2.1 (fun he => by simp [he] at hreader)
    · cases h
  | failAttach data =>
    simp only [step] at h
    split at h
    · rename_i hreader
      cases h
      exact .leaves (answer_fields ..).2.2.1 (fun he => by simp [he, ReaderPhase.attaches] at hreader)
    · cases h
  | unsubscribe terminalId =>
    simp only [step] at h
    split at h
    · cases h
      exact .stays rfl rfl
    · cases h
  | detach terminalId =>
    simp only [step] at h
    split at h
    · rename_i hidle
      cases h
      exact .leaves (by simp [hidle, ReaderPhase.attaches]) (fun he => by simp [he] at hidle)
    · cases h
  | reply kind streamId epoch sequence payload =>
    simp only [step] at h
    split at h
    · cases h
      exact .stays rfl (by simp)
    · cases h
  | text data =>
    cases h
    exact .stays rfl (ConnectionOutbound.enqueueReliableFrame_attaching _)
  | history frames =>
    simp only [step] at h
    split at h
    · cases h
      exact .stays rfl (by simp)
    · cases h
  | close code reason =>
    cases h
    exact .stays rfl rfl
  | stop =>
    cases h
    exact .stays rfl rfl
  | disconnect =>
    simp only [step] at h
    split at h
    · cases h
      exact .leaves rfl (fun _ => ⟨rfl, rfl⟩)
    · cases h

/-- The invariant of every run: an attach in progress keeps its fence up, and once its snapshot is
taken the queued data beyond the cut covers the output. -/
structure Fenced (s : Delivery) : Prop where
  queued : s.WellQueued
  fence : ∀ t, s.reader.attaches = some t → t ∈ s.outbound.attaching
  cut : ∀ t n, s.reader = .cut t n → Tail t (fun data => data.position.sequence ≤ n) n s

theorem initial_fenced (flowLimit : ℕ) (terminalEpoch : String → String) :
    (initial flowLimit terminalEpoch).Fenced where
  queued := ⟨by simp [initial, ConnectionOutbound.new, OutboundMailbox.new,
      OutboundMailbox.liveFrames], by simp [initial, ConnectionOutbound.new, OutboundMailbox.new,
      OutboundMailbox.otherFrames]⟩
  fence t h := by simp [initial, ReaderPhase.attaches] at h
  cut t n h := by simp [initial] at h

/-- While a fence is up nothing is popped. -/
theorem not_pop_of_attaching (hw : s.WellQueued) (ht : t ∈ s.outbound.attaching)
    (h : step s a = some s') : a.isPop = false := by
  cases a with
  | pop f =>
    have := (pop_effect hw h).1
    simp [this] at ht
  | _ => rfl

theorem step_fenced (hs : s.Fenced) (h : step s a = some s') : s'.Fenced := by
  have hw : s'.WellQueued := by
    cases hp : a.isPop with
    | false => exact (step_effect hs.queued h hp).1
    | true =>
      cases a with
      | pop f => exact (pop_effect hs.queued h).2.1
      | _ => cases hp
  cases step_reader h with
  | leaves reader ended =>
    exact ⟨hw, fun t ht => by simp [reader] at ht, fun t n ht => by simp [ht, ReaderPhase.attaches] at reader⟩
  | begins t acknowledged event idle reader fence =>
    refine ⟨hw, fun t' ht => ?_, fun t' n ht => by simp [reader] at ht⟩
    obtain rfl : t = t' := by simpa [reader, ReaderPhase.attaches] using ht
    exact fence
  | registers t attaches reader outbound =>
    refine ⟨hw, fun t' ht => ?_, fun t' n ht => by simp [reader] at ht⟩
    obtain rfl : t = t' := by simpa [reader, ReaderPhase.attaches] using ht
    rw [outbound]
    exact hs.fence t attaches
  | cuts t attaches event state =>
    subst state
    refine ⟨hw, fun t' ht => ?_, fun t' n ht => ?_⟩
    · obtain rfl : t = t' := by simpa [ReaderPhase.attaches] using ht
      exact hs.fence t attaches
    · obtain ⟨rfl, rfl⟩ : t = t' ∧ (s.output t).length = n := by simpa using ht
      refine ⟨s.queuedData t, [], (s.output t).length, (List.append_nil _).symm,
        fun data hd => ?_, rfl, fun _ => rfl⟩
      exact (hs.queued.mem_queuedData hd).emitted
  | stays reader attaching =>
    refine ⟨hw, fun t ht => ?_, fun t n ht => ?_⟩
    · rw [attaching]
      exact hs.fence t (reader ▸ ht)
    · have hcut : s.reader = .cut t n := reader ▸ ht
      have hfence : t ∈ s.outbound.attaching := hs.fence t (by rw [hcut]; rfl)
      have hp := not_pop_of_attaching hs.queued hfence h
      have hr : ¬ a.Reattaches t := by
        cases a with
        | beginAttach | detach => simp [step, hcut] at h
        | _ => exact id
      exact (hs.cut t n hcut).effect ((step_effect hs.queued h hp).2.2 t hr (.inr reader))

theorem run_fenced {events : List DeliveryEvent} (h : machine.Run s events s') (hs : s.Fenced) :
    s'.Fenced :=
  h.invariant (fun _ _ _ hs _ hstep => step_fenced hs hstep) hs

/-- The frames popped in a run are those of the priority lane first. -/
theorem run_control {events : List DeliveryEvent} (h : machine.Run s events s') (hs : s.Fenced)
    {lane : List OutboundFrame} (hl : lane <+: s.outbound.mailbox.controlFrames) :
    popped events <+: lane ∨ lane <+: popped events := by
  induction h generalizing lane with
  | nil => exact .inl (List.nil_prefix)
  | @cons s₁ s₂ _ a events _ hstep _ ih =>
    have hs₂ := step_fenced hs hstep
    cases hp : a.isPop with
    | false =>
      have hpopped : popped (a :: events) = popped events := by
        cases a with
        | pop => cases hp
        | _ => rfl
      rw [hpopped]
      exact ih hs₂ (hl.trans (step_effect hs.queued hstep hp).2.1)
    | true =>
      cases a with
      | pop f =>
        obtain ⟨-, -, hc, -⟩ := pop_effect hs.queued hstep
        show f :: popped events <+: lane ∨ lane <+: f :: popped events
        cases lane with
        | nil => exact .inr List.nil_prefix
        | cons g lane =>
          rcases hc with hc | hc
          · rw [hc, List.cons_prefix_cons] at hl
            obtain ⟨rfl, hl⟩ := hl
            simpa only [List.cons_prefix_cons, true_and] using ih hs₂ hl
          · simp [hc] at hl
      | _ => cases hp

/-- Once the reader has ended with a fence up nothing is popped any more. -/
theorem run_ended {events : List DeliveryEvent} (h : machine.Run s events s') (hs : s.Fenced)
    (he : s.reader = .ended) (ht : t ∈ s.outbound.attaching) : popped events = [] := by
  induction h with
  | nil => rfl
  | @cons s₁ s₂ _ a events _ hstep _ ih =>
    have hp := not_pop_of_attaching hs.queued ht hstep
    have hstays : s₂.reader = .ended ∧ s₂.outbound.attaching = s₁.outbound.attaching := by
      cases step_reader hstep with
      | leaves reader ended => exact ended he
      | begins t acknowledged event idle => simp [he] at idle
      | registers t attaches => simp [he, ReaderPhase.attaches] at attaches
      | cuts t attaches => simp [he, ReaderPhase.attaches] at attaches
      | stays reader attaching => exact ⟨reader.trans he, attaching⟩
    have hpopped : popped (a :: events) = popped events := by
      cases a with
      | pop => cases hp
      | _ => rfl
    rw [hpopped]
    exact ih (step_fenced hs hstep) hstays.1 (hstays.2 ▸ ht)

theorem step_output (h : step s a = some s') (t : String) : s.output t <+: s'.output t := by
  cases a with
  | emit terminalId data =>
    obtain ⟨-, frame, -, -, -, rfl⟩ := emit_spec (s := s) h
    by_cases ht : t = terminalId
    · subst ht
      simp
    · simp [Function.update_of_ne ht]
  | finishAttach | failAttach =>
    simp only [step] at h
    split at h
    · cases h
      exact List.prefix_rfl
    · cases h
  | text | close | stop =>
    cases h
    exact List.prefix_rfl
  | _ =>
    simp only [step] at h
    repeat' split at h
    all_goals first
      | cases h
        exact List.prefix_rfl
      | cases h

theorem Tail.pop {p : ℕ} {f : OutboundFrame} (ht : Tail t (fun _ => False) p s)
    (hq : s.queuedData t = (ptyData t f).toList ++ s'.queuedData t)
    (hf : s'.Follows t ↔ s.Follows t) (ho : s'.output = s.output) :
    ∃ p', Covers (·.position.sequence) (·.payload.length) p (ptyData t f).toList p' ∧
      Tail t (fun _ => False) p' s' := by
  obtain ⟨old, new, e, hqueued, hold, hcov, hfollow⟩ := ht
  obtain rfl : old = [] := List.eq_nil_iff_forall_not_mem.mpr hold
  have hnew : new = (ptyData t f).toList ++ s'.queuedData t := by simpa [hq] using hqueued.symm
  have hfollow' : s'.Follows t → e = (s'.output t).length := fun h => ho ▸ hfollow (hf.mp h)
  cases hd : ptyData t f with
  | none => exact ⟨p, rfl, [], new, e, by simp [hnew, hd], by simp, hcov, hfollow'⟩
  | some data =>
    rw [hnew, hd] at hcov
    exact ⟨data.position.sequence, ⟨hcov.1, rfl⟩, [], s'.queuedData t, e, rfl, by simp, hcov.2,
      hfollow'⟩

/-- Without a new attach or a detach, the live data popped for a terminal covers its output from
where the queued data starts, and carries the emitted bytes. -/
theorem run_live {events : List DeliveryEvent} {p : ℕ}
    (h : machine.Path (fun _ a => ¬ a.Reattaches t) s events s') (hs : s.Fenced)
    (hr : s.reader.attaches ≠ some t) (ht : Tail t (fun _ => False) p s) :
    (∃ m, Covers (·.position.sequence) (·.payload.length) p
      ((popped events).filterMap (ptyData t)) m) ∧
    ∀ data ∈ (popped events).filterMap (ptyData t), Carries (s'.output t) data := by
  suffices hrun : ((∃ m, Covers (·.position.sequence) (·.payload.length) p
      ((popped events).filterMap (ptyData t)) m) ∧
      ∀ data ∈ (popped events).filterMap (ptyData t), Carries (s'.output t) data) ∧
      s.output t <+: s'.output t from hrun.1
  induction h generalizing p with
  | nil s => exact ⟨⟨⟨p, rfl⟩, by simp [popped]⟩, List.prefix_rfl⟩
  | @cons s₁ s₂ s₃ a events hguard hstep _ ih =>
    have hs₂ := step_fenced hs hstep
    have hr₂ : s₂.reader.attaches ≠ some t := by
      cases step_reader hstep with
      | leaves reader => simp [reader]
      | begins t' acknowledged event idle reader =>
        rw [event] at hguard
        have hne : ¬ t' = t := hguard
        simpa [reader, ReaderPhase.attaches] using hne
      | registers t' attaches reader =>
        rw [attaches] at hr
        simpa [reader, ReaderPhase.attaches] using hr
      | cuts t' attaches event state =>
        rw [attaches] at hr
        simpa [state, ReaderPhase.attaches] using hr
      | stays reader => rwa [reader]
    have hgrow := step_output hstep t
    cases hp : a.isPop with
    | false =>
      have hpopped : popped (a :: events) = popped events := by
        cases a with
        | pop => cases hp
        | _ => rfl
      rw [hpopped]
      obtain ⟨hlive, hout⟩ := ih hs₂ hr₂
        (ht.effect ((step_effect hs.queued hstep hp).2.2 t hguard (.inl hr)))
      exact ⟨hlive, hgrow.trans hout⟩
    | true =>
      cases a with
      | pop f =>
        obtain ⟨-, -, -, hq, hf, ho, -⟩ := pop_effect hs.queued hstep
        obtain ⟨p', hcov, ht'⟩ := ht.pop (hq t) (hf t) ho
        obtain ⟨⟨⟨m, hm⟩, hcarry⟩, hout⟩ := ih hs₂ hr₂ ht'
        have hlist : (popped (.pop f :: events)).filterMap (ptyData t) =
            (ptyData t f).toList ++ (popped events).filterMap (ptyData t) := by
          show (f :: popped events).filterMap (ptyData t) = _
          rw [List.filterMap_cons]
          cases ptyData t f <;> rfl
        rw [hlist]
        refine ⟨⟨⟨m, hcov.append hm⟩, fun data hd => ?_⟩, hgrow.trans hout⟩
        rcases List.mem_append.mp hd with hd | hd
        · obtain ⟨more, hmore⟩ := hgrow.trans hout
          rw [← hmore]
          refine (hs.queued.mem_queuedData ?_).append more
          rw [hq t]
          exact List.mem_append_left _ hd
        · exact hcarry data hd
      | _ => cases hp

/-- The answer of an attach at cut `n` starts the live data of the terminal at `n`. -/
theorem finishAttach_tail (hs : s.Fenced) {n : ℕ} (hreader : s.reader = .cut t n)
    {snapshot : Option Bytes} {data : Bytes} (h : step s (.finishAttach snapshot data) = some s')
    (htaken : s'.reader = .idle) :
    s'.outbound.mailbox.controlFrames = s.outbound.mailbox.controlFrames ++
        ConnectionOutbound.attachFrames (s.streamOf t).1 (s.streamOf t).2 n snapshot data ∧
      Tail t (fun _ => False) n s' := by
  have hstep : s' = s.answer s.outbound t (some (n, s.streamOf t)) snapshot data := by
    simp only [step, hreader] at h
    exact (Option.some.inj h).symm
  cases hres : s.outbound.enqueueAttachResult t (some n) (some (s.streamOf t)) snapshot true data with
  | mk after taken =>
    have hs' : s' = { s with outbound := after, reader := if taken then .idle else .ended } := by
      rw [hstep]
      simp [answer, hres]
    cases taken with
    | false => simp [hs'] at htaken
    | true =>
      obtain ⟨hcontrol, hqueued, haccepting⟩ :=
        ConnectionOutbound.enqueueAttachResult_taken hs.queued.sequenced hres
      obtain ⟨old, new, e, hq, hold, hcov, hfollow⟩ := hs.cut t n hreader
      subst hs'
      refine ⟨hcontrol, [], new, e, ?_, by simp, hcov, fun hf => hfollow ⟨hf.1, haccepting hf.2⟩⟩
      -- The cut removes exactly the obsolete part.
      show after.mailbox.queuedData t = [] ++ new
      have hpos : ∀ d ∈ new, 0 < d.payload.length := fun d hd =>
        (hs.queued.mem_queuedData (hq ▸ List.mem_append_right _ hd)).nonempty
      have hdrop : old.filter (fun d => decide (n < d.position.sequence)) = [] :=
        List.filter_eq_nil_iff.mpr fun d hd => by simpa using hold d hd
      have hkeep : new.filter (fun d => decide (n < d.position.sequence)) = new :=
        List.filter_eq_self.mpr fun d hd => by simpa using hcov.lt_stop hpos d hd
      rw [hqueued, show s.outbound.mailbox.queuedData t = old ++ new from hq, List.filter_append,
        hdrop, hkeep]

/-- For every run up to the answer of an attach at cut `n`: if the answer is refused nothing more
is popped. Otherwise the priority lane, which ends with ATTACH_ACK, the SNAPSHOT and READY of the
attach and holds no live data, is popped first and in order; and until the next attach or detach of
the terminal the live data popped for it covers the bytes after `n` contiguously and in order, each
frame with the emitted bytes of its range. -/
theorem attach_cut {flowLimit : ℕ} {terminalEpoch : String → String}
    {before : List DeliveryEvent} {s₀ s₁ : Delivery} {n : ℕ} {snapshot : Option Bytes} {data : Bytes}
    (hbefore : machine.Run (initial flowLimit terminalEpoch) before s₀)
    (hreader : s₀.reader = .cut t n)
    (hfinish : machine.step s₀ (.finishAttach snapshot data) = some s₁) :
    (s₁.reader = .ended ∧ ∀ rest s₂, machine.Run s₁ rest s₂ → popped rest = []) ∨
    (s₁.reader = .idle ∧ ∃ earlier : List OutboundFrame,
      let lane := earlier ++ ConnectionOutbound.attachFrames (terminalStreamId t)
        (terminalStreamId (s₀.terminalEpoch t)) n snapshot data
      (∀ f ∈ lane, ∀ d, f.data = .binary d → d.kind ≠ .ptyData) ∧
      (∀ rest s₂, machine.Run s₁ rest s₂ → popped rest <+: lane ∨ lane <+: popped rest) ∧
      ∀ rest s₂, machine.Path (fun _ a => ¬ a.Reattaches t) s₁ rest s₂ →
        (∃ m, Covers (·.position.sequence) (·.payload.length) n
          ((popped rest).filterMap (ptyData t)) m) ∧
        ∀ d ∈ (popped rest).filterMap (ptyData t), Carries (s₂.output t) d) := by
  have hs₀ := run_fenced hbefore (initial_fenced flowLimit terminalEpoch)
  have hstep : step s₀ (.finishAttach snapshot data) = some s₁ := hfinish
  have hs₁ := step_fenced hs₀ hstep
  have hanswer : s₁ = s₀.answer s₀.outbound t (some (n, s₀.streamOf t)) snapshot data := by
    simp only [step, hreader] at hstep
    exact (Option.some.inj hstep).symm
  cases hres : s₀.outbound.enqueueAttachResult t (some n) (some (s₀.streamOf t)) snapshot true data with
  | mk after taken =>
    have heq : s₁ = { s₀ with outbound := after, reader := if taken then .idle else .ended } := by
      rw [hanswer]
      simp [answer, hres]
    cases taken with
    | false =>
      have hended : s₁.reader = .ended := by simp [heq]
      refine .inl ⟨hended, fun rest s₂ hrest => run_ended (t := t) hrest hs₁ hended ?_⟩
      have hfence := hs₀.fence t (by rw [hreader]; rfl)
      rw [heq]
      exact ConnectionOutbound.enqueueAttachResult_refused hres ▸ hfence
    | true =>
      have hidle : s₁.reader = .idle := by simp [heq]
      obtain ⟨hlane, htail⟩ := finishAttach_tail hs₀ hreader hstep hidle
      refine .inr ⟨hidle, s₀.outbound.mailbox.controlFrames, fun f hf d hd => ?_,
        fun rest s₂ hrest => run_control hrest hs₁ (hlane ▸ List.prefix_rfl),
        fun rest s₂ hrest => run_live hrest hs₁ (by simp [hidle, ReaderPhase.attaches]) htail⟩
      refine (hs₁.queued.other f ?_).2 d hd
      have hf' : f ∈ s₁.outbound.mailbox.controlFrames := hlane ▸ hf
      obtain ⟨q, hq, rfl⟩ := List.mem_map.mp hf'
      exact List.mem_map_of_mem (List.mem_append_left _ (List.mem_append_left _ hq))

instance (t : String) (a : DeliveryEvent) : Decidable (a.Reattaches t) := by
  cases a <;> unfold DeliveryEvent.Reattaches <;> infer_instance

/-- Two bytes before the snapshot and one behind it: the client gets byte 3 after READY at 2. -/
theorem attach_cut_live :
    ∃ s₀ s₁ s₂ rest, machine.Run (initial 1024 id)
        [.beginAttach "term" 0, .register, .emit "term" [7, 8], .takeSnapshot, .emit "term" [9]] s₀ ∧
      machine.step s₀ (.finishAttach none [123, 125]) = some s₁ ∧
      machine.Path (fun _ a => ¬ a.Reattaches "term") s₁ rest s₂ ∧
      ((popped rest).filterMap (ptyData "term")).map (·.payload) = [[9]] ∧
      ∃ m, Covers (·.position.sequence) (·.payload.length) 2
        ((popped rest).filterMap (ptyData "term")) m := by
  let frame (kind : FrameType) (n : ℕ) (payload : Bytes) : Frame :=
    ⟨kind, 0, terminalStreamId "term", ⟨terminalStreamId "term", n⟩, payload⟩
  let rest : List DeliveryEvent := [.pop (.binary (frame .attachAck 2 [123, 125])),
    .pop (.binary (frame .ready 2 [])), .pop (.terminal "term" 3 (frame .ptyData 3 [9]))]
  have hchain : ((machine.exec (fun _ _ => True) (initial 1024 id)
      [.beginAttach "term" 0, .register, .emit "term" [7, 8], .takeSnapshot,
        .emit "term" [9]]).bind fun s₀ =>
      (machine.step s₀ (.finishAttach none [123, 125])).bind fun s₁ =>
        (machine.exec (fun _ a => ¬ a.Reattaches "term") s₁ rest).map fun _ =>
          (s₀.reader, s₁.reader)) = some (.cut "term" 2, .idle) := by decide +kernel
  obtain ⟨s₀, h₀, hchain⟩ := Option.bind_eq_some_iff.mp hchain
  obtain ⟨s₁, h₁, hchain⟩ := Option.bind_eq_some_iff.mp hchain
  obtain ⟨s₂, h₂, hreaders⟩ := Option.map_eq_some_iff.mp hchain
  obtain ⟨hreader, hidle⟩ := Prod.mk.inj hreaders
  have hrest := path_of_exec h₂
  refine ⟨s₀, s₁, s₂, rest, path_of_exec h₀, h₁, hrest, by decide +kernel, ?_⟩
  rcases attach_cut (path_of_exec h₀) hreader h₁ with ⟨hended, -⟩ | ⟨-, _, -, -, hlive⟩
  · simp [hidle] at hended
  · exact (hlive rest s₂ hrest).1

end Delivery
end PiDeck.Outbound
