import PiDeck.Agents.EventStream

/-! Completeness of the event stream. A subscriber's task is followed by cutting the committed
events of its source into what it has sent, the rest of the page it is sending, what waits in its
receiver and what is still to be broadcast, in this order. -/
namespace PiDeck.Agents
open PiDeck.Collections PiDeck.Transition PiDeck.Transition.Machine

namespace EventSystem
variable {s s' : EventSystem} {u : Subscriber} {source : EventSource}

/-- The table is in sequence order for every source, and what is to be broadcast is in it. -/
structure WellLogged (s : EventSystem) : Prop where
  runs : ∀ e ∈ s.events, ∀ run, e.runId = some run → e.agentId = s.runAgent run
  ordered : ∀ source, Increasing (·.sequence) (s.log source)
  fresh : s.events.Nodup
  pending : ∀ e ∈ s.pending, e ∈ s.events
  once : s.pending.Nodup

theorem mem_log {e : AgentEvent} : e ∈ s.log source ↔ e ∈ s.events ∧ source.selects e = true :=
  List.mem_filter

theorem le_foldr_max {xs : List ℕ} {n : ℕ} (h : n ∈ xs) : n ≤ xs.foldr max 0 := by
  induction xs with
  | nil => simp at h
  | cons x xs ih =>
    rcases List.mem_cons.mp h with rfl | h
    · exact Nat.le_max_left _ _
    · exact (ih h).trans (Nat.le_max_right _ _)

theorem lt_nextSequence {e : AgentEvent} {agentId : String} (h : e ∈ s.events)
    (ha : e.agentId = agentId) : e.sequence < s.nextSequence agentId := by
  refine Nat.lt_succ_of_le (le_foldr_max (List.mem_map.mpr ⟨e, List.mem_filter.mpr ⟨h, ?_⟩, rfl⟩))
  simpa using ha

/-- Whether an event is one that the subscriber has not read. -/
def wanted (u : Subscriber) (e : AgentEvent) : Bool :=
  u.source.selects e && decide (u.readThrough < e.sequence)

/-- What waits in the receiver and was not read. -/
def waiting (u : Subscriber) : List AgentEvent := u.queue.filter (wanted u)

theorem waiting_concat (u : Subscriber) (e : AgentEvent) (lagged : Bool) :
    waiting { u with queue := u.queue ++ [e], lagged := lagged } =
      waiting u ++ if wanted u e then [e] else [] := by
  show (u.queue ++ [e]).filter (wanted u) = _
  rw [List.filter_append]
  cases h : wanted u e <;> simp [h, waiting]

/-- The committed events of the source that were not read. -/
def unread (s : EventSystem) (u : Subscriber) : List AgentEvent :=
  above (·.sequence) u.readThrough (s.log u.source)

/-- The channel brings what was not read: first what waits, then what is to be broadcast. -/
def Brings (s : EventSystem) (u : Subscriber) : Prop :=
  u.lagged = true ∨ s.unread u = waiting u ++ (s.unread u).filter fun e => decide (e ∈ s.pending)

/-- The events past the last one sent, by the phase of the subscriber. -/
def Ahead (s : EventSystem) (u : Subscriber) : Prop :=
  match u.phase with
  | .sending rest hasMore =>
    above (·.sequence) u.lastSequence (s.log u.source) = rest ++ s.unread u ∧
      (hasMore = false → s.Brings u)
  | .live => s.Brings u
  | .reading | .closed => True

structure Tracks (s : EventSystem) (u : Subscriber) : Prop where
  after_le : u.after ≤ u.lastSequence
  last : u.lastSequence = u.after ∨ ∃ e ∈ s.log u.source, e.sequence = u.lastSequence
  sent : u.delivered = between (·.sequence) u.after u.lastSequence (s.log u.source)
  queued : ∀ e ∈ u.queue, e ∈ s.events
  ahead : s.Ahead u

theorem Tracks.complete (h : s.Tracks u) (hw : s.WellLogged) : s.Complete u := by
  refine ⟨h.sent, h.sent ▸ (hw.ordered u.source).filter _, fun hlive hlag hqueue hpending => ?_⟩
  have hnil : above (·.sequence) u.lastSequence (s.log u.source) = [] := by
    have hahead : s.Brings u := by
      have := h.ahead
      rwa [Ahead, hlive] at this
    have hread : u.readThrough = u.lastSequence := by simp [Subscriber.readThrough, hlive]
    simp only [Brings, unread, hread, hlag, Bool.false_eq_true, false_or, waiting, hqueue,
      List.filter_nil, List.nil_append] at hahead
    rw [hahead]
    refine List.filter_eq_nil_iff.mpr fun e he => ?_
    have hsel := (mem_log.mp (List.mem_filter.mp he).1).2
    simp only [decide_eq_true_eq]
    intro hp
    simp [hpending e hp] at hsel
  rw [h.sent]
  exact Increasing.between_of_above_nil hnil

/-! What the table's growth does. -/

theorem log_append (s : EventSystem) (e : AgentEvent) (pending : List AgentEvent)
    (source : EventSource) :
    ({ s with events := s.events ++ [e], pending := pending } : EventSystem).log source =
      s.log source ++ if source.selects e then [e] else [] := by
  rw [log, List.filter_append, log]
  congr 1
  cases h : source.selects e <;> simp [h]

theorem lt_nextSequence_of_selects (hw : s.WellLogged) {e y : AgentEvent}
    (hsel : source.selects e = true)
    (hrun : ∀ run, e.runId = some run → e.agentId = s.runAgent run) (hy : y ∈ s.log source) :
    y.sequence < s.nextSequence e.agentId := by
  obtain ⟨hmem, hy⟩ := mem_log.mp hy
  refine lt_nextSequence hmem ?_
  cases source with
  | agent id =>
    simp only [EventSource.selects, decide_eq_true_eq] at hsel hy
    rw [hsel, hy]
  | run id =>
    simp only [EventSource.selects, decide_eq_true_eq] at hsel hy
    rw [hw.runs y hmem id hy, hrun id hsel]

theorem commit_wellLogged (hw : s.WellLogged) {e : AgentEvent}
    (hseq : e.sequence = s.nextSequence e.agentId)
    (hrun : ∀ run, e.runId = some run → e.agentId = s.runAgent run) :
    ({ s with events := s.events ++ [e], pending := s.pending ++ [e] } : EventSystem).WellLogged := by
  have habove : ∀ source : EventSource, source.selects e = true → ∀ y ∈ s.log source,
      y.sequence < e.sequence := by
    intro source hsel y hy
    rw [hseq]
    exact lt_nextSequence_of_selects hw hsel hrun hy
  have hnew : e ∉ s.events := fun hmem => by
    have := lt_nextSequence hmem rfl
    omega
  refine ⟨fun y hy run hr => ?_, fun source => ?_, ?_, fun y hy => ?_, ?_⟩
  · rcases List.mem_append.mp hy with hy | hy
    · exact hw.runs y hy run hr
    · obtain rfl := List.mem_singleton.mp hy
      exact hrun run hr
  · rw [log_append]
    cases hsel : source.selects e with
    | false => simpa using hw.ordered source
    | true => simpa using (hw.ordered source).concat (habove source hsel)
  · rw [List.nodup_append]
    refine ⟨hw.fresh, List.nodup_singleton e, ?_⟩
    rintro y hy z hz rfl
    exact hnew (List.mem_singleton.mp hz ▸ hy)
  · rcases List.mem_append.mp hy with hy | hy
    · exact List.mem_append_left _ (hw.pending y hy)
    · exact List.mem_append_right _ hy
  · rw [List.nodup_append]
    refine ⟨hw.once, List.nodup_singleton e, ?_⟩
    rintro y hy z hz rfl
    exact hnew (hw.pending _ (List.mem_singleton.mp hz ▸ hy))

theorem sub_unread {e : AgentEvent} :
    e ∈ s.unread u ↔ (e ∈ s.events ∧ u.source.selects e = true) ∧ u.readThrough < e.sequence := by
  simp [unread, above, mem_log]

theorem wanted_iff {e : AgentEvent} (he : e ∈ s.events) : wanted u e = true ↔ e ∈ s.unread u := by
  simp [sub_unread, wanted, he]

/-- A subscriber has read up to the last event sent, or up to one past it. -/
theorem Tracks.read_cases (h : s.Tracks u) : u.lastSequence = u.readThrough ∨
    ∃ e ∈ s.log u.source, u.lastSequence < e.sequence ∧ e.sequence = u.readThrough := by
  have hahead := h.ahead
  unfold Ahead at hahead
  unfold Subscriber.readThrough
  split at hahead
  · rename_i rest hasMore hphase
    simp only [hphase]
    cases hl : rest.getLast? with
    | none => simp
    | some e =>
      have hmem : e ∈ above (·.sequence) u.lastSequence (s.log u.source) := by
        rw [hahead.1]
        exact List.mem_append_left _ (List.mem_of_getLast? hl)
      obtain ⟨he, hlt⟩ := List.mem_filter.mp hmem
      exact .inr ⟨e, he, by simpa using hlt, by simp⟩
  all_goals
    rename_i hphase
    simp [hphase]

/-- A commit appends to what every subscriber has not read, or goes unnoticed by it. -/
theorem commit_tracks (h : s.Tracks u) {e : AgentEvent}
    (habove : u.source.selects e = true → ∀ y ∈ s.log u.source, y.sequence < e.sequence)
    (hnew : e ∉ s.events) :
    ({ s with events := s.events ++ [e], pending := s.pending ++ [e] } : EventSystem).Tracks u := by
  set s' : EventSystem := { s with events := s.events ++ [e], pending := s.pending ++ [e] } with hs'
  have hlog := log_append s e (s.pending ++ [e]) u.source
  -- Events other than the new one are pending exactly if they were.
  have hpending : ∀ xs : List AgentEvent, (∀ y ∈ xs, y ∈ s.events) →
      xs.filter (fun y => decide (y ∈ s'.pending)) = xs.filter fun y => decide (y ∈ s.pending) := by
    intro xs hxs
    refine List.filter_congr fun y hy => ?_
    have : y ≠ e := fun heq => hnew (heq ▸ hxs y hy)
    simp [hs', this]
  have hunread : ∀ y ∈ s.unread u, y ∈ s.events := fun y hy => (sub_unread.mp hy).1.1
  have hsub : ∀ y ∈ s.log u.source, y ∈ s'.log u.source := fun y hy => by
    rw [hlog]
    exact List.mem_append_left _ hy
  have hqueued : ∀ y ∈ u.queue, y ∈ s'.events := fun y hy => List.mem_append_left _ (h.queued y hy)
  have hlast : u.lastSequence = u.after ∨ ∃ y ∈ s'.log u.source, y.sequence = u.lastSequence := by
    rcases h.last with heq | ⟨y, hy, heq⟩
    · exact .inl heq
    · exact .inr ⟨y, hsub y hy, heq⟩
  by_cases hnote : u.source.selects e = true ∧ u.lastSequence < e.sequence
  · obtain ⟨hsel, hlt⟩ := hnote
    have hread : u.readThrough < e.sequence := by
      rcases h.read_cases with heq | ⟨y, hy, -, heq⟩
      · omega
      · exact heq ▸ habove hsel y hy
    have hlog' : s'.log u.source = s.log u.source ++ [e] := by rw [hlog, hsel]; rfl
    have hunread' : s'.unread u = s.unread u ++ [e] := by
      rw [unread, hlog', Increasing.above_concat, if_pos hread]
      rfl
    have hbrings : s.Brings u → s'.Brings u := by
      rintro (hlag | heq)
      · exact .inl hlag
      · refine .inr ?_
        rw [hunread', List.filter_append, hpending _ hunread, ← List.append_assoc, ← heq]
        simp [hs']
    refine ⟨h.after_le, hlast, ?_, hqueued, ?_⟩
    · rw [h.sent, hlog', Increasing.between_concat_of_lt hlt]
    · have hahead := h.ahead
      unfold Ahead at hahead ⊢
      split at hahead
      · refine ⟨?_, fun hm => hbrings (hahead.2 hm)⟩
        rw [hlog', Increasing.above_concat, if_pos hlt, hahead.1, hunread', List.append_assoc]
      · exact hbrings hahead
      all_goals trivial
  · -- The source does not select the event, or the cursor is past it and nothing was sent.
    have hbelow : u.source.selects e = true → e.sequence ≤ u.after ∧ u.lastSequence = u.after := by
      intro hsel
      have hle : e.sequence ≤ u.lastSequence := by
        by_contra hgt
        exact hnote ⟨hsel, by omega⟩
      rcases h.last with heq | ⟨y, hy, heq⟩
      · exact ⟨heq ▸ hle, heq⟩
      · have := habove hsel y hy
        omega
    have hkeep : ∀ n, u.lastSequence ≤ n →
        above (·.sequence) n (s'.log u.source) = above (·.sequence) n (s.log u.source) := by
      intro n hn
      rw [hlog]
      cases hsel : u.source.selects e with
      | false => simp
      | true =>
        have := hbelow hsel
        rw [if_pos rfl, Increasing.above_concat, if_neg (by omega), List.append_nil]
    have hle : u.lastSequence ≤ u.readThrough := by
      rcases h.read_cases with heq | ⟨y, hy, hlt, heq⟩ <;> omega
    have hunread' : s'.unread u = s.unread u := hkeep _ hle
    have hbrings : s.Brings u → s'.Brings u := by
      rintro (hlag | heq)
      · exact .inl hlag
      · refine .inr ?_
        rw [hunread', hpending _ hunread]
        exact heq
    refine ⟨h.after_le, hlast, ?_, hqueued, ?_⟩
    · rw [h.sent, hlog]
      cases hsel : u.source.selects e with
      | false => simp
      | true =>
        have := hbelow hsel
        have hnot : ¬ u.after < e.sequence := by omega
        simp [between, hnot]
    · have hahead := h.ahead
      unfold Ahead at hahead ⊢
      split at hahead
      · refine ⟨?_, fun hm => hbrings (hahead.2 hm)⟩
        rw [hkeep _ (Nat.le_refl _), hunread']
        exact hahead.1
      · exact hbrings hahead
      all_goals trivial

/-- A broadcast in order moves the event from what is to be broadcast to what waits. -/
theorem broadcast_tracks (hw : s.WellLogged) (h : s.Tracks u) {e : AgentEvent} (he : e ∈ s.pending)
    (hguard : u.PastReplay → u.source.selects e = true → ∀ y ∈ s.pending,
      u.source.selects y = true → u.readThrough < y.sequence → e.sequence ≤ y.sequence)
    (subscribers : ℕ → Option Subscriber) :
    ({ s with pending := s.pending.erase e, subscribers := subscribers } : EventSystem).Tracks
      (u.push e) := by
  set s' : EventSystem := { s with pending := s.pending.erase e, subscribers := subscribers }
    with hs'
  have hpush : ∃ queue lagged, u.push e = { u with queue := queue, lagged := lagged } ∧
      (∀ y ∈ queue, y ∈ s.events) ∧
      (lagged = true ∨ (lagged = u.lagged ∧ queue = u.queue ++ [e])) := by
    unfold Subscriber.push
    split
    · refine ⟨_, _, rfl, fun y hy => ?_, .inr ⟨rfl, rfl⟩⟩
      rcases List.mem_append.mp hy with hy | hy
      · exact h.queued y hy
      · exact List.mem_singleton.mp hy ▸ hw.pending e he
    · refine ⟨_, _, rfl, fun y hy => ?_, .inl rfl⟩
      rcases List.mem_append.mp hy with hy | hy
      · exact h.queued y (List.mem_of_mem_tail hy)
      · exact List.mem_singleton.mp hy ▸ hw.pending e he
  obtain ⟨queue, lagged, heq, hqueued, hlagged⟩ := hpush
  rw [heq]
  have hbrings : (u.lagged = false → u.PastReplay) → s.Brings u →
      s'.Brings { u with queue := queue, lagged := lagged } := by
    intro hpast hb
    rcases hlagged with hlag | ⟨hlag, rfl⟩
    · exact .inl hlag
    rcases hb with hb | hb
    · exact .inl (hlag.trans hb)
    cases hl : u.lagged with
    | true => exact .inl (hlag.trans hl)
    | false =>
      refine .inr ?_
      show s.unread u = waiting { u with queue := u.queue ++ [e], lagged := lagged } ++
        (s.unread u).filter fun y => decide (y ∈ s.pending.erase e)
      rw [waiting_concat]
      have hmem : ∀ y, y ∈ s.pending.erase e ↔ y ≠ e ∧ y ∈ s.pending := fun y =>
        hw.once.mem_erase_iff
      by_cases hin : e ∈ s.unread u
      · obtain ⟨⟨-, hsel⟩, hlt⟩ := sub_unread.mp hin
        have hinc : Increasing (·.sequence) (s.unread u) := (hw.ordered u.source).filter _
        have hpinc : Increasing (·.sequence)
          ((s.unread u).filter fun y => decide (y ∈ s.pending)) := hinc.filter _
        -- In order, the event is the first of those still to be broadcast.
        obtain ⟨rest, hrest⟩ : ∃ rest,
            (s.unread u).filter (fun y => decide (y ∈ s.pending)) = e :: rest := by
          have hep : e ∈ (s.unread u).filter (fun y => decide (y ∈ s.pending)) :=
            List.mem_filter.mpr ⟨hin, by simpa using he⟩
          cases hp : (s.unread u).filter (fun y => decide (y ∈ s.pending)) with
          | nil => simp [hp] at hep
          | cons f rest =>
            have hf : f ∈ (s.unread u).filter (fun y => decide (y ∈ s.pending)) :=
              hp ▸ List.mem_cons_self
            obtain ⟨hfu, hfp⟩ := List.mem_filter.mp hf
            obtain ⟨⟨-, hfs⟩, hft⟩ := sub_unread.mp hfu
            have hle := hguard (hpast hl) hsel f (by simpa using hfp) hfs hft
            rcases List.mem_cons.mp (hp ▸ hep) with rfl | her
            · exact ⟨rest, rfl⟩
            · have hlt' : f.sequence < e.sequence := (List.pairwise_cons.mp (hp ▸ hpinc)).1 e her
              omega
        have herase : (s.unread u).filter (fun y => decide (y ∈ s.pending.erase e)) = rest := by
          have hsplit : (s.unread u).filter (fun y => decide (y ∈ s.pending.erase e)) =
              ((s.unread u).filter fun y => decide (y ∈ s.pending)).filter
                fun y => decide (y ≠ e) := by
            rw [List.filter_filter]
            exact List.filter_congr fun y _ => by simp [hmem]
          rw [hsplit, hrest, List.filter_cons_of_neg (by simp)]
          refine List.filter_eq_self.mpr fun y hy => ?_
          have hlt' : e.sequence < y.sequence := (List.pairwise_cons.mp (hrest ▸ hpinc)).1 y hy
          simp only [decide_eq_true_eq]
          rintro rfl
          omega
        rw [if_pos ((wanted_iff (hw.pending e he)).mpr hin), herase, List.append_assoc,
          List.singleton_append, ← hrest]
        exact hb
      · have herase : (s.unread u).filter (fun y => decide (y ∈ s.pending.erase e)) =
            (s.unread u).filter fun y => decide (y ∈ s.pending) := by
          refine List.filter_congr fun y hy => ?_
          have hne : y ≠ e := fun heq => hin (heq ▸ hy)
          simp [hmem, hne]
        rw [if_neg fun hc => hin ((wanted_iff (hw.pending e he)).mp hc), herase, List.append_nil]
        exact hb
  refine ⟨h.after_le, h.last, h.sent, hqueued, ?_⟩
  have hahead := h.ahead
  unfold Ahead at hahead ⊢
  dsimp only
  split at hahead
  · rename_i rest hasMore hphase
    refine ⟨hahead.1, fun hm => hbrings (fun hl => ⟨hl, ?_⟩) (hahead.2 hm)⟩
    subst hm
    simp [hphase]
  · rename_i hphase
    exact hbrings (fun hl => ⟨hl, by simp [hphase]⟩) hahead
  all_goals trivial

/-- Sending the next unsent event of the source. -/
theorem Tracks.deliver (h : s.Tracks u) (hw : s.WellLogged) {e : AgentEvent}
    {tl : List AgentEvent} (hnext : above (·.sequence) u.lastSequence (s.log u.source) = e :: tl) :
    u.lastSequence < e.sequence ∧
      above (·.sequence) e.sequence (s.log u.source) = tl ∧
      u.after ≤ (u.deliver e).lastSequence ∧
      (∃ y ∈ s.log u.source, y.sequence = (u.deliver e).lastSequence) ∧
      (u.deliver e).delivered =
        between (·.sequence) u.after (u.deliver e).lastSequence (s.log u.source) := by
  obtain ⟨hlt, htl⟩ := (hw.ordered u.source).above_cons hnext
  refine ⟨hlt, htl, h.after_le.trans (Nat.le_of_lt hlt), ⟨e, ?_, rfl⟩, ?_⟩
  · have : e ∈ above (·.sequence) u.lastSequence (s.log u.source) := hnext ▸ List.mem_cons_self
    exact (List.mem_filter.mp this).1
  · show u.delivered ++ [e] = between (·.sequence) u.after e.sequence (s.log u.source)
    rw [(hw.ordered u.source).between_cons hnext h.after_le, ← h.sent]

/-- The page that a subscriber reads is what it has not sent, up to the page's limit. -/
theorem eventPage_after (hinc : Increasing (·.sequence) (s.log source)) (after : ℕ) :
    eventPage s.events source
        { afterSequence := some after, beforeSequence := none, limit := some 500 } =
      .ok
        { events := (above (·.sequence) after (s.log source)).take 500
          nextSequence :=
            if 500 < (above (·.sequence) after (s.log source)).length then
              ((above (·.sequence) after (s.log source)).take 500).getLast?.map (·.sequence)
            else none
          previousSequence := none
          hasMore := decide (500 < (above (·.sequence) after (s.log source)).length) } := by
  have hrows : ((s.events.filter source.selects).filter
      fun (event : AgentEvent) => decide (after < event.sequence)).insertionSort
        (fun a b => a.sequence ≤ b.sequence) = above (·.sequence) after (s.log source) := by
    refine List.Pairwise.insertionSort_eq ?_
    exact (hinc.filter _).imp fun hab => Nat.le_of_lt hab
  simp only [eventPage, Option.getD_some, Option.any_none, hrows]
  have hlen : (500 < ((above (·.sequence) after (s.log source)).take (500 + 1)).length) ↔
      500 < (above (·.sequence) after (s.log source)).length := by
    rw [List.length_take]
    omega
  simp [List.take_take]

theorem readPage_tracks (hw : s.WellLogged) (h : s.Tracks u) {u' : Subscriber}
    (hr : s.readPage u = some u') : s.Tracks u' := by
  unfold readPage at hr
  split at hr
  · rw [eventPage_after (hw.ordered u.source)] at hr
    cases hr
    refine ⟨h.after_le, h.last, h.sent, h.queued, ?_⟩
    set ahead := above (·.sequence) u.lastSequence (s.log u.source) with hahead
    have hunread : above (·.sequence)
        (((ahead.take 500).getLast?.map (·.sequence)).getD u.lastSequence) (s.log u.source) =
        ahead.drop 500 :=
      (hw.ordered u.source).above_append (by rw [List.take_append_drop])
    refine ⟨?_, fun hm => .inr ?_⟩
    · calc ahead = ahead.take 500 ++ ahead.drop 500 := (List.take_append_drop 500 ahead).symm
        _ = ahead.take 500 ++ above (·.sequence) _ (s.log u.source) := by rw [← hunread]; rfl
    · -- The last page leaves nothing unread, so nothing that waits is new.
      have hnil : ahead.drop 500 = [] := List.drop_eq_nil_of_le (by simpa using hm)
      set u' : Subscriber := { u with
        phase := .sending (ahead.take 500) (decide (500 < ahead.length)) } with hu'
      have hnone : s.unread u' = [] := hunread.trans hnil
      have hwait : waiting u' = [] := by
        refine List.filter_eq_nil_iff.mpr fun y hy hwanted => ?_
        have := (wanted_iff (h.queued y hy)).mp hwanted
        simp [hnone] at this
      rw [hnone, hwait]
      rfl
  · cases hr

theorem send_tracks (hw : s.WellLogged) (h : s.Tracks u) {u' : Subscriber}
    (hs : send u = some u') : s.Tracks u' := by
  have hahead := h.ahead
  unfold send at hs
  split at hs
  · rename_i event rest hasMore hphase
    simp only [Ahead, hphase] at hahead
    obtain ⟨hnext, hb⟩ := hahead
    obtain ⟨hlt, htl, hle, hmem, hsent⟩ := h.deliver hw hnext
    have hnot : ¬ event.sequence ≤ u.lastSequence := by omega
    dsimp only at hs
    rw [if_neg hnot] at hs
    cases hs
    have hread : (Subscriber.deliver { u with phase := .sending rest hasMore } event).readThrough =
        u.readThrough := by
      simp only [Subscriber.readThrough, Subscriber.deliver, hphase]
      cases rest with
      | nil => simp
      | cons z zs =>
        rw [List.getLast?_cons_cons]
        cases hl : (z :: zs).getLast? with
        | none => simp at hl
        | some w => rfl
    have hunread : s.unread (Subscriber.deliver { u with phase := .sending rest hasMore } event) =
        s.unread u := by
      unfold unread
      rw [hread]
      rfl
    refine ⟨hle, .inr hmem, hsent, h.queued, htl.trans ?_, fun hm => ?_⟩
    · rw [hunread]
      rfl
    rcases hb hm with hlag | heq
    · exact .inl hlag
    · refine .inr ?_
      have hwait : waiting (Subscriber.deliver { u with phase := .sending rest hasMore } event) =
          waiting u := by
        refine List.filter_congr fun y _ => ?_
        unfold wanted
        rw [hread]
        rfl
      rw [hunread, hwait]
      exact heq
  · cases hs
    exact ⟨h.after_le, h.last, h.sent, h.queued, trivial⟩
  · rename_i hphase
    cases hs
    simp only [Ahead, hphase] at hahead
    refine ⟨h.after_le, h.last, h.sent, h.queued, ?_⟩
    have hread : ({ u with phase := .live } : Subscriber).readThrough = u.readThrough := by
      simp [Subscriber.readThrough, hphase]
    have hunread : s.unread { u with phase := .live } = s.unread u := by
      unfold unread
      rw [hread]
    have hwait : waiting { u with phase := .live } = waiting u := by
      refine List.filter_congr fun y _ => ?_
      unfold wanted
      rw [hread]
    rcases hahead.2 trivial with hlag | heq
    · exact .inl hlag
    · refine .inr ?_
      rw [hunread, hwait]
      exact heq
  · cases hs

theorem receive_tracks (hw : s.WellLogged) (h : s.Tracks u) {u' : Subscriber}
    (hr : receive u = some u') : s.Tracks u' := by
  have hahead := h.ahead
  unfold receive at hr
  split at hr
  · rename_i hphase
    simp only [Ahead, hphase] at hahead
    have hread : u.readThrough = u.lastSequence := by simp [Subscriber.readThrough, hphase]
    split at hr
    · cases hr
      exact ⟨h.after_le, h.last, h.sent, h.queued, trivial⟩
    · rename_i hlag
      have heq := hahead.resolve_left hlag
      split at hr
      · cases hr
      · rename_i event rest hqueue
        have hqueued : ∀ y ∈ rest, y ∈ s.events := fun y hy =>
          h.queued y (hqueue ▸ List.mem_cons_of_mem _ hy)
        have hwait : waiting u = (if wanted u event then [event] else []) ++
            rest.filter (wanted u) := by
          rw [waiting, hqueue]
          cases hwanted : wanted u event <;> simp [hwanted]
        have hcond : (u.source.selects event && decide (u.lastSequence < event.sequence)) =
            wanted u event := by rw [wanted, hread]
        dsimp only at hr
        rw [hcond] at hr
        cases hwanted : wanted u event with
        | true =>
          rw [hwanted, if_pos rfl] at hwait
          rw [if_pos hwanted] at hr
          cases hr
          have hnext : above (·.sequence) u.lastSequence (s.log u.source) = event ::
              (rest.filter (wanted u) ++ (s.unread u).filter fun y => decide (y ∈ s.pending)) := by
            rw [← hread]
            exact heq.trans (by rw [hwait]; rfl)
          obtain ⟨hlt, htl, hle, hmem, hsent⟩ := h.deliver hw hnext
          refine ⟨hle, .inr hmem, hsent, hqueued, ?_⟩
          set u' := Subscriber.deliver { u with queue := rest } event with hu'
          have hphase' : u'.phase = .live := hphase
          have hunread' : s.unread u' =
              rest.filter (wanted u) ++ (s.unread u).filter fun y => decide (y ∈ s.pending) := by
            have hread' : u'.readThrough = event.sequence := by
              simp only [Subscriber.readThrough, hphase']
              rfl
            unfold unread
            rw [hread']
            exact htl
          have hunread : s.unread u = event :: s.unread u' := by
            calc s.unread u = above (·.sequence) u.lastSequence (s.log u.source) := by
                  rw [unread, hread]
              _ = event :: s.unread u' := by rw [hnext, hunread']
          -- What was delivered is not pending: it would be past itself.
          have hpend : (s.unread u).filter (fun y => decide (y ∈ s.pending)) =
              (s.unread u').filter fun y => decide (y ∈ s.pending) := by
            rw [hunread, List.filter_cons_of_neg]
            intro hp
            have hin : event ∈ s.unread u' := by
              rw [hunread', hunread]
              exact List.mem_append_right _ (List.mem_filter.mpr ⟨List.mem_cons_self, hp⟩)
            have := (sub_unread.mp hin).2
            simp only [Subscriber.readThrough, hphase'] at this
            exact Nat.lt_irrefl _ this
          have hwait' : waiting u' = rest.filter (wanted u) := by
            refine List.filter_congr fun y hy => Bool.eq_iff_iff.mpr ⟨fun hy' => ?_, fun hy' => ?_⟩
            · have := (wanted_iff (hqueued y hy)).mp hy'
              rw [wanted_iff (hqueued y hy), hunread]
              exact List.mem_cons_of_mem _ this
            · rw [wanted_iff (hqueued y hy), hunread']
              exact List.mem_append_left _ (List.mem_filter.mpr ⟨hy, hy'⟩)
          have hbrings : s.Brings u' := .inr (by rw [hwait', ← hpend]; exact hunread')
          simpa only [Ahead, hphase'] using hbrings
        | false =>
          rw [hwanted] at hwait
          rw [if_neg (by simp [hwanted])] at hr
          cases hr
          refine ⟨h.after_le, h.last, h.sent, hqueued, ?_⟩
          have : s.Brings { u with queue := rest } := by
            refine .inr ?_
            show s.unread u = rest.filter (wanted u) ++
              (s.unread u).filter fun y => decide (y ∈ s.pending)
            rw [show rest.filter (wanted u) = waiting u by rw [hwait]; rfl]
            exact heq
          simpa only [Ahead, hphase] using this
  · cases hr

/-! The whole system. -/

/-- The invariant: the table is in order and every subscriber is tracked. -/
structure Sound (s : EventSystem) : Prop where
  logged : s.WellLogged
  tracks : ∀ id u, s.subscribers id = some u → s.Tracks u

/-- A subscriber's own step leaves the table and the other subscribers alone. -/
theorem advance_sound (hs : s.Sound) {id : ℕ} {task : Subscriber → Option Subscriber}
    (htask : ∀ u u', s.Tracks u → task u = some u' → s.Tracks u')
    (h : s.advance id task = some s') : s'.Sound := by
  simp only [advance, Option.bind_eq_some_iff, Option.map_eq_some_iff] at h
  obtain ⟨u, hu, u', hu', rfl⟩ := h
  refine ⟨⟨hs.logged.runs, hs.logged.ordered, hs.logged.fresh, hs.logged.pending,
    hs.logged.once⟩, fun other v hv => ?_⟩
  have htracks : s.Tracks v := by
    by_cases hid : other = id
    · subst hid
      obtain rfl : u' = v := by simpa using hv
      exact htask u u' (hs.tracks other u hu) hu'
    · exact hs.tracks other v (by simpa [hid] using hv)
  exact ⟨htracks.after_le, htracks.last, htracks.sent, htracks.queued, htracks.ahead⟩

theorem broadcast_wellLogged (hw : s.WellLogged) (e : AgentEvent)
    (subscribers : ℕ → Option Subscriber) :
    ({ s with pending := s.pending.erase e, subscribers := subscribers } :
      EventSystem).WellLogged :=
  ⟨hw.runs, hw.ordered, hw.fresh, fun y hy => hw.pending y (List.mem_of_mem_erase hy),
    hw.once.erase e⟩

/-- A subscriber that is gone has sent what it has sent. -/
theorem Tracks.closed (h : s.Tracks u) (pending : List AgentEvent)
    (subscribers : ℕ → Option Subscriber) {v : Subscriber}
    (hv : v = { u with phase := .closed }) :
    ({ s with pending := pending, subscribers := subscribers } : EventSystem).Tracks v := by
  subst hv
  exact ⟨h.after_le, h.last, h.sent, h.queued, trivial⟩

theorem step_sound {action : EventAction} (hs : s.Sound) (hg : s.InOrder action)
    (h : step s action = some s') : s'.Sound := by
  cases action with
  | commit agentId runId eventType payload createdAt =>
    simp only [step] at h
    split at h
    · rename_i hrun
      cases h
      have hrun' : ∀ run, runId = some run → agentId = s.runAgent run := by
        rintro run rfl
        simpa [eq_comm] using hrun
      refine ⟨commit_wellLogged hs.logged rfl hrun', fun id u hu => ?_⟩
      refine commit_tracks (hs.tracks id u hu) (fun hsel y hy => ?_) (fun hmem => ?_)
      · exact lt_nextSequence_of_selects hs.logged hsel hrun' hy
      · exact Nat.lt_irrefl _ (lt_nextSequence hmem rfl)
    · cases h
  | broadcast event =>
    simp only [step] at h
    split at h
    · rename_i hmem
      cases h
      refine ⟨broadcast_wellLogged hs.logged event _, fun id v hv => ?_⟩
      obtain ⟨u, hu, hv⟩ := Option.map_eq_some_iff.mp hv
      split at hv
      · rename_i hclosed
        refine (hs.tracks id u hu).closed _ _ ?_
        rw [← hv, ← hclosed]
      · subst hv
        exact broadcast_tracks hs.logged (hs.tracks id u hu) hmem
          (fun hpast hsel => hg id u hu hpast hsel) _
    · cases h
  | subscribe id source after =>
    simp only [step] at h
    split at h
    · cases h
      refine ⟨⟨hs.logged.runs, hs.logged.ordered, hs.logged.fresh, hs.logged.pending,
        hs.logged.once⟩, fun other u hu => ?_⟩
      by_cases hid : other = id
      · subst hid
        obtain rfl := by simpa using hu
        refine ⟨Nat.le_refl _, .inl rfl, ?_, by simp, trivial⟩
        refine (List.filter_eq_nil_iff.mpr fun e _ => ?_).symm
        simp
      · have := hs.tracks other u (by simpa [hid] using hu)
        exact ⟨this.after_le, this.last, this.sent, this.queued, this.ahead⟩
    · cases h
  | readPage id => exact advance_sound hs (fun _ _ ht hr => readPage_tracks hs.logged ht hr) h
  | send id => exact advance_sound hs (fun _ _ ht hr => send_tracks hs.logged ht hr) h
  | receive id => exact advance_sound hs (fun _ _ ht hr => receive_tracks hs.logged ht hr) h
  | disconnect id =>
    refine advance_sound hs (fun u u' ht hr => ?_) h
    exact ht.closed _ _ (Option.some.inj hr).symm

theorem initial_sound (runAgent : String → String) : (initial runAgent).Sound :=
  ⟨⟨by simp [initial], fun _ => List.Pairwise.nil, List.nodup_nil, by simp [initial],
    List.nodup_nil⟩, by simp [initial]⟩

theorem run_sound {runAgent : String → String} {actions : List EventAction}
    (h : machine.Path InOrder (initial runAgent) actions s) : s.Sound :=
  h.invariant (fun _ _ _ hs hg hstep => step_sound hs hg hstep) (initial_sound runAgent)

/-- A broadcast that takes the oldest committed event first. -/
def OldestFirst (s : EventSystem) : EventAction → Prop
  | .broadcast event => ∀ earlier ∈ s.pending, event.sequence ≤ earlier.sequence
  | _ => True

instance (s : EventSystem) (action : EventAction) : Decidable (s.OldestFirst action) := by
  cases action <;> unfold OldestFirst <;> infer_instance

theorem OldestFirst.inOrder {action : EventAction} (h : s.OldestFirst action) :
    s.InOrder action := by
  cases action with
  | broadcast event => exact fun _ _ _ _ _ earlier hmem _ _ => h earlier hmem
  | _ => trivial

def published (n : ℕ) (payload : String) : AgentEvent := ⟨"agent", none, n, "message", payload, ""⟩

end EventSystem
end PiDeck.Agents
