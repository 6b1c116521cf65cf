import Mathlib
import PiDeck.Collections.Increasing
import PiDeck.Outbound.Connection

/-! The window of one terminal on a connection: what has been sent and not yet acknowledged. Sizes
are machine words, whose sums stop at the largest word. -/
namespace PiDeck.Outbound
open PiDeck.Collections

def usizeMax : ℕ := 2 ^ 64 - 1

def saturatingAdd (a b : ℕ) : ℕ := min (a + b) usizeMax

theorem saturatingAdd_eq {a b : ℕ} (h : a + b ≤ usizeMax) : saturatingAdd a b = a + b :=
  min_eq_left h

namespace TerminalFlow

/-- `reserve` as it counts in machine words. -/
def reserveWords (flow : TerminalFlow) (sequence bytes limit : ℕ) : TerminalFlow × Bool :=
  if sequence ≤ flow.acknowledged then (flow, false)
  else if limit < saturatingAdd flow.unacknowledgedBytes bytes then (flow, false)
  else
    ({ flow with
      sent := flow.sent ++ [(sequence, bytes)]
      unacknowledgedBytes := saturatingAdd flow.unacknowledgedBytes bytes }, true)

/-- No sum comes to its end below a limit that is not the largest word. -/
theorem reserveWords_eq {flow : TerminalFlow} {sequence bytes limit : ℕ}
    (h : limit < usizeMax ∨ flow.unacknowledgedBytes + bytes ≤ usizeMax) :
    flow.reserveWords sequence bytes limit = flow.reserve sequence bytes limit := by
  unfold reserveWords reserve
  by_cases hfits : flow.unacknowledgedBytes + bytes ≤ usizeMax
  · rw [saturatingAdd_eq hfits]
  · have hlimit : limit < usizeMax := h.resolve_right hfits
    have hsum : saturatingAdd flow.unacknowledgedBytes bytes = usizeMax :=
      min_eq_right (Nat.le_of_not_le hfits)
    rw [hsum, if_pos hlimit, if_pos (by omega : limit < flow.unacknowledgedBytes + bytes)]

end TerminalFlow

/-! ### Sends and acknowledgements -/

inductive FlowEvent
  | send (sequence bytes : ℕ)
  | acknowledge (sequence : ℕ)

/-- A window with all the frames that it has let through. -/
structure FlowHistory where
  flow : TerminalFlow
  passed : List (ℕ × ℕ)

namespace FlowHistory

def start (acknowledged : ℕ) : FlowHistory := ⟨.new acknowledged, []⟩

/-- A frame that is refused is not sent. -/
def event (limit : ℕ) (history : FlowHistory) : FlowEvent → FlowHistory
  | .send sequence bytes =>
    match history.flow.reserveWords sequence bytes limit with
    | (flow, true) => ⟨flow, history.passed ++ [(sequence, bytes)]⟩
    | (flow, false) => ⟨flow, history.passed⟩
  | .acknowledge sequence => ⟨history.flow.acknowledge sequence, history.passed⟩

def run (acknowledged limit : ℕ) (events : List FlowEvent) : FlowHistory :=
  events.foldl (event limit) (start acknowledged)

end FlowHistory

/-- The frames that are offered to the window: their end sequences and sizes. -/
def offered (events : List FlowEvent) : List (ℕ × ℕ) :=
  events.filterMap fun
    | .send sequence bytes => some (sequence, bytes)
    | .acknowledge _ => none

/-- The highest sequence that is acknowledged, from the one that the client attached with. -/
def highest (acknowledged : ℕ) (events : List FlowEvent) : ℕ :=
  events.foldl (fun highest event =>
    match event with
    | .send _ _ => highest
    | .acknowledge sequence => max highest sequence) acknowledged

/-- The sizes of the frames past a sequence. -/
def outstanding (sequence : ℕ) (frames : List (ℕ × ℕ)) : ℕ :=
  ((above Prod.fst sequence frames).map Prod.snd).sum

/-! ### What a run keeps -/

section Lists
variable {events : List FlowEvent} {acknowledged sequence bytes : ℕ}

theorem offered_send :
    offered (events ++ [.send sequence bytes]) = offered events ++ [(sequence, bytes)] := by
  simp [offered]

theorem offered_acknowledge : offered (events ++ [.acknowledge sequence]) = offered events := by
  simp [offered]

theorem highest_send :
    highest acknowledged (events ++ [.send sequence bytes]) = highest acknowledged events := by
  simp [highest]

theorem highest_acknowledge : highest acknowledged (events ++ [.acknowledge sequence]) =
    max (highest acknowledged events) sequence := by
  simp [highest]

end Lists

/-- The counter is the sum over the queue, the queue holds the frames past the highest
acknowledgement, and the counter is within the limit. -/
structure FlowHistory.Kept (acknowledged limit : ℕ) (events : List FlowEvent)
    (history : FlowHistory) : Prop where
  passed : history.passed.Sublist (offered events)
  acknowledged : history.flow.acknowledged = highest acknowledged events
  sent : history.flow.sent = above Prod.fst history.flow.acknowledged history.passed
  bytes : history.flow.unacknowledgedBytes = (history.flow.sent.map Prod.snd).sum
  within : history.flow.unacknowledgedBytes ≤ limit

namespace FlowHistory.Kept
variable {acknowledged limit sequence bytes : ℕ} {events : List FlowEvent} {history : FlowHistory}

theorem outstanding (h : history.Kept acknowledged limit events) :
    history.flow.unacknowledgedBytes =
      Outbound.outstanding (highest acknowledged events) history.passed := by
  rw [h.bytes, h.sent, h.acknowledged, Outbound.outstanding]

/-- What is outstanding has been offered. -/
theorem bytes_le (h : history.Kept acknowledged limit events) :
    history.flow.unacknowledgedBytes ≤ ((offered events).map Prod.snd).sum := by
  rw [h.bytes, h.sent]
  exact ((List.filter_sublist.trans h.passed).map Prod.snd).sum_le_sum fun _ _ => Nat.zero_le _

theorem acknowledge (h : history.Kept acknowledged limit events)
    (hinc : Increasing Prod.fst (offered events)) :
    (FlowHistory.event limit history (.acknowledge sequence)).Kept acknowledged limit
      (events ++ [.acknowledge sequence]) := by
  have hpassed : Increasing Prod.fst history.passed := hinc.sublist h.passed
  by_cases hold : sequence ≤ history.flow.acknowledged
  · have hevent : FlowHistory.event limit history (.acknowledge sequence) = history := by
      simp [FlowHistory.event, TerminalFlow.acknowledge, hold]
    rw [hevent]
    refine ⟨by rw [offered_acknowledge]; exact h.passed, ?_, h.sent, h.bytes, h.within⟩
    rw [highest_acknowledge, ← h.acknowledged, max_eq_left hold]
  · have hnew : history.flow.acknowledged ≤ sequence := Nat.le_of_not_le hold
    have hrest : (history.flow.sent.dropWhile fun sent => decide (sent.1 ≤ sequence)) =
        above Prod.fst sequence history.passed := by
      have hsent : Increasing Prod.fst (above Prod.fst history.flow.acknowledged history.passed) :=
        hpassed.filter _
      rw [h.sent, hsent.dropWhile_eq_above, Increasing.above_above hnew]
    -- What the queue loses at its front is what the counter loses.
    have hsum : history.flow.unacknowledgedBytes =
        ((history.flow.sent.takeWhile fun sent => decide (sent.1 ≤ sequence)).map Prod.snd).sum +
          ((above Prod.fst sequence history.passed).map Prod.snd).sum := by
      rw [h.bytes, ← hrest, ← List.sum_append, ← List.map_append, List.takeWhile_append_dropWhile]
    have hcount : (history.flow.acknowledge sequence).unacknowledgedBytes =
        ((above Prod.fst sequence history.passed).map Prod.snd).sum := by
      simp only [TerminalFlow.acknowledge, if_neg hold]
      omega
    refine ⟨by rw [offered_acknowledge]; exact h.passed, ?_, ?_, ?_, ?_⟩
    · rw [highest_acknowledge, ← h.acknowledged, max_eq_right hnew]
      simp [FlowHistory.event, TerminalFlow.acknowledge, hold]
    · simpa [FlowHistory.event, TerminalFlow.acknowledge, hold] using hrest
    · change (history.flow.acknowledge sequence).unacknowledgedBytes = _
      rw [hcount]
      simp [FlowHistory.event, TerminalFlow.acknowledge, hold, hrest]
    · change (history.flow.acknowledge sequence).unacknowledgedBytes ≤ limit
      have := h.within
      omega

theorem send (h : history.Kept acknowledged limit events)
    (hroom : limit < usizeMax ∨
      ((offered (events ++ [.send sequence bytes])).map Prod.snd).sum ≤ usizeMax) :
    (FlowHistory.event limit history (.send sequence bytes)).Kept acknowledged limit
      (events ++ [.send sequence bytes]) := by
  rw [offered_send] at hroom
  have hwords : history.flow.reserveWords sequence bytes limit =
      history.flow.reserve sequence bytes limit := by
    refine TerminalFlow.reserveWords_eq (hroom.imp_right fun hsum => ?_)
    have hbytes := h.bytes_le
    simp only [List.map_append, List.sum_append, List.map_cons, List.map_nil, List.sum_cons,
      List.sum_nil] at hsum
    omega
  have hpassed : history.passed.Sublist (offered events ++ [(sequence, bytes)]) :=
    h.passed.trans (List.sublist_append_left _ _)
  have hrefused (hsame : history.flow.reserve sequence bytes limit = (history.flow, false)) :
      (FlowHistory.event limit history (.send sequence bytes)).Kept acknowledged limit
        (events ++ [.send sequence bytes]) := by
    simp only [FlowHistory.event, hwords, hsame]
    exact ⟨by rw [offered_send]; exact hpassed, by rw [highest_send]; exact h.acknowledged,
      h.sent, h.bytes, h.within⟩
  by_cases hstale : sequence ≤ history.flow.acknowledged
  · exact hrefused (by rw [TerminalFlow.reserve, if_pos hstale])
  by_cases hfull : limit < history.flow.unacknowledgedBytes + bytes
  · exact hrefused (by rw [TerminalFlow.reserve, if_neg hstale, if_pos hfull])
  simp only [FlowHistory.event, hwords, TerminalFlow.reserve, if_neg hstale, if_neg hfull]
  refine ⟨?_, ?_, ?_, ?_, Nat.le_of_not_lt hfull⟩
  · rw [offered_send]
    exact h.passed.append_right _
  · rw [highest_send]
    exact h.acknowledged
  · rw [Increasing.above_concat, if_pos (Nat.lt_of_not_le hstale), ← h.sent]
  · simp [h.bytes]

end FlowHistory.Kept

/-! ### The window -/

/-- With end sequences that increase, the counter is the sum of the sizes of the frames sent whose
end sequence is above the highest acknowledged one, and it is within the limit. A limit that is the
largest word bounds nothing; there the stream itself must be no longer than its last sequence. -/
theorem unacknowledgedBytes_eq {acknowledged limit : ℕ} {events : List FlowEvent}
    (hinc : Increasing Prod.fst (offered events))
    (hroom : limit < usizeMax ∨ ((offered events).map Prod.snd).sum ≤ usizeMax) :
    let history := FlowHistory.run acknowledged limit events
    history.flow.unacknowledgedBytes =
        outstanding (highest acknowledged events) history.passed ∧
      history.flow.unacknowledgedBytes ≤ limit := by
  have hkept : (FlowHistory.run acknowledged limit events).Kept acknowledged limit events := by
    induction events using List.reverseRecOn with
    | nil => exact ⟨List.Sublist.slnil, rfl, rfl, rfl, Nat.zero_le limit⟩
    | append_singleton events event ih =>
      rw [FlowHistory.run, List.foldl_append, List.foldl_cons, List.foldl_nil]
      cases event with
      | send sequence bytes =>
        refine FlowHistory.Kept.send (ih ?_ ?_) hroom
        · rw [offered_send] at hinc
          exact hinc.sublist (List.sublist_append_left _ _)
        · refine hroom.imp_right fun hsum => ?_
          rw [offered_send, List.map_append, List.sum_append] at hsum
          omega
      | acknowledge sequence =>
        rw [offered_acknowledge] at hinc hroom
        exact (ih hinc hroom).acknowledge hinc
  exact ⟨hkept.outstanding, hkept.within⟩

/-- A window of ten bytes, a repeated acknowledgement and one past the last frame sent. -/
theorem unacknowledgedBytes_eq_ten :
    (FlowHistory.run 0 10 [.send 4 4, .send 9 5, .acknowledge 5, .acknowledge 5, .send 15 6,
        .acknowledge 12]).flow.unacknowledgedBytes = 0 ∧
      (FlowHistory.run 0 10 [.send 4 4, .send 9 5, .acknowledge 5, .acknowledge 5,
        .send 14 5]).flow.unacknowledgedBytes =
        outstanding (highest 0 [.send 4 4, .send 9 5, .acknowledge 5, .acknowledge 5, .send 14 5])
          (FlowHistory.run 0 10 [.send 4 4, .send 9 5, .acknowledge 5, .acknowledge 5,
            .send 14 5]).passed :=
  ⟨by decide, (unacknowledgedBytes_eq (by unfold Increasing; decide) (.inl (by decide))).1⟩

end PiDeck.Outbound
