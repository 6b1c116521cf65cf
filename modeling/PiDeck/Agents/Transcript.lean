import Mathlib
import PiDeck.Collections.Newest

/-! The transcript window of the agents client. Pages and live events arrive in any order and more
than once; the window is the tail of the map from sequences to the events delivered last. -/
namespace PiDeck.Agents.Transcript
open PiDeck.Collections

/-- A managed event. The payload stands for all that the window does not look into, and for the
identity of the event as an object. -/
structure ManagedAgentEvent (P : Type) where
  sequence : ℕ
  payload : P
  deriving DecidableEq

variable {P : Type}

abbrev Event (P : Type) := ManagedAgentEvent P

/-- The interval of a search narrows until it is empty. -/
def searchBetween (events : List (Event P)) (sequence low high : ℕ) : ℕ :=
  if h : low < high then
    let middle := (low + high) / 2
    if (events[middle]?).any fun event => decide (event.sequence < sequence) then
      searchBetween events sequence (middle + 1) high
    else searchBetween events sequence low middle
  else low
termination_by high - low

def binarySearchSequence (events : List (Event P)) (sequence : ℕ) : ℕ :=
  searchBetween events sequence 0 events.length

def trimEvents (limit : ℕ) (next : List (Event P)) : List (Event P) :=
  if limit < next.length then next.drop (next.length - limit) else next

def insertEvent (next : List (Event P)) (index : ℕ) (event : Event P) : List (Event P) :=
  next.take index ++ event :: next.drop index

/-- One turn of the loop of `mergeTranscriptEvents`. An event that is there already leaves the window
as it is. -/
def mergeEvent [DecidableEq P] (limit : ℕ) (next : List (Event P)) (event : Event P) : List (Event P) :=
  if next.getLast?.all fun last => decide (last.sequence < event.sequence) then
    trimEvents limit (next ++ [event])
  else
    let index := binarySearchSequence next event.sequence
    match next[index]? with
    | none => trimEvents limit (insertEvent next index event)
    | some found =>
      if found.sequence ≠ event.sequence then trimEvents limit (insertEvent next index event)
      else if found = event then next
      else trimEvents limit (next.set index event)

def mergeTranscriptEvents [DecidableEq P] (limit : ℕ) (current incoming : List (Event P)) : List (Event P) :=
  incoming.foldl (mergeEvent limit) current

/-! ### The sorted map -/

/-- The version of an event that was delivered last. -/
def latest? (delivered : List (Event P)) (sequence : ℕ) : Option (Event P) :=
  delivered.reverse.find? fun event => decide (event.sequence = sequence)

/-- The map from the delivered sequences to the last versions, in the order of the sequences. -/
def sortedEvents (delivered : List (Event P)) : List (Event P) :=
  ((delivered.map ManagedAgentEvent.sequence).toFinset.sort (· ≤ ·)).filterMap (latest? delivered)

/-- The events with the highest sequences. -/
def transcriptWindow (limit : ℕ) (delivered : List (Event P)) : List (Event P) :=
  lastOf limit (sortedEvents delivered)

/-! ### The search -/

section Search
variable {events : List (Event P)} {sequence low high : ℕ}

abbrev Ordered (events : List (Event P)) : Prop := Increasing ManagedAgentEvent.sequence events

/-- The search ends at the number of events below the sequence. -/
theorem searchBetween_eq (h : Ordered events)
    (hlow : low ≤ (below ManagedAgentEvent.sequence sequence events).length)
    (hhigh : (below ManagedAgentEvent.sequence sequence events).length ≤ high)
    (hlength : high ≤ events.length) :
    searchBetween events sequence low high =
      (below ManagedAgentEvent.sequence sequence events).length := by
  induction low, high using searchBetween.induct events sequence with
  | case1 low high hlt middle hbefore ih =>
    have hmiddle : middle < events.length := by omega
    have hget := List.getElem?_eq_getElem hmiddle
    rw [hget, Option.any_some, decide_eq_true_eq, h.below_iff hget] at hbefore
    rw [searchBetween, dif_pos hlt]
    simp only [middle] at hget hbefore ih ⊢
    rw [hget, Option.any_some, if_pos (by simpa using (h.below_iff hget).mpr hbefore)]
    exact ih hbefore hhigh hlength
  | case2 low high hlt middle hbefore ih =>
    have hmiddle : middle < events.length := by omega
    have hget := List.getElem?_eq_getElem hmiddle
    rw [hget, Option.any_some, decide_eq_true_eq, h.below_iff hget] at hbefore
    rw [searchBetween, dif_pos hlt]
    simp only [middle] at hget hbefore ih ⊢
    rw [hget, Option.any_some, if_neg (by simpa using (h.below_iff hget).not.mpr hbefore)]
    exact ih hlow (Nat.le_of_not_lt hbefore) (by omega)
  | case3 low high hlt =>
    rw [searchBetween, dif_neg hlt]
    omega

theorem binarySearchSequence_eq (h : Ordered events) : binarySearchSequence events sequence =
    (below ManagedAgentEvent.sequence sequence events).length :=
  searchBetween_eq h (Nat.zero_le _) (List.length_filter_le _ _) le_rfl

end Search

/-! ### One event -/

section Merge
variable {limit : ℕ} {next : List (Event P)} {event : Event P}

theorem trimEvents_eq : trimEvents limit next = lastOf limit next := by
  unfold trimEvents
  split
  next => rfl
  next hshort => rw [lastOf_of_le (Nat.le_of_not_lt hshort)]

/-- The loop puts the event in its place and keeps the last events. -/
theorem mergeEvent_eq [DecidableEq P] (h : Ordered next) (hlimit : next.length ≤ limit) :
    mergeEvent limit next event = lastOf limit (upsert ManagedAgentEvent.sequence event next) := by
  unfold mergeEvent
  split
  next hlast =>
    have hbelow : ∀ other ∈ next, other.sequence < event.sequence := by
      rcases List.eq_nil_or_concat' next with rfl | ⟨init, last, rfl⟩
      · exact fun other hother => absurd hother List.not_mem_nil
      · have hlt : last.sequence < event.sequence := by simpa using hlast
        have hcross := (List.pairwise_append.mp h).2.2
        intro other hother
        rcases List.mem_append.mp hother with hother | hother
        · exact (hcross other hother last (List.mem_singleton_self last)).trans hlt
        · rwa [List.mem_singleton.mp hother]
    rw [trimEvents_eq, upsert_last hbelow]
  next =>
    have hput : upsert ManagedAgentEvent.sequence event next =
        below ManagedAgentEvent.sequence event.sequence next ++ event ::
          above ManagedAgentEvent.sequence event.sequence next := rfl
    have hhigher : ∀ other ∈ above ManagedAgentEvent.sequence event.sequence next,
        other.sequence ≠ event.sequence := fun other hother => by
      have hlt : event.sequence < other.sequence := by simpa using (List.mem_filter.mp hother).2
      exact hlt.ne'
    have hcases := h.cases_at event.sequence
    simp only [binarySearchSequence_eq h, insertEvent, trimEvents_eq, hput]
    generalize below ManagedAgentEvent.sequence event.sequence next = lower at hcases hput ⊢
    generalize above ManagedAgentEvent.sequence event.sequence next = higher at hcases hhigher hput ⊢
    rcases hcases with rfl | ⟨found, hsame, rfl⟩
    · -- No event has the sequence.
      rw [List.take_left, List.drop_left]
      cases higher with
      | nil => simp
      | cons other higher =>
        have hne := hhigher other List.mem_cons_self
        simp [hne]
    · have hget : (lower ++ found :: higher)[lower.length]? = some found := by simp
      have hset : (lower ++ found :: higher).set lower.length event = lower ++ event :: higher := by
        simp
      simp only [hget, hset, hsame, ne_eq, not_true_eq_false, if_false]
      split
      next heq => rw [← heq, lastOf_of_le hlimit]
      next => rfl

end Merge

/-! ### All deliveries -/

section Window
variable {delivered : List (Event P)} {event other : Event P} {sequence limit : ℕ}

theorem latest?_concat : latest? (delivered ++ [event]) sequence =
    if event.sequence = sequence then some event else latest? delivered sequence := by
  by_cases h : event.sequence = sequence <;> simp [latest?, h]

theorem latest?_some (h : latest? delivered sequence = some event) :
    event ∈ delivered ∧ event.sequence = sequence := by
  refine ⟨?_, by simpa using List.find?_some h⟩
  exact List.mem_reverse.mp (List.mem_of_find?_eq_some h)

theorem mem_sortedEvents :
    event ∈ sortedEvents delivered ↔ latest? delivered event.sequence = some event := by
  simp only [sortedEvents, List.mem_filterMap, Finset.mem_sort, List.mem_toFinset, List.mem_map]
  constructor
  · rintro ⟨sequence, -, hlatest⟩
    rwa [(latest?_some hlatest).2]
  · intro hlatest
    exact ⟨event.sequence, ⟨event, (latest?_some hlatest).1, rfl⟩, hlatest⟩

theorem ordered_sortedEvents (delivered : List (Event P)) : Ordered (sortedEvents delivered) := by
  refine List.Pairwise.filterMap _ (fun m n hlt a ha b hb => ?_) (Finset.sortedLT_sort _).pairwise
  rwa [(latest?_some ha).2, (latest?_some hb).2]

/-- A delivery replaces the version before it. -/
theorem sortedEvents_concat : sortedEvents (delivered ++ [event]) =
    upsert ManagedAgentEvent.sequence event (sortedEvents delivered) := by
  refine Increasing.ext (ordered_sortedEvents _) ((ordered_sortedEvents delivered).upsert event)
    fun other => ?_
  rw [mem_sortedEvents, latest?_concat, mem_upsert, mem_sortedEvents]
  by_cases hsame : event.sequence = other.sequence
  · rw [if_pos hsame, Option.some.injEq]
    constructor
    · exact fun heq => .inl heq.symm
    · rintro (rfl | ⟨-, hne⟩)
      · rfl
      · exact absurd hsame.symm hne
  · rw [if_neg hsame]
    constructor
    · exact fun hlatest => .inr ⟨hlatest, fun heq => hsame heq.symm⟩
    · rintro (rfl | ⟨hlatest, -⟩)
      · exact absurd rfl hsame
      · exact hlatest

variable [DecidableEq P]

theorem foldl_mergeEvent : delivered.foldl (mergeEvent limit) [] = transcriptWindow limit delivered := by
  induction delivered using List.reverseRecOn with
  | nil => simp [transcriptWindow, sortedEvents, lastOf]
  | append_singleton delivered event ih =>
    rw [List.foldl_append, ih, List.foldl_cons, List.foldl_nil, mergeEvent_eq]
    · rw [transcriptWindow, transcriptWindow, sortedEvents_concat,
        lastOf_upsert (ordered_sortedEvents delivered)]
    · exact (ordered_sortedEvents delivered).lastOf limit
    · rw [transcriptWindow, length_lastOf]
      exact min_le_left _ _

/-- Whatever batches arrive, in whatever order and however often, the window has increasing sequences
and is the tail of the map of the last versions delivered. -/
theorem mergeTranscriptEvents_eq (limit : ℕ) (batches : List (List (Event P))) :
    let window := batches.foldl (mergeTranscriptEvents limit) []
    Increasing ManagedAgentEvent.sequence window ∧
      window = transcriptWindow limit batches.flatten := by
  have hwindow : batches.foldl (mergeTranscriptEvents limit) [] =
      transcriptWindow limit batches.flatten := by
    rw [← foldl_mergeEvent, List.foldl_flatten]
    rfl
  refine ⟨?_, hwindow⟩
  rw [hwindow]
  exact (ordered_sortedEvents _).lastOf limit

end Window
end PiDeck.Agents.Transcript
