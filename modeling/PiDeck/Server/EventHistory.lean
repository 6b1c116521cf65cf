import Mathlib
import PiDeck.Server.EventHub

/-! The retained history of the event hub, which a reconnect replays from. It is bounded in events
and in bytes and drops its oldest events; events of some channels and terminal output take a
sequence and are not retained. -/
namespace PiDeck.Server

def isEphemeral (channel : String) : Bool :=
  channel = "terminal:semantic" || channel = "security:device-revoked"

/-- `usize` and `u64` additions that saturate. -/
def saturatingAdd (a b : ℕ) : ℕ := min (a + b) (2 ^ 64 - 1)

/-- What an argument adds to the size of its event: a text its bytes, another value its encoding's. -/
def EventArgument.bytes : EventArgument → ℕ
  | .string value => value.utf8ByteSize
  | .other json => json.utf8ByteSize

def estimateEventBytes (event : HostEvent) : ℕ :=
  event.args.foldl (fun bytes argument => saturatingAdd bytes argument.bytes)
    (64 + event.channel.utf8ByteSize)

structure RetainedEvent where
  event : HostEvent
  bytes : ℕ
  deriving DecidableEq

structure EventLimits where
  capacity : ℕ
  maxHistoryBytes : ℕ

structure EventState where
  sequence : ℕ
  history : List RetainedEvent
  historyBytes : ℕ
  historyDroppedThrough : ℕ
  deriving DecidableEq

structure ReplayWindow where
  events : List HostEvent
  replayFloor : ℕ
  lastSequence : ℕ
  historyEvicted : Bool
  deriving DecidableEq

namespace EventState

def initial : EventState :=
  { sequence := 0
    history := []
    historyBytes := 0
    historyDroppedThrough := 0 }

/-- The loop that drops the oldest events while there are too many or too large ones. -/
def evict (limits : EventLimits) : List RetainedEvent → ℕ → ℕ → List RetainedEvent × ℕ × ℕ
  | [], bytes, droppedThrough => ([], bytes, droppedThrough)
  | dropped :: history, bytes, droppedThrough =>
    if limits.capacity < history.length + 1 ∨ limits.maxHistoryBytes < bytes then
      evict limits history (bytes - dropped.bytes) (max droppedThrough dropped.event.sequence)
    else (dropped :: history, bytes, droppedThrough)

def retain (limits : EventLimits) (state : EventState) (event : HostEvent) : EventState :=
  let bytes := estimateEventBytes event
  let kept := evict limits (state.history ++ [⟨event, bytes⟩])
    (saturatingAdd state.historyBytes bytes) state.historyDroppedThrough
  { state with
    history := kept.1
    historyBytes := kept.2.1
    historyDroppedThrough := kept.2.2 }

def emit (limits : EventLimits) (state : EventState) (channel : String)
    (args : List EventArgument) : EventState × HostEvent :=
  let advanced := { state with sequence := saturatingAdd state.sequence 1 }
  let event : HostEvent := ⟨advanced.sequence, channel, args⟩
  (if isEphemeral channel then advanced else advanced.retain limits event, event)

def emitTerminal (state : EventState) : EventState :=
  { state with sequence := saturatingAdd state.sequence 1 }

def replayWindow (state : EventState) (since : ℕ) : ReplayWindow :=
  let oldest := state.history.head?.map (·.event.sequence)
  { events := (state.history.filter fun retained =>
      decide (since < retained.event.sequence)).map (·.event)
    replayFloor := oldest.getD (saturatingAdd state.sequence 1)
    lastSequence := state.sequence
    historyEvicted := decide (0 < since) && match oldest with
      | none => decide (since < state.historyDroppedThrough)
      | some oldest => decide (since < oldest - 1) }

end EventState

inductive HubCall
  | emit (channel : String) (args : List EventArgument)
  | emitTerminal

/-- One call, on the state and on the record of all events emitted so far. -/
def EventState.call (limits : EventLimits) (ran : EventState × List HostEvent) :
    HubCall → EventState × List HostEvent
  | .emit channel args =>
    let emitted := ran.1.emit limits channel args
    (emitted.1, ran.2 ++ [emitted.2])
  | .emitTerminal => (ran.1.emitTerminal, ran.2)

def EventState.run (limits : EventLimits) (calls : List HubCall) : EventState × List HostEvent :=
  calls.foldl (EventState.call limits) (.initial, [])

/-! ### What is retained -/

/-- The events that a replay after `since` stands for. -/
def replayed (since : ℕ) (emitted : List HostEvent) : List HostEvent :=
  emitted.filter fun event => !isEphemeral event.channel && decide (since < event.sequence)

namespace EventState
variable {limits : EventLimits} {state : EventState} {emitted : List HostEvent}

/-- The loop drops some events from the front and keeps the rest, and it records the newest of those
that it dropped. -/
theorem evict_eq (limits : EventLimits) (history : List RetainedEvent) (bytes droppedThrough : ℕ) :
    ∃ dropped, history = dropped ++ (evict limits history bytes droppedThrough).1 ∧
      droppedThrough ≤ (evict limits history bytes droppedThrough).2.2 ∧
      (∀ retained ∈ dropped,
        retained.event.sequence ≤ (evict limits history bytes droppedThrough).2.2) ∧
      ((evict limits history bytes droppedThrough).2.2 = droppedThrough ∨
        ∃ retained ∈ dropped,
          (evict limits history bytes droppedThrough).2.2 = retained.event.sequence) := by
  induction history generalizing bytes droppedThrough with
  | nil => exact ⟨[], rfl, le_refl _, fun _ h => absurd h List.not_mem_nil, .inl rfl⟩
  | cons first history ih =>
    rw [evict]
    split
    · obtain ⟨dropped, heq, hle, hall, hlast⟩ :=
        ih (bytes - first.bytes) (max droppedThrough first.event.sequence)
      refine ⟨first :: dropped, ?_, (le_max_left _ _).trans hle, ?_, ?_⟩
      · rw [List.cons_append, ← heq]
      · rw [List.forall_mem_cons]
        exact ⟨(le_max_right _ _).trans hle, hall⟩
      · obtain hsame | ⟨retained, hmem, hlast⟩ := hlast
        · rw [hsame]
          obtain h | h := max_choice droppedThrough first.event.sequence
          · exact .inl h
          · exact .inr ⟨first, List.mem_cons_self, h⟩
        · exact .inr ⟨retained, List.mem_cons_of_mem _ hmem, hlast⟩
    · exact ⟨[], rfl, le_refl _, fun _ h => absurd h List.not_mem_nil, .inl rfl⟩

/-- What one event changes of the history: it is added at the end if it may be replayed, and some
events are dropped from the front. -/
theorem emit_history (limits : EventLimits) (state : EventState) (channel : String)
    (args : List EventArgument) : ∃ dropped,
      state.history.map (·.event) ++ [(state.emit limits channel args).2].filter
          (fun event => !isEphemeral event.channel) =
        dropped ++ (state.emit limits channel args).1.history.map (·.event) ∧
      state.historyDroppedThrough ≤ (state.emit limits channel args).1.historyDroppedThrough ∧
      (∀ event ∈ dropped,
        event.sequence ≤ (state.emit limits channel args).1.historyDroppedThrough) ∧
      ((state.emit limits channel args).1.historyDroppedThrough = state.historyDroppedThrough ∨
        ∃ event ∈ dropped,
          (state.emit limits channel args).1.historyDroppedThrough = event.sequence) := by
  by_cases hephemeral : isEphemeral channel = true
  · refine ⟨[], ?_, ?_, nofun, .inl ?_⟩ <;> simp [EventState.emit, hephemeral]
  · have hevent : (state.emit limits channel args).2 =
        ⟨saturatingAdd state.sequence 1, channel, args⟩ := rfl
    rw [hevent]
    generalize hnew : (⟨saturatingAdd state.sequence 1, channel, args⟩ : HostEvent) = new
    obtain ⟨dropped, hkept, hle, hall, hlast⟩ := evict_eq limits
      (state.history ++ [⟨new, estimateEventBytes new⟩])
      (saturatingAdd state.historyBytes (estimateEventBytes new)) state.historyDroppedThrough
    have hran : (state.emit limits channel args).1 =
        EventState.retain limits { state with sequence := saturatingAdd state.sequence 1 } new := by
      simp only [EventState.emit, if_neg hephemeral, hnew]
    have hreplayed : [new].filter (fun event => !isEphemeral event.channel) = [new] := by
      rw [← hnew]
      simp [hephemeral]
    rw [hran, hreplayed]
    refine ⟨dropped.map (·.event), ?_, hle, ?_, ?_⟩
    · have hevents := congrArg (List.map (·.event)) hkept
      simp only [List.map_append, List.map_cons, List.map_nil] at hevents
      exact hevents
    · intro event hmem
      obtain ⟨retained, hretained, rfl⟩ := List.mem_map.mp hmem
      exact hall retained hretained
    · obtain hsame | ⟨retained, hmem, hlast⟩ := hlast
      · exact .inl hsame
      · exact .inr ⟨retained.event, List.mem_map_of_mem hmem, hlast⟩

/-- What the state keeps of the events emitted so far, as long as every event had a sequence of its
own: those that may be replayed are the dropped ones and then the retained ones. -/
structure Keeps (state : EventState) (emitted : List HostEvent) : Prop where
  increasing : emitted.Pairwise fun a b => a.sequence < b.sequence
  bounded : ∀ event ∈ emitted, event.sequence ≤ state.sequence
  dropped : ∃ dropped, emitted.filter (fun event => !isEphemeral event.channel) =
      dropped ++ state.history.map (·.event) ∧
    ∀ event ∈ dropped, event.sequence ≤ state.historyDroppedThrough

theorem keeps_initial : Keeps initial [] :=
  ⟨List.Pairwise.nil, fun _ h => absurd h List.not_mem_nil, [], rfl,
    fun _ h => absurd h List.not_mem_nil⟩

theorem Keeps.emitTerminal (h : state.Keeps emitted) (hroom : state.sequence < 2 ^ 64 - 1) :
    state.emitTerminal.Keeps emitted := by
  have hnext : state.emitTerminal.sequence = state.sequence + 1 := by
    simp only [EventState.emitTerminal, saturatingAdd]
    omega
  refine ⟨h.increasing, fun event hmem => ?_, h.dropped⟩
  have hold := h.bounded event hmem
  omega

theorem Keeps.emit (h : state.Keeps emitted) (hroom : state.sequence < 2 ^ 64 - 1)
    (channel : String) (args : List EventArgument) :
    (state.emit limits channel args).1.Keeps
      (emitted ++ [(state.emit limits channel args).2]) := by
  have hnext : saturatingAdd state.sequence 1 = state.sequence + 1 := by
    rw [saturatingAdd]
    omega
  have hevent : (state.emit limits channel args).2 = ⟨state.sequence + 1, channel, args⟩ := by
    simp only [EventState.emit, hnext]
  have hsequence : (state.emit limits channel args).1.sequence = state.sequence + 1 := by
    simp only [EventState.emit, hnext]
    split <;> rfl
  refine ⟨?_, ?_, ?_⟩
  · rw [List.pairwise_append]
    refine ⟨h.increasing, List.pairwise_singleton _ _, fun event hmem new hnew => ?_⟩
    rw [List.mem_singleton.mp hnew, hevent]
    exact Nat.lt_succ_of_le (h.bounded event hmem)
  · intro event hmem
    rw [hsequence]
    obtain hmem | hmem := List.mem_append.mp hmem
    · exact (h.bounded event hmem).trans (Nat.le_succ _)
    · rw [List.mem_singleton.mp hmem, hevent]
  · obtain ⟨dropped, hsplit, hdropped⟩ := h.dropped
    obtain ⟨more, hkept, hle, hmore, -⟩ := emit_history limits state channel args
    refine ⟨dropped ++ more, ?_, fun event hmem => ?_⟩
    · rw [List.filter_append, hsplit, List.append_assoc, hkept, List.append_assoc]
    · obtain hmem | hmem := List.mem_append.mp hmem
      · exact (hdropped event hmem).trans hle
      · exact hmore event hmem

/-- A window that reports no eviction lacks none of the events that it stands for. -/
theorem Keeps.replayWindow (h : state.Keeps emitted) {since : ℕ} (hsince : 0 < since)
    (hevicted : (state.replayWindow since).historyEvicted = false) :
    (state.replayWindow since).events = replayed since emitted := by
  obtain ⟨dropped, hsplit, hdropped⟩ := h.dropped
  have hold : ∀ event ∈ dropped, event.sequence ≤ since := by
    intro event hmem
    simp only [EventState.replayWindow, hsince, decide_true, Bool.true_and] at hevicted
    cases hhistory : state.history with
    | nil =>
      simp only [hhistory, List.head?_nil, Option.map_none, decide_eq_false_iff_not] at hevicted
      have hbound := hdropped event hmem
      omega
    | cons oldest history =>
      simp only [hhistory, List.head?_cons, Option.map_some, decide_eq_false_iff_not] at hevicted
      have hordered := h.increasing.sublist
        (List.filter_sublist (p := fun event => !isEphemeral event.channel))
      rw [hsplit, hhistory, List.map_cons, List.pairwise_append] at hordered
      have hbefore := hordered.2.2 event hmem oldest.event List.mem_cons_self
      omega
  have hnone : dropped.filter (fun event => decide (since < event.sequence)) = [] := by
    rw [List.filter_eq_nil_iff]
    intro event hmem
    simpa using hold event hmem
  have hreplayed : replayed since emitted =
      (emitted.filter fun event => !isEphemeral event.channel).filter
        fun event => decide (since < event.sequence) := by
    rw [replayed, List.filter_filter]
    exact List.filter_congr fun event _ => Bool.and_comm _ _
  rw [hreplayed, hsplit, List.filter_append, hnone, List.nil_append, List.filter_map]
  rfl

theorem sequence_call_le (limits : EventLimits) (ran : EventState × List HostEvent)
    (hubCall : HubCall) : (call limits ran hubCall).1.sequence ≤ ran.1.sequence + 1 := by
  have hnext : saturatingAdd ran.1.sequence 1 ≤ ran.1.sequence + 1 := min_le_left _ _
  cases hubCall with
  | emitTerminal => exact hnext
  | emit channel args =>
    simp only [call, EventState.emit]
    split <;> exact hnext

/-- A run of fewer than `2 ^ 64` calls keeps what may be replayed. -/
theorem keeps_run (limits : EventLimits) {calls : List HubCall} (hcalls : calls.length < 2 ^ 64) :
    (run limits calls).1.sequence ≤ calls.length ∧
      (run limits calls).1.Keeps (run limits calls).2 := by
  induction calls using List.reverseRecOn with
  | nil => exact ⟨Nat.zero_le _, keeps_initial⟩
  | append_singleton calls last ih =>
    rw [List.length_append, List.length_singleton] at hcalls
    obtain ⟨hsequence, hkeeps⟩ := ih (by omega)
    have hrun : run limits (calls ++ [last]) = call limits (run limits calls) last := by
      rw [run, List.foldl_append, List.foldl_cons, List.foldl_nil, ← run]
    have hroom : (run limits calls).1.sequence < 2 ^ 64 - 1 := by omega
    have hle := sequence_call_le limits (run limits calls) last
    rw [hrun, List.length_append, List.length_singleton]
    refine ⟨by omega, ?_⟩
    cases last with
    | emitTerminal => exact hkeeps.emitTerminal hroom
    | emit channel args => exact hkeeps.emit hroom channel args

/-- While fewer than `2 ^ 64` events have been emitted, a replay window after a cursor that reports
no eviction holds exactly the events past the cursor that may be replayed, in emission order. -/
theorem replay_window_exact (limits : EventLimits) {calls : List HubCall} {since : ℕ}
    (hcalls : calls.length < 2 ^ 64) (hsince : 0 < since)
    (hevicted : ((run limits calls).1.replayWindow since).historyEvicted = false) :
    ((run limits calls).1.replayWindow since).events = replayed since (run limits calls).2 ∧
      (run limits calls).2.Pairwise fun a b => a.sequence < b.sequence :=
  ⟨(keeps_run limits hcalls).2.replayWindow hsince hevicted, (keeps_run limits hcalls).2.increasing⟩

def someCalls : List HubCall :=
  [.emit "mux:event" [.string "first"], .emitTerminal, .emit "terminal:semantic" [],
    .emit "mux:event" [.string "second"], .emit "mux:event" [.string "third"]]

theorem replay_window_exact_of_some_calls :
    ((run ⟨2, 4096⟩ someCalls).1.replayWindow 3).historyEvicted = false ∧
      ((run ⟨2, 4096⟩ someCalls).1.replayWindow 3).events =
        replayed 3 (run ⟨2, 4096⟩ someCalls).2 ∧
      (replayed 3 (run ⟨2, 4096⟩ someCalls).2).length = 2 :=
  ⟨by decide +kernel,
    (replay_window_exact ⟨2, 4096⟩ (by decide) (by decide) (by decide +kernel)).1,
    by decide +kernel⟩

/-! ### Reported gaps -/

/-- The events that may be replayed and are no longer retained. -/
def evicted (state : EventState) (emitted : List HostEvent) : List HostEvent :=
  let replayable := emitted.filter fun event => !isEphemeral event.channel
  replayable.take (replayable.length - state.history.length)

/-- What the state keeps of the events emitted so far, also once the counter stands still. -/
structure Accounts (state : EventState) (emitted : List HostEvent) : Prop where
  room : state.sequence ≤ 2 ^ 64 - 1
  ordered : emitted.Pairwise fun a b => a.sequence ≤ b.sequence
  bounded : ∀ event ∈ emitted, event.sequence ≤ state.sequence
  split : emitted.filter (fun event => !isEphemeral event.channel) =
    state.evicted emitted ++ state.history.map (·.event)
  through : state.historyDroppedThrough = 0 ∨
    ∃ event ∈ state.evicted emitted, state.historyDroppedThrough = event.sequence

theorem evicted_eq {dropped : List HostEvent}
    (h : emitted.filter (fun event => !isEphemeral event.channel) =
      dropped ++ state.history.map (·.event)) : state.evicted emitted = dropped := by
  simp only [evicted, h, List.length_append, List.length_map, Nat.add_sub_cancel, List.take_left]

theorem saturatingAdd_one_le {sequence : ℕ} (h : sequence ≤ 2 ^ 64 - 1) :
    sequence ≤ saturatingAdd sequence 1 ∧ saturatingAdd sequence 1 ≤ 2 ^ 64 - 1 := by
  rw [saturatingAdd]
  omega

theorem Accounts.emitTerminal (h : state.Accounts emitted) :
    state.emitTerminal.Accounts emitted := by
  obtain ⟨hle, hroom⟩ := saturatingAdd_one_le h.room
  exact ⟨hroom, h.ordered, fun event hmem => (h.bounded event hmem).trans hle, h.split, h.through⟩

theorem Accounts.emit (h : state.Accounts emitted) (channel : String) (args : List EventArgument) :
    (state.emit limits channel args).1.Accounts
      (emitted ++ [(state.emit limits channel args).2]) := by
  obtain ⟨hle, hroom⟩ := saturatingAdd_one_le h.room
  have hsequence : (state.emit limits channel args).1.sequence = saturatingAdd state.sequence 1 := by
    simp only [EventState.emit]
    split <;> rfl
  obtain ⟨more, hkept, -, -, hlast⟩ := emit_history limits state channel args
  have hsplit : (emitted ++ [(state.emit limits channel args).2]).filter
      (fun event => !isEphemeral event.channel) =
        (state.evicted emitted ++ more) ++
          (state.emit limits channel args).1.history.map (·.event) := by
    rw [List.filter_append, h.split, List.append_assoc, hkept, List.append_assoc]
  refine ⟨hsequence ▸ hroom, ?_, ?_, ?_, ?_⟩
  · rw [List.pairwise_append]
    refine ⟨h.ordered, List.pairwise_singleton _ _, fun event hmem new hnew => ?_⟩
    rw [List.mem_singleton.mp hnew]
    exact (h.bounded event hmem).trans hle
  · intro event hmem
    rw [hsequence]
    obtain hmem | hmem := List.mem_append.mp hmem
    · exact (h.bounded event hmem).trans hle
    · rw [List.mem_singleton.mp hmem]
      exact le_refl _
  · rw [evicted_eq hsplit, hsplit]
  · rw [evicted_eq hsplit]
    obtain hsame | ⟨event, hmem, hevent⟩ := hlast
    · rw [hsame]
      exact h.through.imp_right fun ⟨event, hmem, hevent⟩ =>
        ⟨event, List.mem_append_left _ hmem, hevent⟩
    · exact .inr ⟨event, List.mem_append_right _ hmem, hevent⟩

theorem run_terminal (limits : EventLimits) (n : ℕ) :
    run limits (List.replicate n .emitTerminal) =
      ({ initial with sequence := min n (2 ^ 64 - 1) }, []) := by
  induction n with
  | zero => rfl
  | succ n ih =>
    have hnext : saturatingAdd (min n (2 ^ 64 - 1)) 1 = min (n + 1) (2 ^ 64 - 1) := by
      rw [saturatingAdd]
      omega
    rw [List.replicate_succ', run, List.foldl_append, ← run, ih, List.foldl_cons, List.foldl_nil]
    simp only [call, EventState.emitTerminal, hnext]

/-- Two events at the end of the counter. -/
theorem run_two_more (limits : EventLimits) {n : ℕ} (hn : n = 2 ^ 64 - 2) :
    run limits (List.replicate n .emitTerminal ++ [.emit "mux:event" [], .emit "mux:event" []]) =
      call limits (call limits ({ initial with sequence := 2 ^ 64 - 2 }, [])
        (.emit "mux:event" [])) (.emit "mux:event" []) := by
  have hmin : min n (2 ^ 64 - 1) = 2 ^ 64 - 2 := by omega
  rw [run, List.foldl_append, ← run, run_terminal, hmin]
  rfl

/-- Once the counter stands still, two events share a sequence, and a window that holds only the
second one of them reports no eviction. -/
theorem replay_window_short : ∃ calls,
    ((run ⟨1, 4096⟩ calls).1.replayWindow (2 ^ 64 - 2)).historyEvicted = false ∧
      ((run ⟨1, 4096⟩ calls).1.replayWindow (2 ^ 64 - 2)).events ≠
        replayed (2 ^ 64 - 2) (run ⟨1, 4096⟩ calls).2 := by
  obtain ⟨calls, hran⟩ : ∃ calls, run ⟨1, 4096⟩ calls = _ := ⟨_, run_two_more _ rfl⟩
  refine ⟨calls, ?_⟩
  rw [hran]
  decide +kernel

end EventState

/-! ### The hub's channel -/

def EventHub.call (hub : EventHub) : HubCall → EventHub
  | .emit channel args => hub.emit channel args
  | .emitTerminal => hub.emitTerminal

end PiDeck.Server
