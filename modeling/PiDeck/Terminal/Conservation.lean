import Mathlib
import PiDeck.Terminal.Responses

/-! The input lane of one terminal: the input of clients and the answers of the authority that were
queued, and what the PTY got of them. No byte of a client is lost, repeated or moved before another,
no chunk is interrupted, and the counter of the lane counts the bytes that wait. -/
namespace PiDeck.Terminal
open PiDeck.Reactor PiDeck.Transition

/-- The bytes of clients among those handed over. -/
def clientBytes (handed : List (Origin × UInt8)) : Bytes :=
  handed.filterMap fun byte => if byte.1 = .input then some byte.2 else none

/-- The bytes of clients that wait. -/
def InputQueue.client (queue : InputQueue) : Bytes :=
  queue.chunks.flatMap fun chunk => if chunk.origin = .input then chunk.data.drop chunk.offset else []

/-- How many bytes wait. -/
def InputQueue.waiting (queue : InputQueue) : ℕ :=
  (queue.chunks.map fun chunk => chunk.data.length - chunk.offset).sum

/-- The lane with what was accepted from clients, every chunk queued, and what the PTY got. -/
structure InputLane where
  queue : InputQueue
  outputOpen : Bool
  accepted : Bytes
  queued : List (Origin × Bytes)
  handed : List (Origin × UInt8)
  deriving DecidableEq, Repr

/-- A batch of writes, an answer of the authority (`ahead` to output, behind to a resize or a theme),
and a turn that finds the PTY writable. -/
inductive LaneAct
  | write (data : Bytes)
  | response (data : Bytes) (ahead : Bool)
  | flush (outcomes : List WriteOutcome)
  deriving DecidableEq, Repr

namespace InputLane

def fresh : InputLane := ⟨.empty, true, [], [], []⟩

/-- An empty batch queues nothing, and one for which there is no room is refused. An answer to output
that has no room ends the terminal. Once the output is closed nothing is read and nothing flushed. -/
def step (lane : InputLane) : LaneAct → Option InputLane
  | .write data =>
    if data = [] then some lane
    else match lane.queue.enqueue data .input false with
      | some queue => some { lane with
          queue := queue
          accepted := lane.accepted ++ data
          queued := lane.queued ++ [(.input, data)] }
      | none => some lane
  | .response data ahead =>
    if ahead && !lane.outputOpen then none
    else match lane.queue.enqueue data (.response lane.queued.length) ahead with
      | some queue => some { lane with
          queue := queue
          queued := lane.queued ++ [(.response lane.queued.length, data)] }
      | none => some { lane with outputOpen := lane.outputOpen && !ahead }
  | .flush outcomes =>
    if lane.outputOpen then
      (lane.queue.flush outcomes reactorWriteBudgetPerTurn).map fun flushed => { lane with
        queue := flushed.queue
        outputOpen := !flushed.failed
        handed := lane.handed ++ flushed.handed }
    else none

def machine : Machine InputLane LaneAct := ⟨step⟩

end InputLane

/-- What was queued splits into the chunks that the PTY got, each in one piece, at most one that it
got the beginning of, and those of which it got nothing. -/
def InPieces (handed : List (Origin × UInt8)) (queued : List (Origin × Bytes)) : Prop :=
  ∃ (done begun rest : List (Origin × Bytes)) (count : ℕ), (done ++ begun ++ rest).Perm queued ∧
    begun.length ≤ 1 ∧ handed = flat (done ++ begun.map fun piece => (piece.1, piece.2.take count))

/-- The chunks without their offsets. -/
def InputQueue.pieces (queue : InputQueue) : List (Origin × Bytes) :=
  queue.chunks.map fun chunk => (chunk.origin, chunk.data)

/-- Only the front chunk has been begun, and the counter is right. -/
structure InputQueue.Sound (queue : InputQueue) : Prop where
  begun : ∀ chunk ∈ queue.chunks.tail, chunk.offset = 0
  counted : queue.bytes = queue.waiting
  capped : queue.bytes ≤ maxPendingInputBytesPerTerminal

/-- What was handed over is whole chunks and the part of the front one, and the bytes of clients
handed over and waiting are those accepted. -/
structure InputQueue.Flows (queue : InputQueue) (queued : List (Origin × Bytes)) (accepted : Bytes)
    (handed : List (Origin × UInt8)) : Prop where
  pieces : ∃ done, handed = flat (done ++ queue.front) ∧ (done ++ queue.pieces).Perm queued
  client : accepted = clientBytes handed ++ queue.client

section Flow
variable {queue queue' : InputQueue} {queued : List (Origin × Bytes)} {accepted : Bytes}
  {handed : List (Origin × UInt8)} {data : Bytes} {origin : Origin}
  {outcomes : List WriteOutcome} {budget : ℕ} {flushed : Flushed}

@[simp] theorem clientBytes_append (before after : List (Origin × UInt8)) :
    clientBytes (before ++ after) = clientBytes before ++ clientBytes after := List.filterMap_append

theorem clientBytes_mark (origin : Origin) (data : Bytes) :
    clientBytes (mark origin data) = if origin = .input then data else [] := by
  rw [clientBytes, mark, List.filterMap_map]
  split_ifs with horigin
  · simp [horigin]
  · simp [horigin]

theorem InPieces.mono (h : InPieces handed queued) (more : List (Origin × Bytes)) :
    InPieces handed (queued ++ more) := by
  obtain ⟨done, begun, rest, count, hperm, hone, hhanded⟩ := h
  refine ⟨done, begun, rest ++ more, count, ?_, hone, hhanded⟩
  rw [← List.append_assoc]
  exact hperm.append_right more

theorem InputQueue.Flows.inPieces (h : queue.Flows queued accepted handed) :
    InPieces handed queued := by
  obtain ⟨done, hhanded, hperm⟩ := h.pieces
  rw [hhanded]
  cases hq : queue.chunks with
  | nil => exact ⟨done, [], [], 0, by simpa [InputQueue.pieces, hq] using hperm, Nat.zero_le _,
      by simp [InputQueue.front, hq]⟩
  | cons front rest =>
    refine ⟨done, [(front.origin, front.data)], rest.map fun chunk => (chunk.origin, chunk.data),
      front.offset, ?_, le_rfl, by simp [InputQueue.front, hq]⟩
    simpa [InputQueue.pieces, hq] using hperm

theorem InputQueue.Flows.accepted_prefix (h : queue.Flows queued accepted handed) :
    clientBytes handed <+: accepted := ⟨queue.client, h.client.symm⟩

/-! ### Queueing -/

/-- The chunks before and after the one that is queued. -/
theorem enqueue_split {authorityResponse : Bool}
    (h : queue.enqueue data origin authorityResponse = some queue') :
    ∃ before after, queue.chunks = before ++ after ∧
      queue'.chunks = before ++ ⟨data, 0, origin⟩ :: after ∧
      (before = [] → ∀ chunk ∈ after.head?, chunk.offset = 0) := by
  cases authorityResponse with
  | false => exact ⟨queue.chunks, [], by simp, InputQueue.enqueue_input h, fun _ => by simp⟩
  | true =>
    refine ⟨queue.begun, queue.notBegun, queue.begun_append_notBegun.symm,
      InputQueue.enqueue_response h, fun hnone chunk hchunk => ?_⟩
    -- If none has been begun, the front is not begun.
    cases hq : queue.chunks with
    | nil => simp [InputQueue.notBegun, hq] at hchunk
    | cons front rest =>
      by_cases hoffset : 0 < front.offset
      · simp [InputQueue.begun, hq, hoffset] at hnone
      · obtain rfl : front = chunk := by simpa [InputQueue.notBegun, hq, hoffset] using hchunk
        exact Nat.eq_zero_of_not_pos hoffset

theorem InputQueue.Sound.enqueue {authorityResponse : Bool} (h : queue.Sound)
    (hqueue : queue.enqueue data origin authorityResponse = some queue') :
    queue'.Sound := by
  obtain ⟨hfits, hbytes⟩ := InputQueue.enqueue_bytes hqueue
  obtain ⟨before, after, hchunks, hchunks', hfront⟩ := enqueue_split hqueue
  have htail := h.begun
  rw [hchunks] at htail
  refine ⟨?_, ?_, ?_⟩
  · intro chunk hchunk
    rw [hchunks'] at hchunk
    cases before with
    | nil =>
      cases after with
      | nil => cases hchunk
      | cons next after =>
        obtain rfl | hrest := List.mem_cons.mp hchunk
        · exact hfront rfl chunk rfl
        · exact htail chunk hrest
    | cons front before =>
      rw [List.cons_append, List.tail_cons, List.mem_append, List.mem_cons] at hchunk
      obtain hbefore | rfl | hafter := hchunk
      · exact htail chunk (List.mem_append_left _ hbefore)
      · rfl
      · exact htail chunk (List.mem_append_right _ hafter)
  · have hcounted := h.counted
    rw [InputQueue.waiting, hchunks, List.map_append, List.sum_append] at hcounted
    rw [hbytes, InputQueue.waiting, hchunks', List.map_append, List.map_cons, List.sum_append,
      List.sum_cons]
    dsimp only
    omega
  · rw [hbytes]
    simpa [InputQueue.fits] using hfits

theorem InputQueue.Flows.enqueue {authorityResponse : Bool} (h : queue.Flows queued accepted handed)
    (hqueue : queue.enqueue data origin authorityResponse = some queue') (hlast : origin = .input →
      authorityResponse = false) : queue'.Flows (queued ++ [(origin, data)])
        (accepted ++ if origin = .input then data else []) handed := by
  obtain ⟨before, after, hchunks, hchunks', hfront⟩ := enqueue_split hqueue
  constructor
  · obtain ⟨done, hhanded, hperm⟩ := h.pieces
    have hpieces : (done ++ queue'.pieces).Perm (queued ++ [(origin, data)]) := by
      rw [InputQueue.pieces, hchunks, List.map_append, ← List.append_assoc] at hperm
      rw [InputQueue.pieces, hchunks', List.map_append, List.map_cons, ← List.append_assoc]
      have hcons := List.perm_middle.trans (hperm.cons (origin, data))
      exact hcons.trans (List.perm_append_singleton _ _).symm
    refine ⟨done, ?_, hpieces⟩
    -- The front stays, or nothing of the old and of the new one has been handed over.
    rw [hhanded]
    cases before with
    | cons front before => simp [InputQueue.front, hchunks, hchunks']
    | nil =>
      cases after with
      | nil => simp [InputQueue.front, hchunks, hchunks', flat, mark]
      | cons next after =>
        have hnext : next.offset = 0 := hfront rfl next rfl
        simp [InputQueue.front, hchunks, hchunks', flat, mark, hnext]
  · rw [h.client, InputQueue.client, InputQueue.client, hchunks, hchunks', List.append_assoc]
    congr 1
    by_cases horigin : origin = .input
    · -- The input of a client goes to the end.
      obtain rfl := hlast horigin
      have hend := InputQueue.enqueue_input hqueue
      rw [← hchunks, ← hchunks', hend, List.flatMap_append]
      simp [horigin]
    · simp [horigin]

/-! ### Flushing -/

theorem InputQueue.Sound.wrote {front : Chunk} {rest : List Chunk} {count : ℕ}
    (h : queue.Sound) (hq : queue.chunks = front :: rest)
    (hcount : count ≤ front.data.length - front.offset) :
    (⟨if front.offset + count = front.data.length then rest
        else { front with offset := front.offset + count } :: rest,
      queue.bytes - count⟩ : InputQueue).Sound := by
  have htail : ∀ chunk ∈ rest, chunk.offset = 0 := by simpa [hq] using h.begun
  have hcounted := h.counted
  have hcapped := h.capped
  rw [InputQueue.waiting, hq, List.map_cons, List.sum_cons] at hcounted
  by_cases hwhole : front.offset + count = front.data.length
  · rw [if_pos hwhole]
    refine ⟨fun chunk hchunk => htail chunk (List.mem_of_mem_tail hchunk), ?_, ?_⟩
    · change queue.bytes - count = (rest.map _).sum
      omega
    · exact (Nat.sub_le _ _).trans hcapped
  · rw [if_neg hwhole]
    refine ⟨htail, ?_, (Nat.sub_le _ _).trans hcapped⟩
    rw [InputQueue.waiting, List.map_cons, List.sum_cons]
    dsimp only
    omega

theorem InputQueue.Flows.wrote {front : Chunk} {rest : List Chunk} {count : ℕ} (bytes : ℕ)
    (h : queue.Flows queued accepted handed) (hsound : queue.Sound)
    (hq : queue.chunks = front :: rest) :
    (⟨if front.offset + count = front.data.length then rest
        else { front with offset := front.offset + count } :: rest, bytes⟩ : InputQueue).Flows queued
      accepted (handed ++ mark front.origin ((front.data.drop front.offset).take count)) := by
  have htail : ∀ chunk ∈ rest, chunk.offset = 0 := by simpa [hq] using hsound.begun
  constructor
  · obtain ⟨done, hhanded, hperm⟩ := h.pieces
    rw [InputQueue.pieces, hq, List.map_cons] at hperm
    have hbytes := flat_wrote count hhanded hq
    rw [hbytes]
    by_cases hwhole : front.offset + count = front.data.length
    · refine ⟨done ++ [(front.origin, front.data)], ?_, ?_⟩
      · rw [if_pos hwhole, hwhole, List.take_length]
        exact (flat_front htail).symm
      · rw [if_pos hwhole, List.append_assoc]
        exact hperm
    · rw [if_neg hwhole]
      exact ⟨done, rfl, hperm⟩
  · have hclient := h.client
    rw [InputQueue.client, hq, List.flatMap_cons] at hclient
    rw [hclient, clientBytes_append, clientBytes_mark, List.append_assoc]
    congr 1
    have hrest : (front.data.drop front.offset).take count ++ front.data.drop (front.offset + count) =
        front.data.drop front.offset := by
      rw [← List.drop_drop]
      exact List.take_append_drop _ _
    by_cases hwhole : front.offset + count = front.data.length
    · rw [if_pos hwhole]
      have hnone : front.data.drop (front.offset + count) = [] := by rw [hwhole, List.drop_length]
      rw [hnone, List.append_nil] at hrest
      rw [hrest]
      rfl
    · rw [if_neg hwhole, InputQueue.client, List.flatMap_cons, ← List.append_assoc]
      congr 1
      split_ifs with horigin
      · exact hrest.symm
      · rfl

/-- A flush reaches a queue that is sound, and leaves it unless a write fails. -/
theorem flush_flows (hsound : queue.Sound) (hflows : queue.Flows queued accepted handed)
    (hflush : queue.flush outcomes budget = some flushed) : ∃ reached : InputQueue,
      reached.Sound ∧ reached.Flows queued accepted (handed ++ flushed.handed) ∧
      flushed.queue = if flushed.failed then .empty else reached := by
  obtain ⟨reached, ⟨hreached, hreachedFlows⟩, hqueue⟩ := InputQueue.flush_invariant
    (fun queue handed => queue.Sound ∧ queue.Flows queued accepted handed)
    (fun queue handed front rest count hq hcount ⟨hsound, hflows⟩ =>
      ⟨hsound.wrote hq hcount, hflows.wrote (queue.bytes - count) hsound hq⟩)
    ⟨hsound, hflows⟩ hflush
  exact ⟨reached, hreached, hreachedFlows, hqueue⟩

end Flow

namespace InputLane
variable {lane next : InputLane} {act : LaneAct}

/-- What holds of a lane at all times; while the output is open, nothing that was accepted is lost. -/
structure Conserved (lane : InputLane) : Prop where
  client : clientBytes lane.handed <+: lane.accepted
  pieces : InPieces lane.handed lane.queued
  sound : lane.queue.Sound
  flows : lane.outputOpen = true → lane.queue.Flows lane.queued lane.accepted lane.handed

theorem conserved_fresh : fresh.Conserved where
  client := List.prefix_rfl
  pieces := ⟨[], [], [], 0, .refl _, Nat.zero_le _, rfl⟩
  sound := ⟨nofun, rfl, Nat.zero_le _⟩
  flows _ := ⟨⟨[], rfl, .refl _⟩, rfl⟩

theorem Conserved.enqueue {data : Bytes} {origin : Origin} {ahead : Bool} {queue : InputQueue}
    (h : lane.Conserved) (horigin : origin = .input → ahead = false)
    (hqueue : lane.queue.enqueue data origin ahead = some queue) : Conserved { lane with
      queue := queue
      accepted := lane.accepted ++ if origin = .input then data else []
      queued := lane.queued ++ [(origin, data)] } where
  client := h.client.trans (List.prefix_append _ _)
  pieces := h.pieces.mono _
  sound := h.sound.enqueue hqueue
  flows hopen := (h.flows hopen).enqueue hqueue horigin

theorem Conserved.step (h : lane.Conserved) (hstep : lane.step act = some next) : next.Conserved := by
  cases act with
  | write data =>
    simp only [InputLane.step] at hstep
    split at hstep
    · cases hstep
      exact h
    · split at hstep
      · rename_i queue hqueue
        cases hstep
        exact h.enqueue (fun _ => rfl) hqueue
      · cases hstep
        exact h
  | response data ahead =>
    simp only [InputLane.step] at hstep
    split at hstep
    · cases hstep
    · split at hstep
      · rename_i queue hqueue
        cases hstep
        have hconserved := h.enqueue (by simp) hqueue
        simp only [reduceCtorEq, if_false, List.append_nil] at hconserved
        exact hconserved
      · cases hstep
        refine ⟨h.client, h.pieces, h.sound, fun hopen => h.flows ?_⟩
        exact (Bool.and_eq_true_iff.mp hopen).1
  | flush outcomes =>
    simp only [InputLane.step] at hstep
    split at hstep
    · rename_i hopen
      obtain ⟨flushed, hflushed, rfl⟩ := Option.map_eq_some_iff.mp hstep
      obtain ⟨reached, hreached, hflows, hqueue⟩ := flush_flows h.sound (h.flows hopen) hflushed
      refine ⟨hflows.accepted_prefix, hflows.inPieces, ?_, ?_⟩
      · dsimp only
        rw [hqueue]
        split_ifs
        · exact ⟨nofun, rfl, Nat.zero_le _⟩
        · exact hreached
      · intro hstill
        have hfailed : flushed.failed = false := by simpa using hstill
        dsimp only
        rw [hqueue, hfailed]
        exact hflows
    · cases hstep

theorem Conserved.run {acts : List LaneAct} (h : machine.Run fresh acts lane) : lane.Conserved :=
  h.invariant (I := Conserved) (fun _ _ _ hlane _ hstep => hlane.step hstep) conserved_fresh

/-- After every run, the bytes of clients that the PTY got are the first ones accepted, in order,
with the rest waiting as long as the output is open; the PTY got whole chunks and the beginning of at
most one; and the counter counts the bytes that wait and keeps below the cap. -/
theorem input_conserved {acts : List LaneAct} (h : machine.Run fresh acts lane) :
    clientBytes lane.handed <+: lane.accepted ∧
    (lane.outputOpen = true → lane.accepted = clientBytes lane.handed ++ lane.queue.client) ∧
    InPieces lane.handed lane.queued ∧ lane.queue.bytes = lane.queue.waiting ∧
    lane.queue.bytes ≤ maxPendingInputBytesPerTerminal := by
  have hconserved := Conserved.run h
  exact ⟨hconserved.client, fun hopen => (hconserved.flows hopen).client, hconserved.pieces,
    hconserved.sound.counted, hconserved.sound.capped⟩

/-- A response that comes while a write of a client is handed over. -/
def responseBetween : List LaneAct :=
  [.write [1, 2, 3], .flush [.wrote 2, .interrupted, .wouldBlock], .write [4], .response [9] true,
    .flush [.wrote 1, .wrote 1, .wrote 1]]

theorem input_conserved_between : ∃ lane, machine.Run fresh responseBetween lane ∧
    lane.handed = [(.input, 1), (.input, 2), (.input, 3), (.response 2, 9), (.input, 4)] ∧
    clientBytes lane.handed <+: lane.accepted := by
  have hrun : ∃ lane, machine.Run fresh responseBetween lane ∧
      lane.handed = [(.input, 1), (.input, 2), (.input, 3), (.response 2, 9), (.input, 4)] :=
    ⟨_, .cons trivial rfl (.cons trivial rfl (.cons trivial rfl (.cons trivial rfl
      (.cons trivial rfl (.nil _))))), rfl⟩
  obtain ⟨lane, hrun, hhanded⟩ := hrun
  exact ⟨lane, hrun, hhanded, (input_conserved hrun).1⟩

/-! ### The reactor -/

/-- What the reactor does to a terminal for an act of the lane. -/
def reactorStep (runtime : Reactor.TerminalRuntime) : LaneAct → Option Reactor.TerminalRuntime
  | .write data =>
    if data = [] then some runtime else some ((runtime.enqueuePendingInput data false).getD runtime)
  | .response data ahead =>
    if ahead && !runtime.outputOpen then none
    else some ((runtime.enqueuePendingInput data ahead).getD
      { runtime with outputOpen := runtime.outputOpen && !ahead })
  | .flush outcomes =>
    if runtime.outputOpen then
      Reactor.TerminalRuntime.flushRuntimeInput outcomes reactorWriteBudgetPerTurn runtime
    else none

def reactor : Machine Reactor.TerminalRuntime LaneAct := ⟨reactorStep⟩

/-- The lane is that of the terminal. -/
structure Marks (lane : InputLane) (runtime : Reactor.TerminalRuntime) : Prop where
  chunks : runtime.pendingInput = lane.queue.erase
  bytes : runtime.pendingInputBytes = lane.queue.bytes
  outputOpen : runtime.outputOpen = lane.outputOpen

variable {runtime after : Reactor.TerminalRuntime}

theorem Marks.step (h : Marks lane runtime) (hlane : lane.Conserved)
    (hstep : reactorStep runtime act = some after) :
    ∃ next, lane.step act = some next ∧ Marks next after := by
  have henqueue (data : Bytes) (origin : Origin) (ahead : Bool) := @InputQueue.enqueue_erase
    lane.queue data origin ahead runtime h.chunks h.bytes
  cases act with
  | write data =>
    simp only [reactorStep, InputLane.step, henqueue data .input] at hstep ⊢
    split_ifs at hstep ⊢
    · obtain rfl := Option.some.inj hstep
      exact ⟨lane, rfl, h⟩
    · obtain rfl := Option.some.inj hstep
      cases lane.queue.enqueue data .input false with
      | none => exact ⟨lane, rfl, h⟩
      | some queue => exact ⟨_, rfl, rfl, rfl, h.outputOpen⟩
  | response data ahead =>
    simp only [reactorStep, InputLane.step, h.outputOpen,
      henqueue data (.response lane.queued.length)] at hstep ⊢
    split_ifs at hstep ⊢
    obtain rfl := Option.some.inj hstep
    cases lane.queue.enqueue data (.response lane.queued.length) ahead with
    | none => exact ⟨_, rfl, h.chunks, h.bytes, rfl⟩
    | some queue => exact ⟨_, rfl, rfl, rfl, rfl⟩
  | flush outcomes =>
    simp only [reactorStep, InputLane.step, h.outputOpen,
      InputQueue.flush_erase h.chunks h.bytes] at hstep ⊢
    split_ifs at hstep ⊢ with hopen
    obtain ⟨flushed, hflushed, rfl⟩ := Option.map_eq_some_iff.mp hstep
    obtain ⟨reached, -, -, hqueue⟩ := flush_flows hlane.sound (hlane.flows hopen) hflushed
    refine ⟨_, congrArg (Option.map _) hflushed, ?_⟩
    dsimp only
    cases hfailed : flushed.failed with
    | true =>
      rw [hfailed, if_pos rfl] at hqueue
      simp only [if_true, hqueue]
      exact ⟨rfl, rfl, rfl⟩
    | false => exact ⟨rfl, rfl, hopen⟩

theorem Marks.run {acts : List LaneAct} {start : Reactor.TerminalRuntime}
    (hrun : reactor.Run start acts runtime) (h : Marks lane start) (hlane : lane.Conserved) :
    ∃ last, machine.Run lane acts last ∧ Marks last runtime ∧ last.Conserved := by
  induction hrun generalizing lane with
  | nil => exact ⟨lane, .nil _, h, hlane⟩
  | cons _ hstep _ ih =>
    obtain ⟨next, hnext, hmarks⟩ := h.step hlane hstep
    obtain ⟨last, hlast, hmarked⟩ := ih hmarks (hlane.step hnext)
    exact ⟨last, .cons trivial hnext hlast, hmarked⟩

/-- Every run of the reactor over the input of a terminal is one of its lane: what it queues is what
the lane holds, and the lane loses nothing. -/
theorem reactor_marked {acts : List LaneAct}
    (h : reactor.Run Reactor.TerminalRuntime.fresh acts runtime) :
    ∃ lane, machine.Run fresh acts lane ∧ Marks lane runtime ∧ lane.Conserved :=
  Marks.run h ⟨rfl, rfl, rfl⟩ conserved_fresh

theorem reactor_marked_between : ∃ runtime lane, Marks lane runtime ∧ lane.Conserved ∧
    runtime.pendingInputBytes = 0 ∧ reactor.Run Reactor.TerminalRuntime.fresh responseBetween runtime := by
  have hrun : reactor.Run Reactor.TerminalRuntime.fresh responseBetween _ :=
    .cons trivial rfl (.cons trivial rfl (.cons trivial rfl (.cons trivial rfl
      (.cons trivial rfl (.nil _)))))
  obtain ⟨lane, -, hmarks, hlane⟩ := reactor_marked hrun
  exact ⟨_, lane, hmarks, hlane, rfl, hrun⟩

end InputLane
end PiDeck.Terminal
