import Mathlib
import PiDeck.Reactor.Runtime

/-! The input that waits for a PTY. Chunks are handed over from the front, as much of each as the
PTY takes, and an answer of the authority goes before all chunks that have not been begun. Every
chunk is marked with where it comes from, and so is every byte that has been handed over. -/
namespace PiDeck.Terminal
open PiDeck.Reactor

/-- Where waiting input comes from: a command, or the authority as its answer of this number. -/
inductive Origin
  | input
  | response (number : ℕ)
  deriving DecidableEq, Repr

def Origin.number : Origin → Option ℕ
  | .input => none
  | .response number => some number

structure Chunk where
  data : Bytes
  offset : ℕ
  origin : Origin
  deriving DecidableEq, Repr

structure InputQueue where
  chunks : List Chunk
  bytes : ℕ
  deriving DecidableEq, Repr

/-- What a flush leaves, what it has handed over, and whether a write has failed. -/
structure Flushed where
  queue : InputQueue
  handed : List (Origin × UInt8)
  failed : Bool
  deriving DecidableEq, Repr

def mark (origin : Origin) (data : Bytes) : List (Origin × UInt8) := data.map (origin, ·)

namespace InputQueue

def empty : InputQueue := ⟨[], 0⟩

def fits (queue : InputQueue) (count : ℕ) : Bool :=
  queue.bytes + count ≤ maxPendingInputBytesPerTerminal

/-- The front chunk, if a part of it has been handed over. -/
def begun (queue : InputQueue) : List Chunk :=
  queue.chunks.take (if queue.chunks.head?.any (fun front => 0 < front.offset) then 1 else 0)

def notBegun (queue : InputQueue) : List Chunk :=
  queue.chunks.drop (if queue.chunks.head?.any (fun front => 0 < front.offset) then 1 else 0)

/-- `enqueue_pending_input`. -/
def enqueue (queue : InputQueue) (data : Bytes) (origin : Origin) (authorityResponse : Bool) :
    Option InputQueue :=
  if queue.fits data.length then
    some {
      bytes := queue.bytes + data.length
      chunks :=
        if authorityResponse then queue.begun ++ ⟨data, 0, origin⟩ :: queue.notBegun
        else queue.chunks ++ [⟨data, 0, origin⟩] }
  else none

/-- `flush_runtime_input`: the loop asks for one outcome after the other. -/
def flush : List WriteOutcome → ℕ → InputQueue → Option Flushed
  | [], budget, queue =>
    if budget = 0 ∨ queue.chunks = [] then some ⟨queue, [], false⟩ else none
  | outcome :: outcomes, budget, queue =>
    match queue.chunks with
    | [] => none
    | front :: rest =>
      if budget = 0 then none
      else match outcome with
        | .wrote 0 | .failed => if outcomes = [] then some ⟨empty, [], true⟩ else none
        | .wrote count =>
          if count ≤ min (front.data.length - front.offset) budget then
            (flush outcomes (budget - count) {
              bytes := queue.bytes - count
              chunks :=
                if front.offset + count = front.data.length then rest
                else { front with offset := front.offset + count } :: rest }).map fun flushed =>
              { flushed with
                handed := mark front.origin ((front.data.drop front.offset).take count) ++
                  flushed.handed }
          else none
        | .interrupted => flush outcomes budget queue
        | .wouldBlock => if outcomes = [] then some ⟨queue, [], false⟩ else none

/-- The queue without its marks. -/
def erase (queue : InputQueue) : List (Bytes × ℕ) :=
  queue.chunks.map fun chunk => (chunk.data, chunk.offset)

/-- The bytes that wait. -/
def contents (queue : InputQueue) : Bytes :=
  queue.chunks.flatMap fun chunk => chunk.data.drop chunk.offset

variable {queue queue' : InputQueue} {data : Bytes} {origin : Origin} {authorityResponse : Bool}
  {outcomes : List WriteOutcome} {budget : ℕ} {flushed : Flushed} {runtime : Reactor.TerminalRuntime}

theorem begun_append_notBegun (queue : InputQueue) : queue.begun ++ queue.notBegun = queue.chunks :=
  List.take_append_drop _ _

theorem enqueue_bytes (h : queue.enqueue data origin authorityResponse = some queue') :
    queue.fits data.length = true ∧ queue'.bytes = queue.bytes + data.length := by
  unfold enqueue at h
  split at h
  · rename_i hfits
    cases h
    exact ⟨hfits, rfl⟩
  · cases h

/-- A command's input is appended. -/
theorem enqueue_input (h : queue.enqueue data origin false = some queue') :
    queue'.chunks = queue.chunks ++ [⟨data, 0, origin⟩] := by
  unfold enqueue at h
  split at h
  · cases h
    rfl
  · cases h

/-- An answer of the authority is put before the chunks that have not been begun. -/
theorem enqueue_response (h : queue.enqueue data origin true = some queue') :
    queue'.chunks = queue.begun ++ ⟨data, 0, origin⟩ :: queue.notBegun := by
  unfold enqueue at h
  split at h
  · cases h
    rfl
  · cases h

section Erasure
variable (hchunks : runtime.pendingInput = queue.erase)
  (hbytes : runtime.pendingInputBytes = queue.bytes)
include hchunks hbytes

/-- Without the marks, the queue is the one of the reactor. -/
theorem enqueue_erase : runtime.enqueuePendingInput data authorityResponse =
    (queue.enqueue data origin authorityResponse).map fun queue' =>
      { runtime with pendingInput := queue'.erase, pendingInputBytes := queue'.bytes } := by
  unfold TerminalRuntime.enqueuePendingInput enqueue fits
  rw [hbytes, hchunks]
  by_cases h : maxPendingInputBytesPerTerminal < queue.bytes + data.length
  · simp [h, not_le.mpr h]
  · have hle := not_lt.mp h
    cases authorityResponse with
    | false => simp [h, hle, erase]
    | true =>
      cases hq : queue.chunks with
      | nil => simp [h, hle, erase, begun, notBegun, hq]
      | cons front rest =>
        by_cases hoffset : 0 < front.offset
        · simp [h, hle, erase, begun, notBegun, hq, hoffset]
        · simp [h, hle, erase, begun, notBegun, hq, hoffset]

end Erasure

/-- Without the marks, a flush is one of the reactor. -/
theorem flush_erase (hchunks : runtime.pendingInput = queue.erase)
    (hbytes : runtime.pendingInputBytes = queue.bytes) :
    TerminalRuntime.flushRuntimeInput outcomes budget runtime =
      (flush outcomes budget queue).map fun flushed =>
        if flushed.failed then runtime.failInput
        else { runtime with
          pendingInput := flushed.queue.erase
          pendingInputBytes := flushed.queue.bytes } := by
  have hsame : { runtime with
      pendingInput := queue.erase
      pendingInputBytes := queue.bytes } = runtime := by rw [← hchunks, ← hbytes]
  induction outcomes generalizing budget queue runtime with
  | nil =>
    unfold TerminalRuntime.flushRuntimeInput flush
    have hempty : runtime.pendingInput = [] ↔ queue.chunks = [] := by simp [hchunks, erase]
    by_cases hend : budget = 0 ∨ queue.chunks = []
    · rw [if_pos hend, if_pos (by rwa [hempty])]
      exact congrArg some hsame.symm
    · rw [if_neg hend, if_neg (by rwa [hempty])]
      rfl
  | cons outcome outcomes ih =>
    cases hq : queue.chunks with
    | nil => simp [TerminalRuntime.flushRuntimeInput, flush, hchunks, erase, hq]
    | cons front rest =>
      have herase : queue.erase = (front.data, front.offset) :: rest.map fun chunk =>
        (chunk.data, chunk.offset) := by simp [erase, hq]
      rw [herase] at hchunks
      by_cases hbudget : budget = 0
      · simp [TerminalRuntime.flushRuntimeInput, flush, hchunks, hq, hbudget]
      unfold TerminalRuntime.flushRuntimeInput flush
      rw [hchunks, hq]
      simp only [hbudget, if_false]
      cases outcome with
      | wrote count =>
        cases count with
        | zero => by_cases hend : outcomes = [] <;> simp [hend]
        | succ count =>
          by_cases hcount : count + 1 ≤ min (front.data.length - front.offset) budget
          · simp only [if_pos hcount, Option.map_map]
            have hrest : (if front.offset + (count + 1) = front.data.length then
                  rest.map fun chunk => (chunk.data, chunk.offset)
                else (front.data, front.offset + (count + 1)) ::
                  rest.map fun chunk => (chunk.data, chunk.offset)) =
                erase ⟨if front.offset + (count + 1) = front.data.length then rest
                  else { front with offset := front.offset + (count + 1) } :: rest,
                  queue.bytes - (count + 1)⟩ := by
              by_cases hwhole : front.offset + (count + 1) = front.data.length
              · simp [hwhole, erase]
              · simp [hwhole, erase]
            rw [hrest, hbytes, ih rfl rfl rfl]
            rfl
          · simp only [if_neg hcount, Option.map_none]
      | interrupted => exact ih (hchunks.trans herase.symm) hbytes hsame
      | wouldBlock =>
        by_cases hend : outcomes = []
        · simp [hend, hsame]
        · simp [hend]
      | failed => by_cases hend : outcomes = [] <;> simp [hend]

/-- What every write call keeps holds where a flush ends, unless its last write fails and clears the
queue. -/
theorem flush_invariant (Inv : InputQueue → List (Origin × UInt8) → Prop)
    (wrote : ∀ (queue : InputQueue) handed front rest count, queue.chunks = front :: rest →
      count ≤ front.data.length - front.offset → Inv queue handed →
      Inv ⟨if front.offset + count = front.data.length then rest
          else { front with offset := front.offset + count } :: rest, queue.bytes - count⟩
        (handed ++ mark front.origin ((front.data.drop front.offset).take count)))
    {handed : List (Origin × UInt8)} (h : Inv queue handed)
    (hflush : queue.flush outcomes budget = some flushed) :
    ∃ reached : InputQueue, Inv reached (handed ++ flushed.handed) ∧
      flushed.queue = if flushed.failed then .empty else reached := by
  induction outcomes generalizing budget queue handed flushed with
  | nil =>
    unfold flush at hflush
    split at hflush
    · cases hflush
      exact ⟨queue, by rwa [List.append_nil], rfl⟩
    · cases hflush
  | cons outcome outcomes ih =>
    unfold flush at hflush
    cases hq : queue.chunks with
    | nil => simp [hq] at hflush
    | cons front rest =>
      simp only [hq] at hflush
      by_cases hbudget : budget = 0
      · simp [hbudget] at hflush
      rw [if_neg hbudget] at hflush
      -- The last outcome: nothing is handed over.
      have hlast : ∀ last failed, (if outcomes = [] then some (⟨last, [], failed⟩ : Flushed)
          else none) = some flushed → last = (if failed then .empty else queue) →
          ∃ reached : InputQueue, Inv reached (handed ++ flushed.handed) ∧
            flushed.queue = if flushed.failed then .empty else reached := by
        intro last failed hended hqueue
        split at hended
        · cases hended
          exact ⟨queue, by rwa [List.append_nil], hqueue⟩
        · cases hended
      cases outcome with
      | wrote count =>
        cases count with
        | zero => exact hlast _ _ hflush rfl
        | succ count =>
          simp only at hflush
          split at hflush
          · rename_i hcount
            obtain ⟨more, hmore, rfl⟩ := Option.map_eq_some_iff.mp hflush
            obtain ⟨reached, hreached, hqueue⟩ := ih
              (wrote queue handed front rest _ hq (hcount.trans (min_le_left _ _)) h) hmore
            rw [List.append_assoc] at hreached
            exact ⟨reached, hreached, hqueue⟩
          · cases hflush
      | interrupted => exact ih h hflush
      | wouldBlock => exact hlast _ _ hflush rfl
      | failed => exact hlast _ _ hflush rfl

end InputQueue
end PiDeck.Terminal
