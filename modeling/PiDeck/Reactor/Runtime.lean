import Mathlib
import PiDeck.Transition.Machine

/-! One terminal in the reactor: its PTY, the input that waits to be written, and what it has sent
out. Reads, writes and the parser answer as they like; an answer that the call cannot give is no
step. -/
namespace PiDeck.Reactor
open PiDeck.Transition

abbrev Bytes := List UInt8

def maxReplayBytes : ℕ := 2 * 1024 * 1024
def exitedReplayBytes : ℕ := 256 * 1024
def reactorReadBufferBytes : ℕ := 64 * 1024
def maxPendingInputBytesPerTerminal : ℕ := 2 * 1024 * 1024
def reactorWriteBudgetPerTurn : ℕ := 64 * 1024

/-- `saturating_add` of 64 bits. -/
def saturatingAdd (a b : ℕ) : ℕ := min (a + b) (2 ^ 64 - 1)

inductive WriteOutcome
  | wrote (count : ℕ)
  | interrupted
  | wouldBlock
  | failed
  deriving DecidableEq, Repr

inductive ReadOutcome
  | bytes (count : ℕ)
  | endOfFile
  | retry
  | failed
  deriving DecidableEq, Repr

/-- What the parser answers to a chunk. -/
structure Effects where
  ptyResponses : List Bytes
  bells : ℕ
  deriving DecidableEq, Repr

inductive WaitOutcome
  | running
  | exited (code : ℕ) (signal : Option ℤ)
  | failed
  deriving DecidableEq, Repr

structure ReplayChunk where
  sequence : ℕ
  data : Bytes
  deriving DecidableEq, Repr

structure EntryState where
  sequence : ℕ
  replay : List ReplayChunk
  replayBytes : ℕ
  replayTruncated : Bool
  exitCode : Option ℤ
  signal : Option ℤ
  deriving DecidableEq, Repr

inductive TerminalEvent
  | output (sequence : ℕ) (data : Bytes)
  | bell
  | exit (code : ℤ) (signal : Option ℤ)
  deriving DecidableEq, Repr

/-- `pty` waits to be read and `produced` is all that the child has written; nothing follows once
the child's side is closed (`hungUp`). `history` is what the archive was offered. -/
structure TerminalRuntime where
  pty : Bytes
  hungUp : Bool
  produced : Bytes
  childKilled : Bool
  pendingInput : List (Bytes × ℕ)
  pendingInputBytes : ℕ
  outputOpen : Bool
  registrationActive : Bool
  exitObserved : Bool
  state : EntryState
  events : List TerminalEvent
  history : List (ℕ × Bytes)
  historyClosed : Bool
  deriving DecidableEq, Repr

/-- The oldest chunks go while the replay is too large, but never the last one. -/
def trimReplay (limit : ℕ) : List ReplayChunk → ℕ → Bool → List ReplayChunk × ℕ × Bool
  | dropped :: next :: rest, bytes, truncated =>
    if limit < bytes then trimReplay limit (next :: rest) (bytes - dropped.data.length) true
    else (dropped :: next :: rest, bytes, truncated)
  | replay, bytes, truncated => (replay, bytes, truncated)

namespace EntryState

def trim (state : EntryState) (limit : ℕ) : EntryState :=
  let (replay, bytes, truncated) :=
    trimReplay limit state.replay state.replayBytes state.replayTruncated
  { state with replay := replay, replayBytes := bytes, replayTruncated := truncated }

/-- A chunk gets its sequence and goes to the replay. -/
def sequenced (state : EntryState) (data : Bytes) : EntryState :=
  let sequence := saturatingAdd state.sequence data.length
  EntryState.trim { state with
    sequence := sequence
    replay := state.replay ++ [⟨sequence, data⟩]
    replayBytes := saturatingAdd state.replayBytes data.length } maxReplayBytes

end EntryState

inductive ReactorAct
  | childWrites (data : Bytes)
  | childHangsUp
  | input (data : Bytes)
  | ready (writable : Option (List WriteOutcome))
      (readable : Option (ReadOutcome × Option Effects))
  | maintain (wait : WaitOutcome)
  deriving DecidableEq, Repr

namespace TerminalRuntime

/-- `enqueue_pending_input`; a response of the parser goes before all input that has not been begun. -/
def enqueuePendingInput (runtime : TerminalRuntime) (data : Bytes) (authorityResponse : Bool) :
    Option TerminalRuntime :=
  if maxPendingInputBytesPerTerminal < runtime.pendingInputBytes + data.length then none
  else some { runtime with
    pendingInputBytes := runtime.pendingInputBytes + data.length
    pendingInput :=
      if authorityResponse then
        match runtime.pendingInput with
        | (front, offset) :: rest =>
          if 0 < offset then (front, offset) :: (data, 0) :: rest
          else (data, 0) :: (front, offset) :: rest
        | [] => [(data, 0)]
      else runtime.pendingInput ++ [(data, 0)] }

def enqueueResponses (runtime : TerminalRuntime) : List Bytes → TerminalRuntime × Bool
  | [] => (runtime, true)
  | response :: responses =>
    match runtime.enqueuePendingInput response true with
    | some queued => queued.enqueueResponses responses
    | none => (runtime, false)

/-- A write that fails drops the input, kills the child and closes the output. -/
def failInput (runtime : TerminalRuntime) : TerminalRuntime :=
  { runtime with
    outputOpen := false
    pendingInput := []
    pendingInputBytes := 0
    childKilled := true }

/-- `flush_runtime_input`: the loop asks for one outcome after the other. -/
def flushRuntimeInput : List WriteOutcome → ℕ → TerminalRuntime → Option TerminalRuntime
  | [], budget, runtime =>
    if budget = 0 ∨ runtime.pendingInput = [] then some runtime else none
  | outcome :: outcomes, budget, runtime =>
    match runtime.pendingInput with
    | [] => none
    | (data, offset) :: rest =>
      if budget = 0 then none
      else match outcome with
        | .wrote 0 | .failed => if outcomes = [] then some runtime.failInput else none
        | .wrote count =>
          if count ≤ min (data.length - offset) budget then
            flushRuntimeInput outcomes (budget - count) { runtime with
              pendingInputBytes := runtime.pendingInputBytes - count
              pendingInput :=
                if offset + count = data.length then rest else (data, offset + count) :: rest }
          else none
        | .interrupted => flushRuntimeInput outcomes budget runtime
        | .wouldBlock => if outcomes = [] then some runtime else none

/-- `process_terminal_output`, and whether the terminal goes on. Without effects the parser has
failed. -/
def processTerminalOutput (runtime : TerminalRuntime) (data : Bytes) (effects : Option Effects) :
    TerminalRuntime × Bool :=
  let state := runtime.state.sequenced data
  let sent := { runtime with
    state := state
    events := runtime.events ++ [.output state.sequence data]
    history := runtime.history ++ [(state.sequence, data)] }
  match effects with
  | none => (sent, false)
  | some effects =>
    let (queued, accepted) := sent.enqueueResponses effects.ptyResponses
    if accepted then
      ({ queued with events := queued.events ++ List.replicate effects.bells .bell }, true)
    else (queued, false)

/-- `drain_runtime_output` reads once. -/
def drainRuntimeOutput (runtime : TerminalRuntime) (read : ReadOutcome)
    (effects : Option Effects) : Option TerminalRuntime :=
  match read with
  | .endOfFile =>
    if runtime.hungUp ∧ runtime.pty = [] then some { runtime with outputOpen := false } else none
  | .bytes count =>
    if 0 < count ∧ count ≤ runtime.pty.length ∧ count ≤ reactorReadBufferBytes then
      let rest := { runtime with pty := runtime.pty.drop count }
      let (processed, goesOn) := rest.processTerminalOutput (runtime.pty.take count) effects
      if goesOn then some processed
      else some { processed with childKilled := true, outputOpen := false }
    else none
  | .retry => some runtime
  | .failed => some { runtime with outputOpen := false }

def unregister (runtime : TerminalRuntime) : TerminalRuntime :=
  { runtime with registrationActive := false, outputOpen := false }

def whenWritable (runtime : TerminalRuntime) : Option (List WriteOutcome) → Option TerminalRuntime
  | some outcomes => flushRuntimeInput outcomes reactorWriteBudgetPerTurn runtime
  | none => some runtime

def whenReadable (runtime : TerminalRuntime) :
    Option (ReadOutcome × Option Effects) → Option TerminalRuntime
  | some (read, effects) => runtime.drainRuntimeOutput read effects
  | none => some runtime

/-- A readiness event of the poller. -/
def ready (runtime : TerminalRuntime) (writable : Option (List WriteOutcome))
    (readable : Option (ReadOutcome × Option Effects)) : Option TerminalRuntime :=
  if runtime.outputOpen then
    (runtime.whenWritable writable).bind fun flushed =>
      (flushed.whenReadable readable).map fun drained =>
        if drained.outputOpen then drained else drained.unregister
  else none

/-- The exit is reported, and the archive of the terminal is closed. -/
def reportExit (runtime : TerminalRuntime) (code : ℤ) (signal : Option ℤ) : TerminalRuntime :=
  { runtime with
    state := EntryState.trim { runtime.state with exitCode := some code, signal := signal }
      exitedReplayBytes
    events := runtime.events ++ [.exit code signal]
    historyClosed := true
    exitObserved := true }

/-- `try_observe_terminal_exit`. -/
def tryObserveTerminalExit (runtime : TerminalRuntime) : WaitOutcome → TerminalRuntime
  | .running => runtime
  | .exited code signal => runtime.reportExit (if code < 2 ^ 31 then code else 1) signal
  | .failed => runtime.reportExit 1 none

def step (runtime : TerminalRuntime) : ReactorAct → Option TerminalRuntime
  | .childWrites data =>
    if runtime.hungUp then none
    else some { runtime with
      pty := runtime.pty ++ data
      produced := runtime.produced ++ data }
  | .childHangsUp => some { runtime with hungUp := true }
  | .input data => runtime.enqueuePendingInput data false
  | .ready writable readable => runtime.ready writable readable
  | .maintain wait =>
    if runtime.outputOpen = false ∧ runtime.exitObserved = false then
      some (runtime.tryObserveTerminalExit wait)
    else none

def machine : Machine TerminalRuntime ReactorAct := ⟨step⟩

def fresh : TerminalRuntime where
  pty := []
  hungUp := false
  produced := []
  childKilled := false
  pendingInput := []
  pendingInputBytes := 0
  outputOpen := true
  registrationActive := true
  exitObserved := false
  state := ⟨0, [], 0, false, none, none⟩
  events := []
  history := []
  historyClosed := false

end TerminalRuntime
end PiDeck.Reactor
