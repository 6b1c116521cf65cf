import Mathlib
import PiDeck.Collections.Keyed
import PiDeck.History.Owner

/-! The way into the history owner, one lock or mailbox operation at a time. Calls of several threads
and the owner take turns: a call accepts its sequence, reserves its bytes and sends its command, and
gives both back if the command is refused; the owner gives the bytes of a command back once it is
done with it. -/
namespace PiDeck.History
open PiDeck.Collections PiDeck.Transition

def IngestCommand.bytes : IngestCommand → ℕ
  | append _ record => record.data.length
  | checkpoint _ bytes => bytes
  | snapshot | barrier => 0

/-- What a call submits: output of the terminal, or a checkpoint of it. -/
inductive Submission
  | append (sequence : ℕ) (data : Bytes)
  | checkpoint (bytes : ℕ)
  deriving DecidableEq

def Submission.bytes : Submission → ℕ
  | append _ data => data.length
  | checkpoint bytes => bytes

def Submission.command (terminalId : String) : Submission → IngestCommand
  | append sequence data => .append terminalId ⟨sequence, data⟩
  | checkpoint bytes => .checkpoint terminalId bytes

/-- Where a call is. `previous` is the accepted sequence it found, 0 for none. -/
inductive Phase
  | entered
  | reserving (previous : ℕ)
  | sending (previous : ℕ)
  | releasing (previous : ℕ) (error : HistoryError)
  | restoring (previous : ℕ) (error : HistoryError)
  | returned (result : Except HistoryError Unit)
  deriving DecidableEq

/-- A call of `try_append` or `try_persist_checkpoint`, or of `append` or `persist_checkpoint`, which
wait. -/
structure IngestCall where
  id : ℕ
  terminalId : String
  submission : Submission
  waits : Bool
  phase : Phase
  deriving DecidableEq

namespace IngestCall

/-- The bytes that the call has reserved and answers for. -/
def held (call : IngestCall) : ℕ :=
  match call.phase with
  | .sending _ | .releasing _ _ => call.submission.bytes
  | .entered | .reserving _ | .restoring _ _ | .returned _ => 0

def Rejected (call : IngestCall) : Prop := ∃ e, call.phase = .returned (.error e)

/-- Only `try_append` rolls the accepted sequence back. -/
def restores (call : IngestCall) : Bool :=
  match call.submission with
  | .append _ _ => !call.waits
  | .checkpoint _ => false

/-- What the call becomes when its submission is refused and it holds no bytes. -/
def refused (call : IngestCall) (previous : ℕ) (error : HistoryError) : Phase :=
  if call.restores then .restoring previous error else .returned (.error error)

end IngestCall

/-- What the calls and the owner share, the command the owner has taken, and whether its thread still
runs. -/
structure IngestLane where
  acceptedSequences : String → ℕ
  pendingCloses : Finset String
  ingestBytes : ℕ
  ingest : List IngestCommand
  handling : Option IngestCommand
  running : Bool
  calls : List IngestCall

/-- A call is made, a call takes its next step, `snapshot` or `flush_all` sends its command, the owner
takes a command or is done with it or stops, an archive is loaded whose newest sequence is `last`,
and closes are asked for and finalized. -/
inductive IngestStep
  | call (id : ℕ) (terminalId : String) (submission : Submission) (waits : Bool)
  | advance (id : ℕ)
  | snapshot
  | barrier
  | receive
  | finish
  | stop
  | load (terminalId : String) (last : ℕ)
  | closes (pending : Finset String)
  deriving DecidableEq

namespace IngestLane

def initial : IngestLane where
  acceptedSequences _ := 0
  pendingCloses := ∅
  ingestBytes := 0
  ingest := []
  handling := none
  running := true
  calls := []

def getCall (lane : IngestLane) (id : ℕ) : Option IngestCall := findRow IngestCall.id lane.calls id

def setPhase (lane : IngestLane) (id : ℕ) (phase : Phase) : IngestLane :=
  { lane with calls := modifyRow IngestCall.id id (fun call => { call with phase := phase }) lane.calls }

/-- The checks of a call, and for an append the new accepted sequence. -/
def accept (lane : IngestLane) (call : IngestCall) : IngestLane :=
  match call.submission with
  | .append sequence data =>
    if sequence = 0 ∨ data = [] then lane.setPhase call.id (.returned (.ok ()))
    else if maxRecordBytes < data.length then
      lane.setPhase call.id
        (.returned (.error (.corrupt s!"history record exceeds {maxRecordBytes} bytes")))
    else if call.terminalId ∈ lane.pendingCloses then
      lane.setPhase call.id
        (.returned (.error (.corrupt s!"append after close for {call.terminalId}")))
    else
      let previous := lane.acceptedSequences call.terminalId
      if sequence ≤ previous then
        lane.setPhase call.id (.returned (.error (.corrupt
          s!"history sequence {sequence} does not follow {previous}")))
      else
        { lane.setPhase call.id (.reserving previous) with
          acceptedSequences := Function.update lane.acceptedSequences call.terminalId sequence }
  | .checkpoint bytes =>
    if bytes = 0 ∨ maxCheckpointBytes < bytes then
      lane.setPhase call.id (.returned (.error (.corrupt
        s!"checkpoint must contain 1..={maxCheckpointBytes} bytes")))
    else lane.setPhase call.id (.reserving 0)

/-- `reserve_ingest_bytes` waits until the bytes fit, `try_reserve_ingest_bytes` does not. -/
def reserve (lane : IngestLane) (call : IngestCall) (previous : ℕ) : Option IngestLane :=
  if ingestMaxBytes < lane.ingestBytes + call.submission.bytes then
    if call.waits then none
    else some (lane.setPhase call.id
      (call.refused previous (.corrupt "history ingest byte budget is full")))
  else
    some { lane.setPhase call.id (.sending previous) with
      ingestBytes := lane.ingestBytes + call.submission.bytes }

/-- A full mailbox makes `send` wait and `try_send` fail; both fail once the owner has stopped. -/
def send (lane : IngestLane) (call : IngestCall) (previous : ℕ) : Option IngestLane :=
  if lane.running then
    if lane.ingest.length < ingestMaxMessages then
      some { lane.setPhase call.id (.returned (.ok ())) with
        ingest := lane.ingest ++ [call.submission.command call.terminalId] }
    else if call.waits then none
    else some (lane.setPhase call.id
      (.releasing previous (.corrupt "history ingest mailbox is full")))
  else
    some (lane.setPhase call.id (.releasing previous (.corrupt
      (if call.waits then "history owner stopped" else "history ingest mailbox is full"))))

def release (lane : IngestLane) (call : IngestCall) (previous : ℕ) (error : HistoryError) :
    IngestLane :=
  { lane.setPhase call.id (call.refused previous error) with
    ingestBytes := lane.ingestBytes - call.submission.bytes }

/-- `rollback_accepted_sequence`: the sequence goes back unless something moved it on. -/
def restore (lane : IngestLane) (call : IngestCall) (previous : ℕ) (error : HistoryError) :
    IngestLane :=
  match call.submission with
  | .append attempted _ =>
    if lane.acceptedSequences call.terminalId ≠ attempted then
      lane.setPhase call.id (.returned (.error error))
    else
      { lane.setPhase call.id (.returned (.error error)) with
        acceptedSequences := Function.update lane.acceptedSequences call.terminalId previous }
  | .checkpoint _ => lane.setPhase call.id (.returned (.error error))

/-- The next step of a call. -/
def advance (lane : IngestLane) (call : IngestCall) : Option IngestLane :=
  match call.phase with
  | .entered => some (lane.accept call)
  | .reserving previous => lane.reserve call previous
  | .sending previous => lane.send call previous
  | .releasing previous error => some (lane.release call previous error)
  | .restoring previous error => some (lane.restore call previous error)
  | .returned _ => none

def enqueue (lane : IngestLane) (command : IngestCommand) : Option IngestLane :=
  if lane.running ∧ lane.ingest.length < ingestMaxMessages then
    some { lane with ingest := lane.ingest ++ [command] }
  else none

def step (lane : IngestLane) : IngestStep → Option IngestLane
  | .call id terminalId submission waits =>
    if (lane.getCall id).isSome then none
    else some { lane with calls := lane.calls ++ [⟨id, terminalId, submission, waits, .entered⟩] }
  | .advance id => (lane.getCall id).bind lane.advance
  | .snapshot => lane.enqueue .snapshot
  | .barrier => lane.enqueue .barrier
  | .receive =>
    if lane.running ∧ lane.handling = none then
      match lane.ingest with
      | [] => none
      | command :: rest => some { lane with ingest := rest, handling := some command }
    else none
  | .finish => lane.handling.map fun command =>
    { lane with handling := none, ingestBytes := lane.ingestBytes - command.bytes }
  | .stop => some { lane with running := false, handling := none, ingest := [] }
  | .load terminalId last => some { lane with
      acceptedSequences := Function.update lane.acceptedSequences terminalId
        (max (lane.acceptedSequences terminalId) last) }
  | .closes pending => some { lane with pendingCloses := pending }

def machine : Machine IngestLane IngestStep := ⟨step⟩

def queuedBytes (lane : IngestLane) : ℕ := (lane.ingest.map IngestCommand.bytes).sum
def handlingBytes (lane : IngestLane) : ℕ := lane.handling.elim 0 IngestCommand.bytes
def heldBytes (lane : IngestLane) : ℕ := (lane.calls.map IngestCall.held).sum

end IngestLane
end PiDeck.History
