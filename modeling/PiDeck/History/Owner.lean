import Mathlib
import PiDeck.History.Durability

/-! The owner of all archives: appends wait in a bounded mailbox, closes in another, and a close
waits until what was accepted of its terminal is written. -/
namespace PiDeck.History
open PiDeck.Storage PiDeck.Transition

def ingestMaxMessages : ℕ := 1024
def ingestMaxBytes : ℕ := 32 * 1024 * 1024
def finalizeMaxMessages : ℕ := 1024
def maxCheckpointBytes : ℕ := 8 * 1024 * 1024

inductive IngestCommand
  | append (terminalId : String) (record : HistoryRecord)
  | checkpoint (terminalId : String) (bytes : ℕ)
  | snapshot
  | barrier
  deriving DecidableEq

/-- A close, and the sequence through which the terminal must be written first. -/
structure CloseCommand where
  terminalId : String
  throughSequence : ℕ
  deriving DecidableEq

/-- What the owner shares with its callers, its two mailboxes, and the closes it waits with. An
accepted sequence of 0 stands for none. `polled` says that the owner has looked at the closes and
waits for the next command. -/
structure HistoryOwner where
  states : String → Option ArchiveState
  directories : String → Directory
  pendingCloses : Finset String
  acceptedSequences : String → ℕ
  ingestBytes : ℕ
  ingest : List IngestCommand
  finalize : List CloseCommand
  closes : List CloseCommand
  polled : Bool

/-- What befalls the writes of a step: those of loading an archive, those of the command itself,
those of each close that is ready, with the time, and those of the flush of each live archive, in
the order in which the map yields them. -/
structure OwnerOutcomes where
  loading : List Outcome
  command : List Outcome
  closing : String → ℕ × List Outcome
  flushing : List (String × List Outcome)

namespace HistoryOwner

def initial : HistoryOwner :=
  { states := fun _ => none
    directories := fun _ => emptyDirectory
    pendingCloses := ∅
    acceptedSequences := fun _ => 0
    ingestBytes := 0
    ingest := []
    finalize := []
    closes := []
    polled := false }

/-! ### The callers -/

/-- `rollback_accepted_sequence`. -/
def rollbackAcceptedSequence (owner : HistoryOwner) (terminalId : String)
    (attempted previous : ℕ) : HistoryOwner :=
  if owner.acceptedSequences terminalId ≠ attempted then owner
  else { owner with
    acceptedSequences := Function.update owner.acceptedSequences terminalId previous }

def tryAppend (owner : HistoryOwner) (terminalId : String) (sequence : ℕ) (data : Bytes) :
    HistoryOwner × Except HistoryError Unit :=
  if sequence = 0 ∨ data = [] then (owner, .ok ())
  else if maxRecordBytes < data.length then
    (owner, .error (.corrupt s!"history record exceeds {maxRecordBytes} bytes"))
  else if terminalId ∈ owner.pendingCloses then
    (owner, .error (.corrupt s!"append after close for {terminalId}"))
  else
    let previous := owner.acceptedSequences terminalId
    if sequence ≤ previous then
      (owner, .error (.corrupt s!"history sequence {sequence} does not follow {previous}"))
    else
      let accepted := { owner with
        acceptedSequences := Function.update owner.acceptedSequences terminalId sequence }
      if ingestMaxBytes < owner.ingestBytes + data.length then
        (accepted.rollbackAcceptedSequence terminalId sequence previous,
          .error (.corrupt "history ingest byte budget is full"))
      else if ingestMaxMessages ≤ owner.ingest.length then
        (accepted.rollbackAcceptedSequence terminalId sequence previous,
          .error (.corrupt "history ingest mailbox is full"))
      else
        ({ accepted with
            ingestBytes := owner.ingestBytes + data.length
            ingest := owner.ingest ++ [.append terminalId ⟨sequence, data⟩] }, .ok ())

def tryPersistCheckpoint (owner : HistoryOwner) (terminalId : String) (bytes : ℕ) :
    HistoryOwner × Except HistoryError Unit :=
  if bytes = 0 ∨ maxCheckpointBytes < bytes then
    (owner, .error (.corrupt s!"checkpoint must contain 1..={maxCheckpointBytes} bytes"))
  else if ingestMaxBytes < owner.ingestBytes + bytes then
    (owner, .error (.corrupt "history ingest byte budget is full"))
  else if ingestMaxMessages ≤ owner.ingest.length then
    (owner, .error (.corrupt "history ingest mailbox is full"))
  else
    ({ owner with
        ingestBytes := owner.ingestBytes + bytes
        ingest := owner.ingest ++ [.checkpoint terminalId bytes] }, .ok ())

def closeTerminal (owner : HistoryOwner) (terminalId : String) :
    HistoryOwner × Except HistoryError Unit :=
  if terminalId ∈ owner.pendingCloses then (owner, .ok ())
  else if finalizeMaxMessages ≤ owner.finalize.length then
    (owner, .error (.corrupt "history finalizer mailbox is full"))
  else
    ({ owner with
        pendingCloses := insert terminalId owner.pendingCloses
        finalize := owner.finalize ++ [⟨terminalId, owner.acceptedSequences terminalId⟩] }, .ok ())

/-- Send a command and wait for the answer, as `snapshot` and `flush_all` do; a full mailbox makes
the sender wait. -/
def send (owner : HistoryOwner) (command : IngestCommand) : Option HistoryOwner :=
  if owner.ingest.length < ingestMaxMessages then
    some { owner with ingest := owner.ingest ++ [command] }
  else none

/-! ### The archives -/

def put (owner : HistoryOwner) (terminalId : String) (d : Directory)
    (state : Option ArchiveState) : HistoryOwner :=
  { owner with
    states := Function.update owner.states terminalId state
    directories := Function.update owner.directories terminalId d }

/-- The sequence through which an archive in memory is written. -/
def writtenSequence (owner : HistoryOwner) (terminalId : String) : ℕ :=
  ((owner.states terminalId).map (·.newest 0)).getD 0

/-- `state_for`. There is no result if the process stops. -/
def stateFor (owner : HistoryOwner) (terminalId : String) (outcomes : List Outcome) :
    Option (HistoryOwner × Except HistoryError ArchiveState) :=
  match owner.states terminalId with
  | some state => some (owner, .ok state)
  | none =>
    match (History.stateFor terminalId).run () outcomes (owner.directories terminalId) with
    | (_, none) => none
    | (d, some (.error e, _)) => some (owner.put terminalId d none, .error e)
    | (d, some (.ok state, _)) =>
      some ({ owner.put terminalId d (some state) with
        acceptedSequences := Function.update owner.acceptedSequences terminalId
          (max (owner.acceptedSequences terminalId) (state.newest 0)) }, .ok state)

/-- Run an operation on the archive of a terminal once it is loaded. -/
def onArchive (owner : HistoryOwner) (terminalId : String) (loading command : List Outcome)
    (operation : Action Directory ArchiveState HistoryError Unit) : Option HistoryOwner :=
  match owner.stateFor terminalId loading with
  | none => none
  | some (loaded, .error _) => some loaded
  | some (loaded, .ok state) =>
    match operation.run state command (loaded.directories terminalId) with
    | (_, none) => none
    | (d, some (_, state')) => some (loaded.put terminalId d (some state'))

variable (codec : BlockCodec) (blockBytes : ℕ)

/-- `finalize_terminal`, which takes the archive out of memory first. -/
def finalizeTerminal (owner : HistoryOwner) (terminalId : String) (now : ℕ)
    (outcomes : List Outcome) : Option HistoryOwner :=
  match owner.states terminalId with
  | some state =>
    match (finalizeArchive codec now).run state outcomes (owner.directories terminalId) with
    | (_, none) => none
    | (d, some _) => some (owner.put terminalId d none)
  | none =>
    match (finalizeStored now).run () outcomes (owner.directories terminalId) with
    | (_, none) => none
    | (d, some _) => some (owner.put terminalId d none)

/-- The loop of `finalize_ready`: the closes that still wait are left. -/
def finalizeEach (closing : String → ℕ × List Outcome) :
    List CloseCommand → HistoryOwner → Option (HistoryOwner × List CloseCommand)
  | [], owner => some (owner, [])
  | close :: closes, owner =>
    if owner.writtenSequence close.terminalId < close.throughSequence then
      (finalizeEach closing closes owner).map fun left => (left.1, close :: left.2)
    else
      match owner.finalizeTerminal codec close.terminalId (closing close.terminalId).1
        (closing close.terminalId).2 with
      | none => none
      | some finalized =>
        finalizeEach closing closes
          { finalized with pendingCloses := finalized.pendingCloses.erase close.terminalId }

/-- Take the closes out of their mailbox, and finalize those that are ready. -/
def finalizeReady (owner : HistoryOwner) (closing : String → ℕ × List Outcome) :
    Option HistoryOwner :=
  (finalizeEach codec closing (owner.closes ++ owner.finalize) { owner with finalize := [] }).map
    fun left => { left.1 with closes := left.2 }

/-- `flush_live`, which ends at the first error. -/
def flushLive : List (String × List Outcome) → HistoryOwner → Option HistoryOwner
  | [], owner => some owner
  | (terminalId, outcomes) :: rest, owner =>
    match owner.states terminalId with
    | none => flushLive rest owner
    | some state =>
      match (flushArchive codec).run state outcomes (owner.directories terminalId) with
      | (_, none) => none
      | (d, some (.error _, state')) => some (owner.put terminalId d (some state'))
      | (d, some (.ok _, state')) => flushLive rest (owner.put terminalId d (some state'))

/-- The owner takes the next command. -/
def receive (owner : HistoryOwner) (outcomes : OwnerOutcomes) : Option HistoryOwner :=
  match owner.ingest with
  | [] => none
  | .append terminalId record :: rest =>
    (onArchive { owner with ingest := rest } terminalId outcomes.loading outcomes.command
      (appendOwned codec blockBytes record)).map fun appended =>
        { appended with ingestBytes := appended.ingestBytes - record.data.length }
  | .checkpoint terminalId bytes :: rest =>
    (onArchive { owner with ingest := rest } terminalId outcomes.loading outcomes.command
      ensureArchiveDirectory).map fun persisted =>
        { persisted with ingestBytes := persisted.ingestBytes - bytes }
  | .snapshot :: rest => some { owner with ingest := rest }
  | .barrier :: rest =>
    (finalizeReady codec { owner with ingest := rest } outcomes.closing).bind
      (flushLive codec outcomes.flushing)

end HistoryOwner

/-- The calls of other threads, a reader that loads an archive, the two halves of the owner's loop,
the time-out between them, and the removal of an archive that is not in memory. -/
inductive OwnerStep
  | tryAppend (terminalId : String) (sequence : ℕ) (data : Bytes)
  | tryPersistCheckpoint (terminalId : String) (bytes : ℕ)
  | close (terminalId : String)
  | snapshot
  | barrier
  | load (terminalId : String) (outcomes : List Outcome)
  | poll (closing : String → ℕ × List Outcome)
  | receive (outcomes : OwnerOutcomes)
  | timeout
  | remove (terminalId : String)

namespace HistoryOwner
variable (codec : BlockCodec) (blockBytes : ℕ)

def step (owner : HistoryOwner) : OwnerStep → Option HistoryOwner
  | .tryAppend terminalId sequence data => some (owner.tryAppend terminalId sequence data).1
  | .tryPersistCheckpoint terminalId bytes => some (owner.tryPersistCheckpoint terminalId bytes).1
  | .close terminalId => some (owner.closeTerminal terminalId).1
  | .snapshot => owner.send .snapshot
  | .barrier => owner.send .barrier
  | .load terminalId outcomes => (owner.stateFor terminalId outcomes).map (·.1)
  | .poll closing =>
    if owner.polled then none
    else (owner.finalizeReady codec closing).map fun left => { left with polled := true }
  | .receive outcomes =>
    if owner.polled then
      (owner.receive codec blockBytes outcomes).map fun left => { left with polled := false }
    else none
  | .timeout => if owner.polled then some { owner with polled := false } else none
  | .remove terminalId =>
    if owner.states terminalId = none then some (owner.put terminalId emptyDirectory none) else none

def machine : Machine HistoryOwner OwnerStep := ⟨step codec blockBytes⟩

end HistoryOwner
end PiDeck.History
