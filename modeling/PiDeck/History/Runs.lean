import Mathlib
import PiDeck.History.Eviction
import PiDeck.Transition.Machine

/-! The runs of an archive: it is loaded, appended to, flushed, closed, and its process can stop
between or inside these, leaving only the directory. -/
namespace PiDeck.History
open PiDeck.Storage PiDeck.Transition

/-- A record as the history owner receives it. -/
structure AppendCommand where
  record : HistoryRecord
  valid : record.Valid

/-- The archive of one terminal, its state in memory if its process has loaded it, the records that
were appended so far, and the sequence through which the quota has evicted them. -/
structure Archive where
  disk : Directory
  memory : Option ArchiveState
  appended : List HistoryRecord
  evictedThrough : ℕ

/-- An operation with the outcomes of its writes. -/
inductive ArchiveStep
  | load (outcomes : List Outcome)
  | append (command : AppendCommand) (outcomes : List Outcome)
  | flush (outcomes : List Outcome)
  | finalize (now : ℕ) (outcomes : List Outcome)
  | stop

def ArchiveStep.outcomes : ArchiveStep → List Outcome
  | load outcomes => outcomes
  | append _ outcomes => outcomes
  | flush outcomes => outcomes
  | finalize _ outcomes => outcomes
  | stop => []

def emptyDirectory : Directory :=
  { present := false
    index := none
    indexTemporary := none
    active := none
    files := fun _ => none }

namespace Archive

def initial : Archive :=
  { disk := emptyDirectory
    memory := none
    appended := []
    evictedThrough := 0 }

end Archive

def blocksOf (index : Option ArchiveManifest) : List ArchiveBlock :=
  (index.map (·.blocks)).getD []

/-- What a call leaves in memory; nothing if the process stopped. -/
def leftInMemory {α : Type} : Option (Except HistoryError α × ArchiveState) → Option ArchiveState
  | some (_, state) => some state
  | none => none

/-- A call that succeeded. -/
def succeeded {α S : Type} : Option (Except HistoryError α × S) → Option α
  | some (.ok a, _) => some a
  | _ => none

variable (codec : BlockCodec) (blockBytes : ℕ) (terminalId : String)

/-- The blocks that the quota looks at after a flush. -/
def ArchiveState.listedAfterFlush (state : ArchiveState) : List ArchiveBlock :=
  match encodeRecords state.pending with
  | .ok encoded => state.manifest.blocks ++ [state.nextBlock (codec.compress encoded)]
  | .error _ => state.manifest.blocks

/-- The sequence through which records are evicted, after a flush of `state` left `d`: the quota has
taken effect once the manifest on disk lists only what it keeps. -/
def evictedAfter (state : ArchiveState) (d : Directory) (evictedThrough : ℕ) : ℕ :=
  let listed := state.listedAfterFlush codec
  let quota := evictedOf listed (storedBytesOf listed)
  if blocksOf d.index = quota.2 then lastOfBlocks evictedThrough quota.1 else evictedThrough

namespace Archive

def load (archive : Archive) (outcomes : List Outcome) : Archive :=
  let ran := (stateFor terminalId).run () outcomes archive.disk
  { archive with disk := ran.1, memory := succeeded ran.2 }

/-- `append_owned`. The record counts as appended once its last piece is written. -/
def append (archive : Archive) (state : ArchiveState) (record : HistoryRecord)
    (outcomes : List Outcome) : Archive :=
  let ran := (appendOwned codec blockBytes record).run state outcomes archive.disk
  let wrote := (appendRecord record).run state outcomes archive.disk
  if state.checkAppend record = .ok () ∧ (succeeded wrote.2).isSome then
    { disk := ran.1
      memory := leftInMemory ran.2
      appended := archive.appended ++ [record]
      evictedThrough :=
        if blockBytes ≤ (state.pushRecord record).pendingBytes then
          evictedAfter codec (state.pushRecord record) ran.1 archive.evictedThrough
        else archive.evictedThrough }
  else { archive with disk := ran.1, memory := leftInMemory ran.2 }

def flush (archive : Archive) (state : ArchiveState) (outcomes : List Outcome) : Archive :=
  let ran := (flushArchive codec).run state outcomes archive.disk
  { archive with
    disk := ran.1
    memory := leftInMemory ran.2
    evictedThrough := evictedAfter codec state ran.1 archive.evictedThrough }

/-- `finalize_terminal` takes the state out of memory first. -/
def finalize (archive : Archive) (state : ArchiveState) (now : ℕ) (outcomes : List Outcome) :
    Archive :=
  let ran := (finalizeArchive codec now).run state outcomes archive.disk
  { archive with
    disk := ran.1
    memory := none
    evictedThrough := evictedAfter codec state ran.1 archive.evictedThrough }

/-- `finalize_terminal` of an archive that is not in memory. -/
def finalizeUnloaded (archive : Archive) (now : ℕ) (outcomes : List Outcome) : Archive :=
  { archive with disk := ((finalizeStored now).run () outcomes archive.disk).1 }

def step (archive : Archive) : ArchiveStep → Option Archive
  | .load outcomes => if archive.memory.isNone then some (archive.load terminalId outcomes) else none
  | .append command outcomes =>
    archive.memory.map fun state => archive.append codec blockBytes state command.record outcomes
  | .flush outcomes => archive.memory.map fun state => archive.flush codec state outcomes
  | .finalize now outcomes =>
    match archive.memory with
    | some state => some (archive.finalize codec state now outcomes)
    | none => some (archive.finalizeUnloaded now outcomes)
  | .stop => some { archive with memory := none }

def machine : Machine Archive ArchiveStep := ⟨step codec blockBytes terminalId⟩

end Archive

/-- A block that the manifest on disk lists has no file. -/
def MissingBlock (d : Directory) : Prop :=
  ∃ manifest, d.index = some manifest ∧ ∃ block ∈ manifest.blocks, d.files block.file = none

end PiDeck.History
