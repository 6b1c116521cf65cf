import Mathlib
import PiDeck.History.Codec

/-! The archive of one terminal: loading it, appending to it, moving its pending records into a
block, evicting its oldest blocks, and closing it, each as the writes it makes to the directory. A
failed write leaves the directory as it was; a call that only reads can fail too. -/
namespace PiDeck.History
open PiDeck.Storage

variable {S : Type}

/-- A call that can fail and changes nothing. -/
def attempt : Action Directory S HistoryError Unit := .step id .io

def newManifest (terminalId : String) : ArchiveManifest :=
  { version := archiveVersion
    terminalId := terminalId
    closedAt := none
    blocks := [] }

def readManifest : Action Directory S HistoryError (Option ArchiveManifest) := do
  let index ← .inspect (·.index)
  if index.isSome then do
    attempt
    pure index
  else pure none

def writeManifestValue (manifest : ArchiveManifest) : Action Directory S HistoryError Unit := do
  .step (fun d => { d with indexTemporary := some manifest }) .io
  .step (fun d => { d with index := d.indexTemporary, indexTemporary := none }) .io

def writeManifest : Action Directory ArchiveState HistoryError Unit := do
  let state ← .getState
  writeManifestValue state.manifest

/-- Write at the end of the active segment. -/
def writeActive (bytes : Bytes) : Action Directory S HistoryError Unit :=
  .step (fun d => { d with active := some (d.active.getD [] ++ bytes) }) .io

def writePieces : List Bytes → Action Directory S HistoryError Unit
  | [] => pure ()
  | piece :: pieces => do
    writeActive piece
    writePieces pieces

def appendActiveRecord (sequence : ℕ) (data : Bytes) : Action Directory S HistoryError Unit :=
  writePieces (activeRecordPieces sequence data)

def resetActiveSegment : Action Directory S HistoryError Unit := do
  .step (fun d => { d with active := some [] }) .io
  writeActive activeMagic
  attempt

/-- The part of `open_active_segment` that reads a segment that is not empty. -/
def recoverActive (bytes : Bytes) (blockSequence : ℕ) :
    Action Directory S HistoryError (List HistoryRecord) := do
  attempt
  if bytes.length < activeMagic.length ∨ bytes.take activeMagic.length ≠ activeMagic then
    .fail (.corrupt "invalid active history header")
  else do
    let scanned := scanActive bytes.length 0 (bytes.drop activeMagic.length)
    let pending := scanned.1.filter fun record => decide (blockSequence < record.sequence)
    if scanned.2 = [] then pure pending
    else do
      .step (fun d => { d with active := some (bytes.take (bytes.length - scanned.2.length)) }) .io
      attempt
      pure pending

def openActiveSegment (blockSequence : ℕ) :
    Action Directory S HistoryError (List HistoryRecord) := do
  .step (fun d => { d with active := some (d.active.getD []) }) .io
  let bytes ← .inspect fun d => d.active.getD []
  if bytes = [] then do
    writeActive activeMagic
    attempt
    pure []
  else recoverActive bytes blockSequence

/-- The manifest that was found, or a new one. -/
def loadManifest (terminalId : String) :
    Option ArchiveManifest → Action Directory S HistoryError ArchiveManifest
  | some manifest =>
    if manifest.version = archiveVersion then pure manifest
    else .fail (.corrupt
      s!"unsupported history version {manifest.version} for {terminalId}")
  | none => do
    writeManifestValue (newManifest terminalId)
    pure (newManifest terminalId)

/-- `state_for` of an archive that is not in memory. -/
def stateFor (terminalId : String) : Action Directory S HistoryError ArchiveState := do
  .step (fun d => { d with present := true }) .io
  let found ← readManifest
  let manifest ← loadManifest terminalId found
  if manifest.terminalId ≠ terminalId then .fail (.corrupt terminalId)
  else do
    let pending ← openActiveSegment (manifest.lastSequence 0)
    pure
      { manifest := manifest
        pending := pending
        pendingBytes := (pending.map (·.data.length)).sum }

def ensureArchiveDirectory : Action Directory ArchiveState HistoryError Unit := do
  let present ← .inspect (·.present)
  if present then pure ()
  else do
    .step (fun d => { d with present := true }) .io
    .modifyState fun state => { state with manifest := newManifest state.manifest.terminalId }
    writeManifest
    let _ ← openActiveSegment 0
    pure ()

def ArchiveState.pushBlock (block : ArchiveBlock) (state : ArchiveState) : ArchiveState :=
  { state with
    manifest := { state.manifest with blocks := state.manifest.blocks ++ [block] } }

def ArchiveState.popBlock (state : ArchiveState) : ArchiveState :=
  { state with manifest := { state.manifest with blocks := state.manifest.blocks.dropLast } }

def ArchiveState.clearPending (state : ArchiveState) : ArchiveState :=
  { state with pending := [], pendingBytes := 0 }

def ArchiveState.pushRecord (record : HistoryRecord) (state : ArchiveState) : ArchiveState :=
  { state with
    pending := state.pending ++ [record]
    pendingBytes := state.pendingBytes + record.data.length }

/-- The first sequence of records that are not empty. -/
def firstSequenceOf (records : List HistoryRecord) : ℕ := (records.head?.map (·.sequence)).getD 0

/-- The block that `flush_state` makes of the pending records. -/
def ArchiveState.nextBlock (state : ArchiveState) (compressed : Bytes) : ArchiveBlock :=
  { file := blockFile (firstSequenceOf state.pending) (lastSequenceOf 0 state.pending)
    firstSequence := firstSequenceOf state.pending
    lastSequence := lastSequenceOf 0 state.pending
    uncompressedBytes := state.pendingBytes
    storedBytes := compressed.length }

/-- Write a block file under its temporary name and rename it. -/
def publishBlock (file : String) (compressed : Bytes) : Action Directory S HistoryError Unit := do
  .step (fun d =>
    { d with files := Function.update d.files (temporaryFile file) (some compressed) }) .io
  .step (fun d =>
    { d with
      files := Function.update (Function.update d.files file (d.files (temporaryFile file)))
        (temporaryFile file) none }) .io

variable (codec : BlockCodec)

def flushState : Action Directory ArchiveState HistoryError Unit := do
  let before ← .getState
  if before.pending = [] then pure ()
  else do
    ensureArchiveDirectory
    let state ← .getState
    let encoded ← .ofExcept (encodeRecords state.pending)
    let compressed := codec.compress encoded
    publishBlock (state.nextBlock compressed).file compressed
    .modifyState (·.pushBlock (state.nextBlock compressed))
    writeManifest.rescue fun error => do
      .modifyState (·.popBlock)
      .fail error
    .modifyState (·.clearPending)
    resetActiveSegment

/-- Delete the file of a block, if there is one. -/
def removeBlockFile (file : String) : Action Directory S HistoryError Unit := do
  let found ← .inspect fun d => (d.files file).isSome
  if found then .step (fun d => { d with files := Function.update d.files file none }) .io
  else pure ()

def storedBytesOf (blocks : List ArchiveBlock) : ℕ := (blocks.map (·.storedBytes)).sum

/-- The loop of `enforce_terminal_quota` over the blocks that are left. -/
def evictBlocks : List ArchiveBlock → ℕ → Action Directory ArchiveState HistoryError Unit
  | block :: next :: blocks, bytes =>
    if maxTerminalBytes < bytes then do
      .modifyState fun state =>
        { state with manifest := { state.manifest with blocks := next :: blocks } }
      removeBlockFile block.file
      evictBlocks (next :: blocks) (bytes - block.storedBytes)
    else pure ()
  | _, _ => pure ()

def enforceTerminalQuota : Action Directory ArchiveState HistoryError Unit := do
  let state ← .getState
  evictBlocks state.manifest.blocks (storedBytesOf state.manifest.blocks)
  writeManifest

/-- The part of `append_owned` that makes a record durable. -/
def appendRecord (record : HistoryRecord) : Action Directory ArchiveState HistoryError Unit := do
  appendActiveRecord record.sequence record.data
  .modifyState (·.pushRecord record)

/-- The checks of `append_owned`. -/
def ArchiveState.checkAppend (state : ArchiveState) (record : HistoryRecord) :
    Except HistoryError Unit :=
  if state.manifest.closedAt.isSome then
    .error (.corrupt s!"append after completed close for {state.manifest.terminalId}")
  else if record.sequence ≤ state.newest 0 then
    .error (.corrupt
      s!"history sequence {record.sequence} does not follow {state.newest 0}")
  else .ok ()

/-- The flush at the end of `append_owned`, once a block is full. -/
def flushWhenFull (blockBytes : ℕ) : Action Directory ArchiveState HistoryError Unit := do
  let state ← .getState
  if blockBytes ≤ state.pendingBytes then do
    flushState codec
    enforceTerminalQuota
  else pure ()

def appendOwned (blockBytes : ℕ) (record : HistoryRecord) :
    Action Directory ArchiveState HistoryError Unit := do
  let state ← .getState
  .ofExcept (state.checkAppend record)
  appendRecord record
  flushWhenFull codec blockBytes

/-- What `flush_live` does to one archive. -/
def flushArchive : Action Directory ArchiveState HistoryError Unit := do
  flushState codec
  enforceTerminalQuota

/-- The last part of `finalize_terminal`. -/
def markClosed (now : ℕ) : Action Directory ArchiveState HistoryError Unit := do
  let state ← .getState
  if state.manifest.closedAt.isSome then pure ()
  else do
    .modifyState fun state =>
      { state with manifest := { state.manifest with closedAt := some now } }
    writeManifest

/-- `finalize_terminal` of an archive in memory. -/
def finalizeArchive (now : ℕ) : Action Directory ArchiveState HistoryError Unit := do
  flushArchive codec
  markClosed now

/-- `finalize_terminal` of an archive that is not in memory. -/
def finalizeStored (now : ℕ) : Action Directory S HistoryError Unit := do
  let found ← readManifest
  match found with
  | some manifest =>
    if manifest.closedAt.isSome then pure ()
    else writeManifestValue { manifest with closedAt := some now }
  | none => pure ()

def readBlock (d : Directory) (file : String) : Except HistoryError (List HistoryRecord) :=
  match d.files file with
  | none => .error .io
  | some compressed =>
    match codec.decompress compressed with
    | none => .error .io
    | some encoded => decodeRecords encoded

/-- The records of some blocks, in the order of the blocks. -/
def readBlocks (d : Directory) : List ArchiveBlock → Except HistoryError (List HistoryRecord)
  | [] => .ok []
  | block :: blocks =>
    match readBlock codec d block.file with
    | .error e => .error e
    | .ok records =>
      match readBlocks d blocks with
      | .error e => .error e
      | .ok rest => .ok (records ++ rest)

/-- All that an archive holds: its blocks, then its pending records. -/
def contents (d : Directory) (state : ArchiveState) : Except HistoryError (List HistoryRecord) :=
  match readBlocks codec d state.manifest.blocks with
  | .error e => .error e
  | .ok records => .ok (records ++ state.pending)

end PiDeck.History
