import Mathlib
import PiDeck.History.Archive

/-! What it means that block files hold records, and how the writes of a flush keep it. -/
namespace PiDeck.History
open PiDeck.Storage

variable {codec : BlockCodec}

abbrev BlockFiles := String → Option Bytes

/-- The file of `block` holds the records `own`, which come after `start`. -/
structure HoldsBlock (codec : BlockCodec) (files : BlockFiles) (start : ℕ) (block : ArchiveBlock)
    (own : List HistoryRecord) : Prop where
  nonempty : own ≠ []
  ordered : Ordered start own
  name : block.file = blockFile block.firstSequence block.lastSequence
  first : block.firstSequence = firstSequenceOf own
  last : block.lastSequence = lastSequenceOf 0 own
  stored : ∃ encoded, encodeRecords own = .ok encoded ∧
    files block.file = some (codec.compress encoded) ∧
    block.storedBytes = (codec.compress encoded).length

/-- The files of `blocks` hold the records, block after block. -/
def HoldsBlocks (codec : BlockCodec) (files : BlockFiles) :
    ℕ → List ArchiveBlock → List HistoryRecord → Prop
  | _, [], records => records = []
  | start, block :: blocks, records => ∃ own rest, records = own ++ rest ∧
    HoldsBlock codec files start block own ∧
    HoldsBlocks codec files block.lastSequence blocks rest

theorem lastSequenceOf_nonempty {records : List HistoryRecord} (h : records ≠ []) (a b : ℕ) :
    lastSequenceOf a records = lastSequenceOf b records := by
  cases records with
  | nil => exact absurd rfl h
  | cons record records => simp

theorem firstSequenceOf_mem {records : List HistoryRecord} (h : records ≠ []) :
    ∃ record ∈ records, record.sequence = firstSequenceOf records := by
  cases records with
  | nil => exact absurd rfl h
  | cons record records => exact ⟨record, List.mem_cons_self, rfl⟩

theorem Ordered.first_le {start : ℕ} {records : List HistoryRecord} (h : Ordered start records)
    {record : HistoryRecord} (hr : record ∈ records) :
    firstSequenceOf records ≤ record.sequence := by
  cases records with
  | nil => cases hr
  | cons first records =>
    obtain rfl | hr := List.mem_cons.mp hr
    · exact le_refl _
    · exact (h.2.2.lt_of_mem hr).le

namespace HoldsBlock
variable {files files' : BlockFiles} {start : ℕ} {block : ArchiveBlock} {own : List HistoryRecord}

theorem start_lt (h : HoldsBlock codec files start block own) : start < block.firstSequence := by
  obtain ⟨record, hr, heq⟩ := firstSequenceOf_mem h.nonempty
  rw [h.first, ← heq]
  exact h.ordered.lt_of_mem hr

theorem first_le_last (h : HoldsBlock codec files start block own) :
    block.firstSequence ≤ block.lastSequence := by
  obtain ⟨record, hr, heq⟩ := firstSequenceOf_mem h.nonempty
  rw [h.first, ← heq, h.last]
  exact (h.ordered.weaken (Nat.zero_le _)).le_last hr

theorem last_eq (h : HoldsBlock codec files start block own) :
    block.lastSequence = lastSequenceOf start own :=
  h.last.trans (lastSequenceOf_nonempty h.nonempty _ _)

theorem congr (h : HoldsBlock codec files start block own)
    (heq : files' block.file = files block.file) : HoldsBlock codec files' start block own :=
  { h with stored := by simpa only [heq] using h.stored }

theorem read {d : Directory} (h : HoldsBlock codec d.files start block own) :
    readBlock codec d block.file = .ok own := by
  obtain ⟨encoded, henc, hfile, -⟩ := h.stored
  simp only [readBlock, hfile, codec.decompress_compress]
  exact decodeRecords_encodeRecords (h.ordered.weaken (Nat.zero_le _)) henc

theorem found (h : HoldsBlock codec files start block own) : files block.file ≠ none := by
  obtain ⟨encoded, -, hfile, -⟩ := h.stored
  simp [hfile]

end HoldsBlock

def lastOfBlocks (start : ℕ) (blocks : List ArchiveBlock) : ℕ :=
  (blocks.getLast?.map (·.lastSequence)).getD start

@[simp] theorem lastOfBlocks_nil (start : ℕ) : lastOfBlocks start [] = start := rfl

@[simp] theorem lastOfBlocks_cons (start : ℕ) (block : ArchiveBlock) (blocks : List ArchiveBlock) :
    lastOfBlocks start (block :: blocks) = lastOfBlocks block.lastSequence blocks := by
  cases blocks <;> simp [lastOfBlocks, List.getLast?_cons]

@[simp] theorem ArchiveManifest.lastSequence_eq (manifest : ArchiveManifest) (start : ℕ) :
    manifest.lastSequence start = lastOfBlocks start manifest.blocks := rfl

namespace HoldsBlocks
variable {files files' : BlockFiles} {start : ℕ} {blocks : List ArchiveBlock}
  {records : List HistoryRecord}

theorem ordered (h : HoldsBlocks codec files start blocks records) :
    Ordered start records ∧ lastSequenceOf start records = lastOfBlocks start blocks := by
  induction blocks generalizing start records with
  | nil =>
    obtain rfl := h
    exact ⟨trivial, rfl⟩
  | cons block blocks ih =>
    obtain ⟨own, rest, rfl, hown, hrest⟩ := h
    obtain ⟨hord, hlast⟩ := ih hrest
    rw [hown.last_eq] at hord hlast
    refine ⟨ordered_append.mpr ⟨hown.ordered, hord⟩, ?_⟩
    rw [lastSequenceOf_append, hlast, lastOfBlocks_cons, hown.last_eq]

theorem mem (h : HoldsBlocks codec files start blocks records) {block : ArchiveBlock}
    (hb : block ∈ blocks) :
    ∃ from' own, start ≤ from' ∧ HoldsBlock codec files from' block own := by
  induction blocks generalizing start records with
  | nil => cases hb
  | cons first blocks ih =>
    obtain ⟨own, rest, rfl, hown, hrest⟩ := h
    obtain rfl | hb := List.mem_cons.mp hb
    · exact ⟨start, own, le_refl _, hown⟩
    · obtain ⟨from', own', hle, hheld⟩ := ih hrest hb
      exact ⟨from', own', (hown.start_lt.le.trans hown.first_le_last).trans hle, hheld⟩

theorem last_le (h : HoldsBlocks codec files start blocks records) {block : ArchiveBlock}
    (hb : block ∈ blocks) : block.lastSequence ≤ lastOfBlocks start blocks := by
  induction blocks generalizing start records with
  | nil => cases hb
  | cons first blocks ih =>
    obtain ⟨own, rest, rfl, hown, hrest⟩ := h
    rw [lastOfBlocks_cons]
    obtain rfl | hb := List.mem_cons.mp hb
    · obtain ⟨hord, hlast⟩ := hrest.ordered
      rw [← hlast]
      exact hord.start_le
    · exact ih hrest hb

theorem congr (h : HoldsBlocks codec files start blocks records)
    (heq : ∀ block ∈ blocks, files' block.file = files block.file) :
    HoldsBlocks codec files' start blocks records := by
  induction blocks generalizing start records with
  | nil => exact h
  | cons block blocks ih =>
    obtain ⟨own, rest, rfl, hown, hrest⟩ := h
    exact ⟨own, rest, rfl, hown.congr (heq block List.mem_cons_self),
      ih hrest fun b hb => heq b (List.mem_cons_of_mem _ hb)⟩

theorem weaken (h : HoldsBlocks codec files start blocks records) {start' : ℕ}
    (hle : start' ≤ start) : HoldsBlocks codec files start' blocks records := by
  cases blocks with
  | nil => exact h
  | cons block blocks =>
    obtain ⟨own, rest, rfl, hown, hrest⟩ := h
    exact ⟨own, rest, rfl, { hown with ordered := hown.ordered.weaken hle }, hrest⟩

theorem append (h : HoldsBlocks codec files start blocks records) {block : ArchiveBlock}
    {own : List HistoryRecord} (hown : HoldsBlock codec files (lastOfBlocks start blocks) block own) :
    HoldsBlocks codec files start (blocks ++ [block]) (records ++ own) := by
  induction blocks generalizing start records with
  | nil =>
    obtain rfl := h
    exact ⟨own, [], by simp, hown, rfl⟩
  | cons first blocks ih =>
    obtain ⟨own', rest, rfl, hown', hrest⟩ := h
    rw [lastOfBlocks_cons] at hown
    exact ⟨own', rest ++ own, by simp, hown', ih hrest hown⟩

/-- All blocks can be read, and give the records in order. -/
theorem read {d : Directory} (h : HoldsBlocks codec d.files start blocks records) :
    readBlocks codec d blocks = .ok records := by
  induction blocks generalizing start records with
  | nil =>
    obtain rfl := h
    rfl
  | cons block blocks ih =>
    obtain ⟨own, rest, rfl, hown, hrest⟩ := h
    simp only [readBlocks, hown.read, ih hrest]

/-- A block of later records has another file than the blocks before it. -/
theorem file_ne (h : HoldsBlocks codec files start blocks records) {first last : ℕ}
    (hlt : lastOfBlocks start blocks < first) {block : ArchiveBlock} (hb : block ∈ blocks) :
    block.file ≠ blockFile first last := by
  obtain ⟨from', own, -, hheld⟩ := h.mem hb
  intro heq
  have hfirst := blockFile_inj (hheld.name.symm.trans heq)
  have := hheld.first_le_last
  have := h.last_le hb
  omega

end HoldsBlocks

/-! ### The steps of a flush -/

namespace Directory

def withTemporary (d : Directory) (file : String) (compressed : Bytes) : Directory :=
  { d with files := Function.update d.files (temporaryFile file) (some compressed) }

def withBlock (d : Directory) (file : String) (compressed : Bytes) : Directory :=
  { d with
    files := Function.update (Function.update d.files file (some compressed))
      (temporaryFile file) none }

def withIndexTemporary (d : Directory) (manifest : ArchiveManifest) : Directory :=
  { d with indexTemporary := some manifest }

def withIndex (d : Directory) (manifest : ArchiveManifest) : Directory :=
  { d with index := some manifest, indexTemporary := none }

def withActive (d : Directory) (bytes : Bytes) : Directory := { d with active := some bytes }

end Directory

section Steps
variable {S : Type} {faults : Prop} {crash : Directory → Prop} {d : Directory}

theorem meets_writeManifestValue {s : S} {ok : Unit → S → Directory → Prop}
    {err : HistoryError → S → Directory → Prop} (manifest : ArchiveManifest) :
    Action.Meets faults crash (writeManifestValue manifest) s d ok err ↔
      crash d ∧ (crash (d.withIndexTemporary manifest) ∧ ok () s (d.withIndex manifest) ∧
        (faults → err .io s (d.withIndexTemporary manifest))) ∧ (faults → err .io s d) := by
  simp only [writeManifestValue, Action.meets_bind, Action.meets_step]
  rfl

theorem meets_resetActiveSegment {s : S} {ok : Unit → S → Directory → Prop}
    {err : HistoryError → S → Directory → Prop} :
    Action.Meets faults crash resetActiveSegment s d ok err ↔
      crash d ∧ (crash (d.withActive []) ∧ (crash (d.withActive activeMagic) ∧
        ok () s (d.withActive activeMagic) ∧ (faults → err .io s (d.withActive activeMagic))) ∧
        (faults → err .io s (d.withActive []))) ∧ (faults → err .io s d) := by
  simp only [resetActiveSegment, writeActive, attempt, Action.meets_bind, Action.meets_step]
  rfl

theorem meets_publishBlock {s : S} {ok : Unit → S → Directory → Prop}
    {err : HistoryError → S → Directory → Prop} {first last : ℕ} (compressed : Bytes) :
    Action.Meets faults crash (publishBlock (blockFile first last) compressed) s d ok err ↔
      crash d ∧ (crash (d.withTemporary (blockFile first last) compressed) ∧
        ok () s (d.withBlock (blockFile first last) compressed) ∧
        (faults → err .io s (d.withTemporary (blockFile first last) compressed))) ∧
        (faults → err .io s d) := by
  have hrenamed : ∀ files : BlockFiles,
      Function.update (Function.update (Function.update files (temporaryFile (blockFile first last))
        (some compressed)) (blockFile first last) (Function.update files
          (temporaryFile (blockFile first last)) (some compressed)
            (temporaryFile (blockFile first last)))) (temporaryFile (blockFile first last)) none =
      Function.update (Function.update files (blockFile first last) (some compressed))
        (temporaryFile (blockFile first last)) none := by
    intro files
    have hne := temporaryFile_ne (blockFile first last) first last
    rw [Function.update_self, Function.update_comm hne, Function.update_idem,
      Function.update_comm hne.symm]
  simp only [publishBlock, Action.meets_bind, Action.meets_step, hrenamed]
  rfl

end Steps

@[simp] theorem ArchiveState.popBlock_pushBlock (state : ArchiveState) (block : ArchiveBlock) :
    (state.pushBlock block).popBlock = state := by
  simp [pushBlock, popBlock]

section Flush
variable (codec : BlockCodec) (state : ArchiveState) (d : Directory) (compressed : Bytes)

/-- The directory with the block of the pending records published. -/
def publishedDisk : Directory := d.withBlock (state.nextBlock compressed).file compressed

/-- The directory with the block listed. -/
def committedDisk : Directory :=
  (publishedDisk state d compressed).withIndex
    (state.pushBlock (state.nextBlock compressed)).manifest

/-- Where a flush can stop before its block is listed. -/
def uncommittedDisks : List Directory :=
  [d, d.withTemporary (state.nextBlock compressed).file compressed,
    publishedDisk state d compressed,
    (publishedDisk state d compressed).withIndexTemporary
      (state.pushBlock (state.nextBlock compressed)).manifest]

/-- Where a flush can stop once its block is listed. -/
def committedDisks : List Directory :=
  [committedDisk state d compressed, (committedDisk state d compressed).withActive [],
    (committedDisk state d compressed).withActive activeMagic]

/-- The state after a flush. -/
def ArchiveState.flushed : ArchiveState :=
  (state.pushBlock (state.nextBlock compressed)).clearPending

variable {codec state d compressed} {faults : Prop} {crash : Directory → Prop}
  {ok : Unit → ArchiveState → Directory → Prop}
  {err : HistoryError → ArchiveState → Directory → Prop} {encoded : Bytes}

theorem meets_ensureArchiveDirectory (hpresent : d.present = true) :
    Action.Meets faults crash ensureArchiveDirectory state d ok err ↔ ok () state d := by
  simp [ensureArchiveDirectory, hpresent]

/-- A flush with nothing pending does nothing. -/
theorem meets_flushState_empty (hempty : state.pending = []) :
    Action.Meets faults crash (flushState codec) state d ok err ↔ ok () state d := by
  simp [flushState, hempty]

/-- A flush of records that cannot be encoded changes nothing. -/
theorem meets_flushState_unencoded {e : HistoryError} (hpresent : d.present = true)
    (hne : state.pending ≠ []) (henc : encodeRecords state.pending = .error e) :
    Action.Meets faults crash (flushState codec) state d ok err ↔ err e state d := by
  simp only [flushState, Action.meets_bind, Action.meets_getState, if_neg hne,
    meets_ensureArchiveDirectory hpresent, henc, Action.meets_ofExcept_error]

/-- The steps of a flush, one disk after the other. -/
theorem meets_flushState (hpresent : d.present = true) (hne : state.pending ≠ [])
    (henc : encodeRecords state.pending = .ok encoded)
    (hcompressed : compressed = codec.compress encoded) :
    Action.Meets faults crash (flushState codec) state d ok err ↔
      (∀ d' ∈ uncommittedDisks state d compressed, crash d' ∧ (faults → err .io state d')) ∧
      (∀ d' ∈ committedDisks state d compressed, crash d' ∧
        (faults → err .io (state.flushed compressed) d')) ∧
      ok () (state.flushed compressed)
        ((committedDisk state d compressed).withActive activeMagic) := by
  subst hcompressed
  have hname : (state.nextBlock (codec.compress encoded)).file =
      blockFile (firstSequenceOf state.pending) (lastSequenceOf 0 state.pending) := rfl
  simp only [flushState, writeManifest, Action.meets_bind, Action.meets_getState, if_neg hne,
    meets_ensureArchiveDirectory hpresent, henc, Action.meets_ofExcept_ok, hname,
    meets_publishBlock, Action.meets_modifyState, Action.meets_rescue, meets_writeManifestValue,
    Action.meets_fail, meets_resetActiveSegment, ArchiveState.popBlock_pushBlock, uncommittedDisks,
    committedDisks, committedDisk, publishedDisk, List.forall_mem_cons, List.not_mem_nil,
    false_implies, implies_true, and_true, ArchiveState.flushed]
  tauto

end Flush

end PiDeck.History
