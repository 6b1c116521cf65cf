import Mathlib
import PiDeck.Storage.Program
import PiDeck.Storage.BigEndian

/-! The data of the durable terminal history: records, the blocks they are compressed into, the
manifest that names the blocks, and the directory that holds it all. -/
namespace PiDeck.History
open PiDeck.Storage

abbrev Bytes := List UInt8

def archiveVersion : ℕ := 2
def maxTerminalBytes : ℕ := 256 * 1024 * 1024
def maxRecordBytes : ℕ := 64 * 1024
def maxBlockRecords : ℕ := 1000000

/-- The bytes of one read of the terminal; `sequence` is the position of the last one. -/
structure HistoryRecord where
  sequence : ℕ
  data : Bytes
  deriving DecidableEq

structure ArchiveBlock where
  file : String
  firstSequence : ℕ
  lastSequence : ℕ
  uncompressedBytes : ℕ
  storedBytes : ℕ
  deriving DecidableEq

structure ArchiveManifest where
  version : ℕ
  terminalId : String
  closedAt : Option ℕ
  blocks : List ArchiveBlock
  deriving DecidableEq

inductive HistoryError
  | io
  | json
  | corrupt (message : String)
  deriving DecidableEq, Repr

/-- The compression of block files. -/
structure BlockCodec where
  compress : Bytes → Bytes
  decompress : Bytes → Option Bytes
  decompress_compress : ∀ bytes, decompress (compress bytes) = some bytes

/-- The directory of one terminal. `index` and `indexTemporary` are `index.json` and
`index.json.tmp`, `active` is `active.bin`, and `files` holds the block files and their temporary
forms. -/
structure Directory where
  present : Bool
  index : Option ArchiveManifest
  indexTemporary : Option ArchiveManifest
  active : Option Bytes
  files : String → Option Bytes

/-- The state of an archive in memory. -/
structure ArchiveState where
  manifest : ArchiveManifest
  pending : List HistoryRecord
  pendingBytes : ℕ
  deriving DecidableEq

/-- The sequence of the last of some records, or `start` if there are none. -/
def lastSequenceOf (start : ℕ) (records : List HistoryRecord) : ℕ :=
  (records.getLast?.map (·.sequence)).getD start

def ArchiveManifest.lastSequence (manifest : ArchiveManifest) (start : ℕ) : ℕ :=
  (manifest.blocks.getLast?.map (·.lastSequence)).getD start

/-- The sequence of the newest record, or `start` if there is none. -/
def ArchiveState.newest (state : ArchiveState) (start : ℕ) : ℕ :=
  lastSequenceOf (state.manifest.lastSequence start) state.pending

/-- A record that the archive accepts. -/
structure HistoryRecord.Valid (record : HistoryRecord) : Prop where
  sequence : record.sequence < 2 ^ 64
  nonempty : record.data ≠ []
  length : record.data.length ≤ maxRecordBytes

/-- Valid records with increasing sequences, all past `start`. -/
def Ordered : ℕ → List HistoryRecord → Prop
  | _, [] => True
  | start, record :: records =>
    start < record.sequence ∧ record.Valid ∧ Ordered record.sequence records

@[simp] theorem ordered_nil (start : ℕ) : Ordered start [] := trivial

@[simp] theorem ordered_cons {start : ℕ} {record : HistoryRecord} {records : List HistoryRecord} :
    Ordered start (record :: records) ↔
      start < record.sequence ∧ record.Valid ∧ Ordered record.sequence records := Iff.rfl

@[simp] theorem lastSequenceOf_nil (start : ℕ) : lastSequenceOf start [] = start := rfl

@[simp] theorem lastSequenceOf_cons (start : ℕ) (record : HistoryRecord)
    (records : List HistoryRecord) :
    lastSequenceOf start (record :: records) = lastSequenceOf record.sequence records := by
  cases records <;> simp [lastSequenceOf, List.getLast?_cons]

@[simp] theorem lastSequenceOf_append (start : ℕ) (xs ys : List HistoryRecord) :
    lastSequenceOf start (xs ++ ys) = lastSequenceOf (lastSequenceOf start xs) ys := by
  induction xs generalizing start with
  | nil => rfl
  | cons record xs ih => simp [ih]

theorem ordered_append {start : ℕ} {xs ys : List HistoryRecord} :
    Ordered start (xs ++ ys) ↔ Ordered start xs ∧ Ordered (lastSequenceOf start xs) ys := by
  induction xs generalizing start with
  | nil => simp
  | cons record xs ih => simp [ih, and_assoc]

theorem Ordered.start_le {start : ℕ} {records : List HistoryRecord} (h : Ordered start records) :
    start ≤ lastSequenceOf start records := by
  induction records generalizing start with
  | nil => exact le_refl _
  | cons record records ih =>
    rw [lastSequenceOf_cons]
    exact h.1.le.trans (ih h.2.2)

theorem Ordered.lt_of_mem {start : ℕ} {records : List HistoryRecord} (h : Ordered start records)
    {record : HistoryRecord} (hr : record ∈ records) : start < record.sequence := by
  induction records generalizing start with
  | nil => cases hr
  | cons first records ih =>
    obtain rfl | hr := List.mem_cons.mp hr
    · exact h.1
    · exact h.1.trans (ih h.2.2 hr)

theorem Ordered.le_last {start : ℕ} {records : List HistoryRecord} (h : Ordered start records)
    {record : HistoryRecord} (hr : record ∈ records) :
    record.sequence ≤ lastSequenceOf start records := by
  induction records generalizing start with
  | nil => cases hr
  | cons first records ih =>
    rw [lastSequenceOf_cons]
    obtain rfl | hr := List.mem_cons.mp hr
    · exact h.2.2.start_le
    · exact ih h.2.2 hr

theorem Ordered.valid {start : ℕ} {records : List HistoryRecord} (h : Ordered start records)
    {record : HistoryRecord} (hr : record ∈ records) : record.Valid := by
  induction records generalizing start with
  | nil => cases hr
  | cons first records ih =>
    obtain rfl | hr := List.mem_cons.mp hr
    · exact h.2.1
    · exact ih h.2.2 hr

theorem Ordered.weaken {start start' : ℕ} {records : List HistoryRecord}
    (h : Ordered start records) (hle : start' ≤ start) : Ordered start' records := by
  cases records with
  | nil => trivial
  | cons record records => exact ⟨hle.trans_lt h.1, h.2⟩

/-- Keeping the records past a sequence drops a whole prefix. -/
theorem Ordered.filter_append {start : ℕ} {xs ys : List HistoryRecord}
    (h : Ordered start (xs ++ ys)) {cut : ℕ} (hcut : cut = lastSequenceOf start xs) :
    (xs ++ ys).filter (fun record => decide (cut < record.sequence)) = ys := by
  obtain ⟨hx, hy⟩ := ordered_append.mp h
  subst hcut
  rw [List.filter_append, List.filter_eq_nil_iff.mpr, List.filter_eq_self.mpr, List.nil_append]
  · intro record hr
    simpa using hy.lt_of_mem hr
  · intro record hr
    simpa using hx.le_last hr

end PiDeck.History
