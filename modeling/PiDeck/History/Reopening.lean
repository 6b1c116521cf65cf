import Mathlib
import PiDeck.History.Durability

/-! What is found of the appended records, by opening the archive again or by reading its pages: all
but those of the oldest blocks, which the quota evicts. -/
namespace PiDeck.History
open PiDeck.Storage PiDeck.Transition

variable {codec : BlockCodec} {blockBytes : ℕ} {terminalId : String} {d : Directory}
  {state : ArchiveState} {records : List HistoryRecord} {archive : Archive}

/-! ### Over the quota -/

def dataBytes (records : List HistoryRecord) : ℕ := (records.map (·.data.length)).sum

theorem length_encodeRecords (h : Ordered 0 records) {encoded : Bytes}
    (henc : encodeRecords records = .ok encoded) : encoded.length =
      blockHeaderBytes + (recordHeaderBytes * records.length + dataBytes records) := by
  have hbody : ∀ records : List HistoryRecord, (records.flatMap encodeRecord).length =
      recordHeaderBytes * records.length + dataBytes records := by
    intro records
    induction records with
    | nil => rfl
    | cons record records ih =>
      simp only [List.flatMap_cons, List.length_append, ih, encodeRecord, length_toBigEndian,
        dataBytes, List.map_cons, List.sum_cons, List.length_cons, recordHeaderBytes]
      omega
  simp only [encodeRecords, encodeBody_ordered h] at henc
  split at henc
  · cases henc
  · obtain rfl := Except.ok.inj henc
    rw [List.length_append, hbody]
    rfl

theorem length_le_dataBytes {start : ℕ} (h : Ordered start records) :
    records.length ≤ dataBytes records := by
  induction records generalizing start with
  | nil => exact le_refl _
  | cons record records ih =>
    have hpos := h.2.1.length_pos
    have := ih h.2.2
    simp only [dataBytes, List.map_cons, List.sum_cons, List.length_cons] at this ⊢
    omega

/-- All the blocks that a loaded archive lists are there. -/
theorem Loaded.whole (h : Loaded codec terminalId d state records) : ¬MissingBlock d := by
  rintro ⟨manifest, hm, block, hb, hmissing⟩
  obtain rfl := Option.some.inj (h.index.symm.trans hm)
  obtain ⟨stored, old, -, hstored, -⟩ := h.split
  obtain ⟨_, _, -, hheld⟩ := hstored.mem hb
  exact hheld.found hmissing

/-- A flush of records that can be encoded, and the quota after it. -/
theorem meets_flushArchive_full (h : Loaded codec terminalId d state records)
    (hne : state.pending ≠ []) {encoded : Bytes} (henc : encodeRecords state.pending = .ok encoded)
    {gone kept : List ArchiveBlock}
    (hquota : evictedOf (state.listedAfterFlush codec)
      (storedBytesOf (state.listedAfterFlush codec)) = (gone, kept)) :
    Action.Meets False (fun _ => True) (flushArchive codec) state d
      (fun _ state' d' => state' = (state.flushed (codec.compress encoded)).withBlocks kept ∧
        ∃ dropped left, records = dropped ++ left ∧ (left = [] → dropped = []) ∧
          (∀ e, lastOfBlocks e gone = lastSequenceOf e dropped) ∧
          Loaded codec terminalId d' state' left)
      (fun _ _ _ => False) := by
  rw [ArchiveState.listedAfterFlush_ok codec henc] at hquota
  simp only [flushArchive, Action.meets_bind]
  refine (meets_flush h hne henc).mono (fun _ _ => trivial) ?_ fun _ _ _ => False.elim
  rintro _ state' d' ⟨rfl, hloaded⟩
  exact (meets_quota hloaded hquota).mono (fun _ _ => trivial) (fun _ _ _ hok => hok)
    fun _ _ _ => False.elim

/-- An append that fills a block, when nothing goes wrong. -/
theorem append_full (h : Loaded codec terminalId archive.disk state archive.appended)
    {record : HistoryRecord} (hvalid : record.Valid) (hcheck : state.checkAppend record = .ok ())
    (hfull : blockBytes ≤ (state.pushRecord record).pendingBytes) {encoded : Bytes}
    (henc : encodeRecords (state.pushRecord record).pending = .ok encoded)
    {gone kept : List ArchiveBlock}
    (hquota : evictedOf ((state.pushRecord record).listedAfterFlush codec)
      (storedBytesOf ((state.pushRecord record).listedAfterFlush codec)) = (gone, kept)) :
    ∃ dropped left,
      (archive.append codec blockBytes state record []).memory =
        some (((state.pushRecord record).flushed (codec.compress encoded)).withBlocks kept) ∧
      (archive.append codec blockBytes state record []).appended = archive.appended ++ [record] ∧
      archive.appended ++ [record] = dropped ++ left ∧
      (∀ e, lastOfBlocks e gone = lastSequenceOf e dropped) ∧
      Loaded codec terminalId (archive.append codec blockBytes state record []).disk
        (((state.pushRecord record).flushed (codec.compress encoded)).withBlocks kept) left := by
  have hnext := checkAppend_ok hcheck
  rw [h.newest] at hnext
  obtain ⟨_, _, d₁, hran, rfl, hpushed⟩ | ⟨_, _, _, _, hf⟩ :=
    (meets_appendRecord h hvalid hnext).completed [] List.not_mem_nil List.not_mem_nil
  · obtain ⟨rest, hsuffix, hflushed⟩ :=
      Action.run_bind_ok (fun _ => flushWhenFull codec blockBytes) hran
    obtain rfl := List.suffix_nil.mp hsuffix
    have hne : (state.pushRecord record).pending ≠ [] := by simp [ArchiveState.pushRecord]
    obtain ⟨_, _, d₂, hran₂, rfl, dropped, left, hsplit, -, hgone, hloaded⟩ | ⟨_, _, _, _, hf⟩ :=
      (meets_flushArchive_full hpushed hne henc hquota).completed [] List.not_mem_nil List.not_mem_nil
    · refine ⟨dropped, left, ?_⟩
      simp only [Archive.append, run_appendOwned hcheck, hflushed, hran, hcheck, succeeded,
        Option.isSome_some, and_self, if_true, run_flushWhenFull, if_pos hfull, hran₂, leftInMemory]
      exact ⟨trivial, trivial, hsplit, hgone, hloaded⟩
    · exact hf.elim
  · exact hf.elim

/-- An append that leaves room in the block, when nothing goes wrong. -/
theorem append_room (h : Loaded codec terminalId archive.disk state archive.appended)
    {record : HistoryRecord} (hvalid : record.Valid) (hcheck : state.checkAppend record = .ok ())
    (hroom : ¬blockBytes ≤ (state.pushRecord record).pendingBytes) :
    (archive.append codec blockBytes state record []).memory = some (state.pushRecord record) ∧
      (archive.append codec blockBytes state record []).appended = archive.appended ++ [record] ∧
      Loaded codec terminalId (archive.append codec blockBytes state record []).disk
        (state.pushRecord record) (archive.appended ++ [record]) := by
  have hnext := checkAppend_ok hcheck
  rw [h.newest] at hnext
  obtain ⟨_, _, d₁, hran, rfl, hpushed⟩ | ⟨_, _, _, _, hf⟩ :=
    (meets_appendRecord h hvalid hnext).completed [] List.not_mem_nil List.not_mem_nil
  · obtain ⟨rest, hsuffix, hflushed⟩ :=
      Action.run_bind_ok (fun _ => flushWhenFull codec blockBytes) hran
    simp only [Archive.append, run_appendOwned hcheck, hflushed, hran, hcheck, succeeded,
      Option.isSome_some, and_self, if_true, run_flushWhenFull, if_neg hroom, leftInMemory]
    exact ⟨trivial, trivial, hpushed⟩
  · exact hf.elim

theorem evicted_nil_iff {gone : List ArchiveBlock} {dropped : List HistoryRecord}
    (h : ∀ e, lastOfBlocks e gone = lastSequenceOf e dropped) : gone = [] ↔ dropped = [] := by
  have h₀ := h 0
  have h₁ := h 1
  cases gone with
  | nil =>
    simp only [lastOfBlocks_nil, true_iff] at h₀ h₁ ⊢
    by_contra hne
    rw [lastSequenceOf_nonempty hne 0 1, ← h₁] at h₀
    cases h₀
  | cons block gone =>
    simp only [lastOfBlocks_cons, reduceCtorEq, false_iff] at h₀ h₁ ⊢
    rintro rfl
    simp only [lastSequenceOf_nil] at h₀ h₁
    omega

/-- Block files of data that does not compress. -/
def storedCodec : BlockCodec :=
  { compress := id
    decompress := some
    decompress_compress := fun _ => rfl }

/-- The read of `maxRecordBytes` bytes that ends at position `(n + 1) * maxRecordBytes`, with bytes
that do not compress. -/
def noiseRecord (n : ℕ) : HistoryRecord :=
  { sequence := (n + 1) * maxRecordBytes
    data := (List.range maxRecordBytes).map fun i =>
      (activeChecksum n (toBigEndian 4 i)).toUInt8 }

theorem length_noiseRecord (n : ℕ) : (noiseRecord n).data.length = maxRecordBytes := by
  simp [noiseRecord]

theorem noiseRecord_valid {n : ℕ} (h : n < 5000) : (noiseRecord n).Valid := by
  have hlength := length_noiseRecord n
  refine ⟨?_, ?_, hlength.le⟩
  · simp only [noiseRecord, maxRecordBytes]
    omega
  · intro hnil
    rw [hnil] at hlength
    simp [maxRecordBytes] at hlength

/-- The default size of a block. -/
def defaultBlockBytes : ℕ := 512 * 1024

/-- An archive that has taken the first `n` reads and evicted none. -/
structure Filled (n : ℕ) (archive : Archive) (state : ArchiveState) : Prop where
  memory : archive.memory = some state
  loaded : Loaded storedCodec "terminal-1" archive.disk state archive.appended
  appended : archive.appended = (List.range n).map noiseRecord
  opened : state.manifest.closedAt = none
  room : state.pendingBytes < defaultBlockBytes
  within : storedBytesOf state.manifest.blocks ≤ maxTerminalBytes
  total : dataBytes archive.appended ≤ storedBytesOf state.manifest.blocks + state.pendingBytes

/-- The next read fills a block that takes the terminal over its quota. -/
def Overflows (n : ℕ) (state : ArchiveState) : Prop :=
  defaultBlockBytes ≤ (state.pushRecord (noiseRecord n)).pendingBytes ∧
    OverQuota ((state.pushRecord (noiseRecord n)).listedAfterFlush storedCodec)

/-- The writes of a step are all made. -/
def Undisturbed (archive : Archive) (step : ArchiveStep) : Prop :=
  Clean archive step ∧ step.outcomes = []

theorem dataBytes_append (xs ys : List HistoryRecord) :
    dataBytes (xs ++ ys) = dataBytes xs + dataBytes ys := by
  simp [dataBytes]

theorem dataBytes_noiseRecords (n : ℕ) :
    dataBytes ((List.range n).map noiseRecord) = n * maxRecordBytes := by
  induction n with
  | zero => rfl
  | succ n ih =>
    rw [List.range_succ, List.map_append, dataBytes_append, ih]
    simp only [dataBytes, List.map_cons, List.map_nil, List.sum_cons, List.sum_nil,
      length_noiseRecord]
    ring

namespace Filled
variable {n : ℕ}

theorem checkAppend (h : Filled n archive state) :
    state.checkAppend (noiseRecord n) = .ok () := by
  have hlast : lastSequenceOf 0 archive.appended < (noiseRecord n).sequence := by
    rw [h.appended]
    cases n with
    | zero => simp [noiseRecord, maxRecordBytes]
    | succ n =>
      rw [List.range_succ, List.map_append, lastSequenceOf_append]
      simp [noiseRecord, maxRecordBytes]
  simp only [ArchiveState.checkAppend, h.opened, Option.isSome_none, Bool.false_eq_true, if_false,
    h.loaded.newest, if_neg (not_le.mpr hlast)]

/-- The pending records always fit into a block, which is not longer than the quota. -/
theorem encodes (h : Filled n archive state) (hn : n < 5000) :
    ∃ encoded, encodeRecords (state.pushRecord (noiseRecord n)).pending = .ok encoded ∧
      (state.pushRecord (noiseRecord n)).pendingBytes ≤ encoded.length ∧
      encoded.length ≤ maxTerminalBytes := by
  have hroom := h.room
  have hnoise := length_noiseRecord n
  have hpendingBytes : (state.pushRecord (noiseRecord n)).pendingBytes =
      dataBytes (state.pushRecord (noiseRecord n)).pending := by
    simp [ArchiveState.pushRecord, h.loaded.pendingBytes, dataBytes]
  have hordered : Ordered 0 (state.pushRecord (noiseRecord n)).pending := by
    obtain ⟨stored, old, hrecords, -, hordered, -⟩ := h.loaded.split
    have hnext := checkAppend_ok h.checkAppend
    rw [h.loaded.newest, hrecords, lastSequenceOf_append] at hnext
    have hpending := (ordered_append.mp hordered).2.weaken (Nat.zero_le _)
    refine ordered_append.mpr ⟨hpending, lt_of_le_of_lt ?_ hnext, noiseRecord_valid hn, trivial⟩
    by_cases hempty : state.pending = []
    · simp [hempty]
    · exact (lastSequenceOf_nonempty hempty _ _).le
  have hcount := length_le_dataBytes hordered
  have hbytes : (state.pushRecord (noiseRecord n)).pendingBytes =
      state.pendingBytes + maxRecordBytes := by
    simp [ArchiveState.pushRecord, hnoise]
  have hne : (state.pushRecord (noiseRecord n)).pending ≠ [] := by simp [ArchiveState.pushRecord]
  simp only [defaultBlockBytes, maxRecordBytes] at hroom hbytes
  have henc := encodeRecords_ok hordered hne (by simp only [maxBlockRecords]; omega)
  have hlength := length_encodeRecords hordered henc
  refine ⟨_, henc, ?_, ?_⟩
  · omega
  · simp only [blockHeaderBytes, recordHeaderBytes] at hlength
    rw [hlength, maxTerminalBytes]
    omega

theorem next (h : Filled n archive state) (hn : n < 5000) (hnot : ¬Overflows n state) :
    ∃ state', Filled (n + 1)
      (archive.append storedCodec defaultBlockBytes state (noiseRecord n) []) state' := by
  obtain ⟨encoded, henc, hlarge, hsmall⟩ := h.encodes hn
  have hvalid := noiseRecord_valid hn
  have happended : archive.appended ++ [noiseRecord n] = (List.range (n + 1)).map noiseRecord := by
    rw [List.range_succ, List.map_append, h.appended]
    rfl
  have htotal := h.total
  have hwithin := h.within
  have hbytes : (state.pushRecord (noiseRecord n)).pendingBytes =
      state.pendingBytes + (noiseRecord n).data.length := rfl
  have hdata : dataBytes (archive.appended ++ [noiseRecord n]) =
      dataBytes archive.appended + (noiseRecord n).data.length := by
    rw [dataBytes_append]
    simp [dataBytes]
  by_cases hfull : defaultBlockBytes ≤ (state.pushRecord (noiseRecord n)).pendingBytes
  · -- The block is flushed and nothing is evicted.
    have hover : ¬OverQuota ((state.pushRecord (noiseRecord n)).listedAfterFlush storedCodec) :=
      fun ho => hnot ⟨hfull, ho⟩
    have hlisted := ArchiveState.listedAfterFlush_ok storedCodec henc
    have hstored : storedBytesOf
        ((state.pushRecord (noiseRecord n)).flushed (storedCodec.compress encoded)).manifest.blocks =
        storedBytesOf state.manifest.blocks + encoded.length := by
      simp [storedBytesOf, ArchiveState.flushed, ArchiveState.pushBlock, ArchiveState.clearPending,
        ArchiveState.nextBlock, ArchiveState.pushRecord, storedCodec]
    have hquota : evictedOf ((state.pushRecord (noiseRecord n)).listedAfterFlush storedCodec)
        (storedBytesOf ((state.pushRecord (noiseRecord n)).listedAfterFlush storedCodec)) =
        ([], (state.pushRecord (noiseRecord n)).listedAfterFlush storedCodec) := by
      have hsplit := evictedOf_append
        ((state.pushRecord (noiseRecord n)).listedAfterFlush storedCodec)
        (storedBytesOf ((state.pushRecord (noiseRecord n)).listedAfterFlush storedCodec))
      have hgone := evictedOf_eq_nil.mpr hover
      rw [hgone, List.nil_append] at hsplit
      exact Prod.ext hgone hsplit
    obtain ⟨dropped, left, hmemory, happended', hsplit, hgone, hloaded⟩ :=
      append_full h.loaded hvalid h.checkAppend hfull henc hquota
    obtain rfl := (evicted_nil_iff hgone).mp rfl
    rw [List.nil_append] at hsplit
    rw [hlisted] at hover hmemory hloaded
    rw [ArchiveState.withBlocks_self rfl] at hmemory hloaded
    have hfits : storedBytesOf
        ((state.pushRecord (noiseRecord n)).flushed (storedCodec.compress encoded)).manifest.blocks ≤
        maxTerminalBytes := by
      by_contra hlong
      -- A single block is shorter than the quota.
      have hfew : ¬1 < ((state.pushRecord (noiseRecord n)).flushed
          (storedCodec.compress encoded)).manifest.blocks.length :=
        fun hmany => hover ⟨not_le.mp hlong, hmany⟩
      have hnone : state.manifest.blocks = [] := by
        have : state.manifest.blocks.length = 0 := by
          simpa [ArchiveState.flushed, ArchiveState.pushBlock, ArchiveState.clearPending,
            ArchiveState.pushRecord] using hfew
        exact List.length_eq_zero_iff.mp this
      rw [hstored, hnone] at hlong
      simp only [storedBytesOf, List.map_nil, List.sum_nil, Nat.zero_add] at hlong
      exact hlong hsmall
    refine ⟨_, hmemory, ?_, happended'.trans happended, h.opened, ?_, hfits, ?_⟩
    · rw [happended', hsplit]
      exact hloaded
    · simp [ArchiveState.flushed, ArchiveState.clearPending, defaultBlockBytes]
    · rw [happended', hdata, hstored]
      omega
  · obtain ⟨hmemory, happended', hloaded⟩ := append_room h.loaded hvalid h.checkAppend hfull
    refine ⟨_, hmemory, happended' ▸ hloaded, happended'.trans happended, h.opened, not_le.mp hfull,
      hwithin, ?_⟩
    rw [happended', hdata, hbytes]
    simp only [ArchiveState.pushRecord]
    omega

end Filled

theorem Filled.start : ∃ archive state,
    Machine.Path (Archive.machine storedCodec defaultBlockBytes "terminal-1") Undisturbed
      Archive.initial [.load []] archive ∧ Filled 0 archive state := by
  have hwhole : ¬MissingBlock Archive.initial.disk := by
    rintro ⟨manifest, hm, -⟩
    cases hm
  have hloaded : Recorded storedCodec "terminal-1" (Archive.initial.load "terminal-1" []) [] [] :=
    Recorded.initial.load rfl List.not_mem_nil hwhole
  refine ⟨_, _, .single ⟨⟨nofun, fun _ _ => hwhole⟩, rfl⟩ rfl, rfl, hloaded.held, rfl, rfl, ?_, ?_,
    ?_⟩
  · decide
  · decide
  · decide

/-- Reads that do not compress take a terminal over its quota sooner or later. -/
theorem exists_overflow : ∃ n steps archive state, n < 5000 ∧
    Machine.Path (Archive.machine storedCodec defaultBlockBytes "terminal-1") Undisturbed
      Archive.initial steps archive ∧ Filled n archive state ∧ Overflows n state := by
  by_contra hnever
  have hfilled : ∀ n ≤ 5000, ∃ steps archive state,
      Machine.Path (Archive.machine storedCodec defaultBlockBytes "terminal-1") Undisturbed
        Archive.initial steps archive ∧ Filled n archive state := by
    intro n
    induction n with
    | zero =>
      intro _
      obtain ⟨archive, state, hpath, h⟩ := Filled.start
      exact ⟨_, archive, state, hpath, h⟩
    | succ n ih =>
      intro hn
      obtain ⟨steps, archive, state, hpath, h⟩ := ih (by omega)
      have hnot : ¬Overflows n state := fun ho =>
        hnever ⟨n, steps, archive, state, hn, hpath, h, ho⟩
      obtain ⟨state', h'⟩ := h.next hn hnot
      refine ⟨_, _, state', hpath.append (.single (a := .append ⟨noiseRecord n, noiseRecord_valid hn⟩
        []) ⟨⟨nofun, nofun⟩, rfl⟩ ?_), h'⟩
      simp only [Archive.machine, Archive.step, h.memory, Option.map_some]
  obtain ⟨_, archive, state, -, h⟩ := hfilled 5000 (le_refl _)
  have htotal := h.total
  have hwithin := h.within
  have hroom := h.room
  rw [h.appended, dataBytes_noiseRecords] at htotal
  simp only [maxTerminalBytes, defaultBlockBytes, maxRecordBytes] at hwithin hroom htotal
  omega


/-! ### What is found again -/

/-- After any run whose writes do not fail, opening the archive again finds exactly the appended
records less those that the quota evicted, if the manifest lists no deleted block. -/
theorem recovers_appended {steps : List ArchiveStep}
    (hrun : Machine.Path (Archive.machine codec blockBytes terminalId) Clean Archive.initial steps
      archive) (hwhole : ¬MissingBlock archive.disk) :
    ∃ d state, (stateFor terminalId).run () [] archive.disk = (d, some (.ok state, ())) ∧
      contents codec d state = .ok (past archive.evictedThrough archive.appended) := by
  obtain ⟨evicted, records, h⟩ := Recorded.run hrun
  have hrecoverable : Recoverable codec terminalId archive.disk records :=
    h.held.stop.resolve_right hwhole
  obtain ⟨state, _, d, hran, hloaded⟩ | ⟨_, _, _, _, hf⟩ :=
    (meets_stateFor (s := ()) hrecoverable).completed [] List.not_mem_nil List.not_mem_nil
  · refine ⟨d, state, hran, ?_⟩
    rw [h.past_eq]
    exact hloaded.readable.contents
  · exact hf.elim

def firstRead : AppendCommand :=
  { record := { sequence := 1, data := [104] }
    valid := ⟨by decide, by decide, by decide⟩ }

def secondRead : AppendCommand :=
  { record := { sequence := 2, data := [105] }
    valid := ⟨by decide, by decide, by decide⟩ }

/-- The second append is stopped after two of its four writes. -/
def interruptedRun : List ArchiveStep :=
  [.load [], .append firstRead [], .append secondRead [.done, .done, .crashed]]

theorem recovers_appended_interrupted :
    ∃ archive d state, Machine.Path (Archive.machine storedCodec 524288 "terminal-1") Clean
        Archive.initial interruptedRun archive ∧
      (stateFor "terminal-1").run () [] archive.disk = (d, some (.ok state, ())) ∧
      contents storedCodec d state = .ok [firstRead.record] := by
  obtain ⟨archive, hrun, hindex, hleft⟩ : ∃ archive,
      Machine.Path (Archive.machine storedCodec 524288 "terminal-1") Clean Archive.initial
        interruptedRun archive ∧ blocksOf archive.disk.index = [] ∧
      past archive.evictedThrough archive.appended = [firstRead.record] := by
    refine ⟨_, .cons ⟨nofun, ?_⟩ rfl (.cons ⟨nofun, nofun⟩ rfl
      (.cons ⟨by decide, nofun⟩ rfl (.nil _))), rfl, rfl⟩
    rintro _ - ⟨manifest, hm, -⟩
    cases hm
  have hwhole : ¬MissingBlock archive.disk := by
    rintro ⟨manifest, hm, block, hb, -⟩
    rw [hm] at hindex
    simp only [blocksOf, Option.map_some, Option.getD_some] at hindex
    simp [hindex] at hb
  obtain ⟨d, state, hran, hcontents⟩ := recovers_appended hrun hwhole
  exact ⟨archive, d, state, hrun, hran, hleft ▸ hcontents⟩

/-- Every write is made and nothing stops, and yet not all that was appended is found again. -/
theorem appended_not_recovered : ∃ steps archive d state,
    Machine.Path (Archive.machine storedCodec defaultBlockBytes "terminal-1") Undisturbed
      Archive.initial steps archive ∧ ¬MissingBlock archive.disk ∧
    (stateFor "terminal-1").run () [] archive.disk = (d, some (.ok state, ())) ∧
    contents storedCodec d state ≠ .ok archive.appended := by
  obtain ⟨n, steps, archive, state, hn, hpath, h, hfull, hover⟩ := exists_overflow
  obtain ⟨encoded, henc, -, -⟩ := h.encodes hn
  obtain ⟨dropped, left, hmemory, happended, hsplit, hgone, hloaded⟩ :=
    append_full h.loaded (noiseRecord_valid hn) h.checkAppend hfull henc rfl
  have hdropped : dropped ≠ [] := fun hnil =>
    evictedOf_eq_nil.mp ((evicted_nil_iff hgone).mpr hnil) hover
  obtain ⟨found, _, d, hran, hfound⟩ | ⟨_, _, _, _, hf⟩ :=
    (meets_stateFor (s := ()) hloaded.recoverable).completed [] List.not_mem_nil List.not_mem_nil
  · refine ⟨_, _, d, found, hpath.append (.single (a := .append ⟨noiseRecord n, noiseRecord_valid hn⟩
      []) ⟨⟨nofun, nofun⟩, rfl⟩ ?_), hloaded.whole, hran, ?_⟩
    · simp only [Archive.machine, Archive.step, h.memory, Option.map_some]
    · rw [hfound.readable.contents, happended, hsplit]
      intro heq
      have := Except.ok.inj heq
      rw [List.self_eq_append_left] at this
      exact hdropped this
  · exact hf.elim

/-- Iterating pages forward from any cursor ends and gives the stored records past it, each once and
in order; iterating backward from the end gives all of them, the pages in reverse order. -/
theorem pages_exact {steps : List ArchiveStep}
    (hrun : Machine.Path (Archive.machine codec blockBytes terminalId) Clean Archive.initial steps
      archive) (hmemory : archive.memory = some state) (pageBytes : ℕ) (limits : ℕ → Option ℕ) :
    (∀ cursor, ∃ fuel pages groups,
      readForward codec pageBytes archive.disk state limits fuel 0 cursor = .ok (some pages) ∧
      groups.flatten = past cursor (past archive.evictedThrough archive.appended) ∧
      Ordered cursor groups.flatten ∧ List.Forall₂ Carries pages groups) ∧
    ∃ fuel pages groups forward,
      readBackward codec pageBytes archive.disk state limits fuel 0 0 = .ok (some pages) ∧
      readForward codec pageBytes archive.disk state limits fuel 0 0 = .ok (some forward) ∧
      groups.reverse.flatten = past archive.evictedThrough archive.appended ∧
      List.Forall₂ Carries pages groups ∧
      pages.reverse.flatMap (·.chunks) = forward.flatMap (·.chunks) := by
  obtain ⟨evicted, records, h⟩ := Recorded.run hrun
  have hloaded := h.held
  rw [hmemory] at hloaded
  have hreadable : Readable codec archive.disk state records := hloaded.readable
  have hforward := fun cursor => readForward_spec hreadable pageBytes limits 0 cursor
    (Nat.lt_succ_self (past cursor records).length)
  rw [h.past_eq]
  refine ⟨fun cursor => ?_, ?_⟩
  · obtain ⟨pages, groups, hpages, hgroups, hall⟩ := hforward cursor
    refine ⟨_, pages, groups, hpages, hgroups, ?_, hall⟩
    rw [hgroups]
    exact (hreadable.ordered.past cursor).1
  · have hwhole : past 0 records = records := past_eq_self fun _ hr => hreadable.ordered.lt_of_mem hr
    obtain ⟨forward, groups, hpages, hgroups, hall⟩ := hforward 0
    rw [hwhole] at hpages hgroups
    obtain ⟨pages, groups', hpages', hgroups', hall'⟩ := readBackward_spec hreadable pageBytes limits
      0 (List.append_nil records).symm (upTo_newest hreadable) (Nat.lt_succ_self records.length)
    refine ⟨_, pages, groups', forward, hpages', hpages, hgroups', hall', ?_⟩
    rw [chunks_of_carries hall, chunks_of_carries (List.forall₂_reverse_iff.mpr hall'), hgroups,
      hgroups']

theorem pages_exact_of_two_reads :
    ∃ archive state, Machine.Path (Archive.machine storedCodec 524288 "terminal-1") Clean
        Archive.initial [.load [], .append firstRead [], .append secondRead []] archive ∧
      archive.memory = some state ∧
      ∃ fuel pages groups, readForward storedCodec 524288 archive.disk state (fun _ => some 1) fuel 0
          1 = .ok (some pages) ∧ groups.flatten = [secondRead.record] ∧
        List.Forall₂ Carries pages groups := by
  obtain ⟨archive, state, hrun, hmemory, hleft⟩ : ∃ archive state,
      Machine.Path (Archive.machine storedCodec 524288 "terminal-1") Clean Archive.initial
        [.load [], .append firstRead [], .append secondRead []] archive ∧
      archive.memory = some state ∧
      past 1 (past archive.evictedThrough archive.appended) = [secondRead.record] := by
    refine ⟨_, _, .cons ⟨nofun, ?_⟩ rfl (.cons ⟨nofun, nofun⟩ rfl
      (.cons ⟨nofun, nofun⟩ rfl (.nil _))), rfl, rfl⟩
    rintro _ - ⟨manifest, hm, -⟩
    cases hm
  obtain ⟨fuel, pages, groups, hpages, hgroups, -, hall⟩ :=
    (pages_exact hrun hmemory 524288 fun _ => some 1).1 1
  exact ⟨archive, state, hrun, hmemory, fuel, pages, groups, hpages, hleft ▸ hgroups, hall⟩

end PiDeck.History
