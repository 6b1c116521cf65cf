import Mathlib
import PiDeck.History.Runs
import PiDeck.History.Paging

/-! Crash consistency. Wherever an operation stops, the directory is recoverable: its blocks and
what is left in its active segment past them are the records. Loading it gets exactly these. -/
namespace PiDeck.History
open PiDeck.Storage PiDeck.Transition

/-- The active segment holds the pending records, after records that are in blocks already. -/
inductive ActiveHolds (cut : ℕ) (pending : List HistoryRecord) (torn : Bytes)
    (active : Option Bytes) : Prop
  | empty (hempty : active.getD [] = []) (hpending : pending = []) :
      ActiveHolds cut pending torn active
  | records (old : List HistoryRecord) (hordered : Ordered 0 (old ++ pending))
      (hold : ∀ record ∈ old, record.sequence ≤ cut)
      (hactive : active = some (activeMagic ++ ((old ++ pending).flatMap encodeActive ++ torn))) :
      ActiveHolds cut pending torn active

/-- A directory from which exactly `records` are recovered. -/
structure Recoverable (codec : BlockCodec) (terminalId : String) (d : Directory)
    (records : List HistoryRecord) : Prop where
  ordered : Ordered 0 records
  own : ∀ manifest, d.index = some manifest →
    manifest.version = archiveVersion ∧ manifest.terminalId = terminalId
  split : ∃ stored pending torn, records = stored ++ pending ∧ Torn torn ∧
    HoldsBlocks codec d.files 0 (blocksOf d.index) stored ∧
    ActiveHolds (lastSequenceOf 0 stored) pending torn d.active

/-- A directory and the state of its archive in memory that hold `records`. -/
structure Loaded (codec : BlockCodec) (terminalId : String) (d : Directory) (state : ArchiveState)
    (records : List HistoryRecord) : Prop where
  ordered : Ordered 0 records
  present : d.present = true
  index : d.index = some state.manifest
  own : state.manifest.version = archiveVersion ∧ state.manifest.terminalId = terminalId
  pendingBytes : state.pendingBytes = (state.pending.map (·.data.length)).sum
  split : ∃ stored old, records = stored ++ state.pending ∧
    HoldsBlocks codec d.files 0 state.manifest.blocks stored ∧
    Ordered 0 (old ++ state.pending) ∧ (∀ record ∈ old, record.sequence ≤ lastSequenceOf 0 stored) ∧
    d.active = some (activeMagic ++ (old ++ state.pending).flatMap encodeActive)

variable {codec : BlockCodec} {terminalId : String} {d : Directory} {state : ArchiveState}
  {records : List HistoryRecord}

theorem Loaded.recoverable (h : Loaded codec terminalId d state records) :
    Recoverable codec terminalId d records := by
  obtain ⟨stored, old, hrecords, hstored, hordered, hold, hactive⟩ := h.split
  refine ⟨h.ordered, fun manifest hm => ?_, stored, state.pending, [], hrecords, torn_nil, ?_, ?_⟩
  · obtain rfl := Option.some.inj (h.index.symm.trans hm)
    exact h.own
  · simpa [h.index, blocksOf] using hstored
  · exact .records old hordered hold (by rw [hactive, List.append_nil])

theorem Loaded.readable (h : Loaded codec terminalId d state records) :
    Readable codec d state records := by
  obtain ⟨stored, old, hrecords, hstored, -⟩ := h.split
  exact ⟨h.ordered, stored, hstored, hrecords⟩

/-! ### Loading -/

theorem length_le_flatMap_encodeActive (records : List HistoryRecord) :
    records.length ≤ (records.flatMap encodeActive).length := by
  induction records with
  | nil => exact le_refl _
  | cons record records ih =>
    rw [List.flatMap_cons, List.length_append, length_encodeActive, List.length_cons]
    simp only [activeRecordHeaderBytes]
    omega

theorem Directory.withActive_self {bytes : Bytes} (h : d.active = some bytes) :
    d.withActive bytes = d := by
  obtain ⟨_, _, _, _, _⟩ := d
  cases h
  rfl

/-- Recovery drops the records that are in blocks already and cuts a torn record off. -/
theorem meets_recoverActive {S : Type} {s : S} {crash : Directory → Prop} {cut : ℕ}
    {old pending : List HistoryRecord} {torn : Bytes}
    {ok : List HistoryRecord → S → Directory → Prop} {err : HistoryError → S → Directory → Prop}
    (hordered : Ordered 0 (old ++ pending)) (hold : ∀ record ∈ old, record.sequence ≤ cut)
    (hpending : ∀ record ∈ pending, cut < record.sequence) (htorn : Torn torn)
    (hactive : d.active = some (activeMagic ++ ((old ++ pending).flatMap encodeActive ++ torn)))
    (hcrash : crash d)
    (htruncated : crash (d.withActive (activeMagic ++ (old ++ pending).flatMap encodeActive)))
    (hok : ok pending s (d.withActive (activeMagic ++ (old ++ pending).flatMap encodeActive))) :
    Action.Meets False crash (recoverActive
      (activeMagic ++ ((old ++ pending).flatMap encodeActive ++ torn)) cut) s d ok err := by
  have hscan : scanActive
      (activeMagic ++ ((old ++ pending).flatMap encodeActive ++ torn)).length 0
      ((activeMagic ++ ((old ++ pending).flatMap encodeActive ++ torn)).drop activeMagic.length) =
      (old ++ pending, torn) := by
    rw [List.drop_left]
    refine scanActive_append hordered htorn ?_
    have := length_le_flatMap_encodeActive (old ++ pending)
    simp only [List.length_append] at this ⊢
    omega
  have hheader : ¬((activeMagic ++ ((old ++ pending).flatMap encodeActive ++ torn)).length <
      activeMagic.length ∨ (activeMagic ++ ((old ++ pending).flatMap encodeActive ++ torn)).take
        activeMagic.length ≠ activeMagic) := by
    rw [List.take_left, List.length_append]
    simp
  have hkept : (old ++ pending).filter (fun record => decide (cut < record.sequence)) =
      pending := by
    rw [List.filter_append, List.filter_eq_nil_iff.mpr, List.filter_eq_self.mpr, List.nil_append]
    · intro record hr
      simpa using hpending record hr
    · intro record hr
      simpa using hold record hr
  have hcut : (activeMagic ++ ((old ++ pending).flatMap encodeActive ++ torn)).take
      ((activeMagic ++ ((old ++ pending).flatMap encodeActive ++ torn)).length - torn.length) =
      activeMagic ++ (old ++ pending).flatMap encodeActive := by
    rw [← List.append_assoc, List.length_append, Nat.add_sub_cancel, List.take_left]
  simp only [recoverActive, attempt, Action.meets_bind, Action.meets_step, if_neg hheader, hscan,
    hkept, hcut]
  refine ⟨hcrash, ?_, False.elim⟩
  by_cases hnil : torn = []
  · subst hnil
    rw [List.append_nil] at hactive
    rw [Directory.withActive_self hactive] at hok
    simpa using hok
  · simp only [if_neg hnil, Action.meets_bind, Action.meets_step, Action.meets_pure]
    exact ⟨hcrash, ⟨htruncated, hok, False.elim⟩, False.elim⟩

/-- Opening an active segment finds the pending records, wherever a crash has left it. -/
theorem meets_openActiveSegment {S : Type} {s : S} {crash : Directory → Prop} {cut : ℕ}
    {pending : List HistoryRecord} {torn : Bytes} {ok : List HistoryRecord → S → Directory → Prop}
    {err : HistoryError → S → Directory → Prop} (hholds : ActiveHolds cut pending torn d.active)
    (htorn : Torn torn) (hpending : ∀ record ∈ pending, cut < record.sequence)
    (hcrash : ∀ torn' active, Torn torn' → ActiveHolds cut pending torn' active →
      crash { d with active := active })
    (hok : ∀ old, Ordered 0 (old ++ pending) → (∀ record ∈ old, record.sequence ≤ cut) →
      ok pending s (d.withActive (activeMagic ++ (old ++ pending).flatMap encodeActive))) :
    Action.Meets False crash (openActiveSegment cut) s d ok err := by
  have hhere : crash d := hcrash torn d.active htorn hholds
  have hcomplete : ∀ old, Ordered 0 (old ++ pending) → (∀ record ∈ old, record.sequence ≤ cut) →
      crash (d.withActive (activeMagic ++ (old ++ pending).flatMap encodeActive)) := by
    intro old hordered hold
    exact hcrash [] _ torn_nil (.records old hordered hold (by rw [List.append_nil]))
  simp only [openActiveSegment, Action.meets_bind, Action.meets_step, Action.meets_inspect]
  refine ⟨hhere, ?_, False.elim⟩
  obtain ⟨hempty, hnone⟩ | ⟨old, hordered, hold, hactive⟩ := hholds
  · subst hnone
    have hnew := hcomplete [] trivial (by simp)
    have hdone := hok [] trivial (by simp)
    have hcreated : crash { d with active := some [] } :=
      hcrash torn _ htorn (.empty rfl rfl)
    simp only [hempty, Option.getD_some, if_true, writeActive, attempt, Action.meets_bind,
      Action.meets_step, Action.meets_pure]
    refine ⟨hcreated, ⟨?_, ?_, False.elim⟩, False.elim⟩
    · simpa [Directory.withActive] using hnew
    · simpa [Directory.withActive] using hdone
  · have hne : activeMagic ++ ((old ++ pending).flatMap encodeActive ++ torn) ≠ [] := by
      simp [activeMagic, asciiBytes]
    have hsame := Directory.withActive_self hactive
    simp only [Directory.withActive] at hsame
    simp only [hactive, Option.getD_some, if_neg hne, hsame]
    exact meets_recoverActive hordered hold hpending htorn hactive hhere (hcomplete old hordered hold)
      (hok old hordered hold)

/-- Loading a recoverable directory gets its records; stopped anywhere, it leaves it recoverable. -/
theorem meets_stateFor {S : Type} {s : S} (h : Recoverable codec terminalId d records) :
    Action.Meets False (Recoverable codec terminalId · records) (stateFor terminalId) s d
      (fun state _ d' => Loaded codec terminalId d' state records) (fun _ _ _ => False) := by
  obtain ⟨stored, pending, torn, hrecords, htorn, hstored, hholds⟩ := h.split
  have hpending : ∀ record ∈ pending, lastSequenceOf 0 stored < record.sequence := by
    intro record hr
    have hordered := h.ordered
    rw [hrecords] at hordered
    exact (ordered_append.mp hordered).2.lt_of_mem hr
  -- Whatever the manifest, once it lists the blocks only the active segment is left.
  have opened : ∀ (d' : Directory) (manifest : ArchiveManifest), d'.present = true →
      d'.files = d.files → d'.active = d.active → d'.index = some manifest →
      manifest.version = archiveVersion → manifest.terminalId = terminalId →
      manifest.blocks = blocksOf d.index →
      Action.Meets False (Recoverable codec terminalId · records)
        (openActiveSegment (manifest.lastSequence 0)) s d'
        (fun pending' _ d' => Loaded codec terminalId d'
          { manifest := manifest
            pending := pending'
            pendingBytes := (pending'.map (·.data.length)).sum } records)
        (fun _ _ _ => False) := by
    intro d' manifest hpresent hfiles hactive hindex hversion hid hblocks
    have hheld : HoldsBlocks codec d'.files 0 manifest.blocks stored := by
      rw [hblocks, hfiles]
      exact hstored
    have hcut : manifest.lastSequence 0 = lastSequenceOf 0 stored :=
      hheld.lastOfBlocks_eq 0
    rw [hcut]
    rw [← hactive] at hholds
    refine meets_openActiveSegment hholds htorn hpending ?_ ?_
    · intro torn' active htorn' hholds'
      refine ⟨h.ordered, fun found hf => ?_, stored, pending, torn', hrecords, htorn', ?_, hholds'⟩
      · obtain rfl := Option.some.inj (hf.symm.trans hindex)
        exact ⟨hversion, hid⟩
      · simpa [hindex, blocksOf] using hheld
    · intro old hordered hold
      exact ⟨h.ordered, hpresent, hindex, ⟨hversion, hid⟩, rfl, stored, old, hrecords, hheld,
        hordered, hold, rfl⟩
  have hcreated : Recoverable codec terminalId { d with present := true } records :=
    ⟨h.ordered, h.own, h.split⟩
  simp only [stateFor, Action.meets_bind, Action.meets_step, readManifest, Action.meets_inspect]
  refine ⟨h, ?_, False.elim⟩
  cases hindex : d.index with
  | some manifest =>
    obtain ⟨hversion, hid⟩ := h.own manifest hindex
    simp only [Option.isSome_some, if_true, attempt, Action.meets_bind, Action.meets_step,
      Action.meets_pure, loadManifest, if_pos hversion, hid, ne_eq, not_true_eq_false, if_false]
    rw [hindex] at hcreated
    refine ⟨hcreated, ?_, False.elim⟩
    exact opened _ manifest rfl rfl rfl rfl hversion hid (by rw [hindex]; rfl)
  | none =>
    have hblocks : (newManifest terminalId).blocks = blocksOf d.index := by
      rw [hindex]
      rfl
    rw [hindex] at hcreated
    simp only [Option.isSome_none, Bool.false_eq_true, if_false, Action.meets_pure, loadManifest,
      Action.meets_bind, meets_writeManifestValue, newManifest, ne_eq, not_true_eq_false]
    refine ⟨hcreated, ⟨⟨h.ordered, fun _ hm => ?_, hcreated.split⟩, ?_, False.elim⟩, False.elim⟩
    · cases hm
    · exact opened _ (newManifest terminalId) rfl rfl rfl rfl rfl rfl hblocks

/-! ### Appending -/

/-- The pieces of a record are written one after the other at the end of the segment. -/
theorem meets_writePieces {S : Type} {s : S} {crash : Directory → Prop}
    {ok : Unit → S → Directory → Prop} {err : HistoryError → S → Directory → Prop}
    {pieces : List Bytes} {bytes : Bytes} (hactive : d.active = some bytes)
    (hcrash : ∀ written left, pieces = written ++ left → left ≠ [] →
      crash (d.withActive (bytes ++ written.flatten)))
    (hok : ok () s (d.withActive (bytes ++ pieces.flatten))) :
    Action.Meets False crash (writePieces pieces) s d ok err := by
  induction pieces generalizing d bytes with
  | nil =>
    rw [List.flatten_nil, List.append_nil, Directory.withActive_self hactive] at hok
    exact hok
  | cons piece pieces ih =>
    have hhere := hcrash [] (piece :: pieces) rfl (by simp)
    rw [List.flatten_nil, List.append_nil, Directory.withActive_self hactive] at hhere
    simp only [writePieces, writeActive, Action.meets_bind, Action.meets_step, hactive,
      Option.getD_some]
    refine ⟨hhere, ih rfl (fun written left hsplit hne => ?_) ?_, False.elim⟩
    · have := hcrash (piece :: written) left (by rw [hsplit, List.cons_append]) hne
      simpa [Directory.withActive] using this
    · simpa [Directory.withActive] using hok

theorem torn_of_pieces {record : HistoryRecord} (hvalid : record.Valid) {written left : List Bytes}
    (hsplit : activeRecordPieces record.sequence record.data = written ++ left) (hne : left ≠ []) :
    Torn written.flatten := by
  have hbytes : encodeActive record = written.flatten ++ left.flatten := by
    rw [encodeActive, hsplit, List.flatten_append]
  refine ⟨record, hvalid, ⟨left.flatten, hbytes.symm⟩, fun heq => ?_⟩
  -- Every piece has bytes.
  have hnil : left.flatten = [] := by simpa [← heq] using hbytes
  obtain ⟨piece, left, rfl⟩ := List.exists_cons_of_ne_nil hne
  have hpiece : piece ∈ activeRecordPieces record.sequence record.data := by simp [hsplit]
  have hempty : piece = [] := by
    rw [List.flatten_cons, List.append_eq_nil_iff] at hnil
    exact hnil.1
  subst hempty
  simp [activeRecordPieces, toBigEndian, hvalid.nonempty.symm] at hpiece

theorem Loaded.newest (h : Loaded codec terminalId d state records) :
    state.newest 0 = lastSequenceOf 0 records := h.readable.newest 0

/-- An append makes its record durable; stopped before that, it leaves what was there. -/
theorem meets_appendRecord (h : Loaded codec terminalId d state records) {record : HistoryRecord}
    (hvalid : record.Valid) (hnext : lastSequenceOf 0 records < record.sequence) :
    Action.Meets False (Recoverable codec terminalId · records) (appendRecord record) state d
      (fun _ state' d' => state' = state.pushRecord record ∧
        Loaded codec terminalId d' state' (records ++ [record]))
      (fun _ _ _ => False) := by
  obtain ⟨stored, old, hrecords, hstored, hordered, hold, hactive⟩ := h.split
  have happended : Ordered 0 (records ++ [record]) :=
    ordered_append.mpr ⟨h.ordered, hnext, hvalid, trivial⟩
  have hsegment : Ordered 0 (old ++ (state.pending ++ [record])) := by
    rw [← List.append_assoc]
    refine ordered_append.mpr ⟨hordered, ?_, hvalid, trivial⟩
    -- The old records end at or before the last of all records.
    refine lt_of_le_of_lt ?_ hnext
    rw [hrecords, lastSequenceOf_append, lastSequenceOf_append]
    cases hpending : state.pending with
    | nil =>
      cases hlast : old.getLast? with
      | none => simp [lastSequenceOf, hlast]
      | some last =>
        have := hold last (List.mem_of_getLast? hlast)
        simpa [lastSequenceOf, hlast] using this
    | cons first pending => simp
  simp only [appendRecord, appendActiveRecord, Action.meets_bind, Action.meets_modifyState]
  refine meets_writePieces hactive (fun written left hsplit hne => ?_) ⟨rfl, ?_⟩
  · refine ⟨h.ordered, h.recoverable.own, stored, state.pending, written.flatten, hrecords,
      torn_of_pieces hvalid hsplit hne, ?_, .records old hordered hold ?_⟩
    · have := hstored
      rw [Directory.withActive]
      simpa [h.index, blocksOf] using this
    · simp [Directory.withActive]
  · refine ⟨happended, h.present, h.index, h.own, ?_, stored, old, ?_, hstored, hsegment, hold, ?_⟩
    · simp [ArchiveState.pushRecord, h.pendingBytes]
    · rw [hrecords, List.append_assoc]
      rfl
    · simp [Directory.withActive, ArchiveState.pushRecord, encodeActive]

/-! ### Flushing -/

theorem temporaryFile_free {files : BlockFiles} {start : ℕ} {blocks : List ArchiveBlock}
    {stored : List HistoryRecord} (h : HoldsBlocks codec files start blocks stored) (file : String)
    (value : Option Bytes) :
    HoldsBlocks codec (Function.update files (temporaryFile file) value) start blocks stored := by
  refine h.congr fun block hb => Function.update_of_ne ?_ ..
  obtain ⟨from', own, -, hheld⟩ := h.mem hb
  rw [hheld.name]
  exact (temporaryFile_ne file _ _).symm

/-- A block of later records leaves the blocks before it alone. -/
theorem newBlock_free {files : BlockFiles} {start : ℕ} {blocks : List ArchiveBlock}
    {stored : List HistoryRecord} (h : HoldsBlocks codec files start blocks stored) {first : ℕ}
    (hlt : lastOfBlocks start blocks < first) (last : ℕ) (value : Option Bytes) :
    HoldsBlocks codec (Function.update files (blockFile first last) value) start blocks stored :=
  h.congr fun _ hb => Function.update_of_ne (h.file_ne hlt hb) ..

/-- The directory with the block of the pending records published still holds the blocks before. -/
theorem holdsBlocks_published (compressed : Bytes) {stored : List HistoryRecord}
    (hstored : HoldsBlocks codec d.files 0 state.manifest.blocks stored)
    (hordered : Ordered 0 (stored ++ state.pending)) (hne : state.pending ≠ []) :
    HoldsBlocks codec (publishedDisk state d compressed).files 0 state.manifest.blocks stored := by
  have hlt : lastOfBlocks 0 state.manifest.blocks < firstSequenceOf state.pending := by
    obtain ⟨record, hr, heq⟩ := firstSequenceOf_mem hne
    rw [← heq, ← hstored.ordered.2]
    exact (ordered_append.mp hordered).2.lt_of_mem hr
  exact temporaryFile_free (newBlock_free hstored hlt _ _) _ _

/-- Once the block is listed, the blocks hold the pending records too. -/
theorem holdsBlocks_committed {stored : List HistoryRecord} {encoded : Bytes}
    (hstored : HoldsBlocks codec d.files 0 state.manifest.blocks stored)
    (hordered : Ordered 0 (stored ++ state.pending)) (hne : state.pending ≠ [])
    (henc : encodeRecords state.pending = .ok encoded) :
    HoldsBlocks codec (publishedDisk state d (codec.compress encoded)).files 0
      (state.manifest.blocks ++ [state.nextBlock (codec.compress encoded)])
      (stored ++ state.pending) := by
  refine (holdsBlocks_published _ hstored hordered hne).append
    ⟨hne, ?_, rfl, rfl, rfl, encoded, henc, ?_, rfl⟩
  · rw [← hstored.ordered.2]
    exact (ordered_append.mp hordered).2
  · have hne' : (state.nextBlock (codec.compress encoded)).file ≠
        temporaryFile (state.nextBlock (codec.compress encoded)).file :=
      (temporaryFile_ne _ _ _).symm
    simp only [publishedDisk, Directory.withBlock]
    rw [Function.update_of_ne hne']
    exact Function.update_self ..

/-- A flush moves the pending records into a block; stopped anywhere, it leaves all records. The
segment still holds them after the block is listed, and recovery tells them from pending ones by the
last sequence of the blocks. -/
theorem meets_flush (h : Loaded codec terminalId d state records) (hne : state.pending ≠ [])
    {encoded : Bytes} (henc : encodeRecords state.pending = .ok encoded) :
    Action.Meets False (fun d' => Recoverable codec terminalId d' records ∧
        (blocksOf d'.index = state.manifest.blocks ∨
          blocksOf d'.index = (state.flushed (codec.compress encoded)).manifest.blocks))
      (flushState codec) state d
      (fun _ state' d' => state' = state.flushed (codec.compress encoded) ∧
        Loaded codec terminalId d' state' records)
      (fun _ _ _ => False) := by
  obtain ⟨stored, old, hrecords, hstored, hordered, hold, hactive⟩ := h.split
  have hall : Ordered 0 (stored ++ state.pending) := hrecords ▸ h.ordered
  have hpublished := holdsBlocks_published (codec.compress encoded) hstored hall hne
  have hcommitted := holdsBlocks_committed hstored hall hne henc
  have hsegment : ActiveHolds (lastSequenceOf 0 stored) state.pending [] d.active :=
    .records old hordered hold (by rw [hactive, List.append_nil])
  have hindex : blocksOf d.index = state.manifest.blocks := by
    rw [h.index]
    rfl
  have howned := h.recoverable.own
  -- After the commit every record of the segment is in a block.
  have hstale : ∀ record ∈ old ++ state.pending,
      record.sequence ≤ lastSequenceOf 0 (stored ++ state.pending) := by
    intro record hr
    obtain hr | hr := List.mem_append.mp hr
    · refine (hold record hr).trans ?_
      rw [lastSequenceOf_append]
      exact (ordered_append.mp hall).2.start_le
    · exact hall.le_last (List.mem_append_right _ hr)
  have hcleared : ∀ active, ActiveHolds (lastSequenceOf 0 (stored ++ state.pending)) [] [] active →
      Recoverable codec terminalId
        { committedDisk state d (codec.compress encoded) with active := active } records := by
    intro active hholds
    refine ⟨h.ordered, fun manifest hm => ?_, stored ++ state.pending, [], [], ?_, torn_nil,
      hcommitted, hholds⟩
    · obtain rfl := Option.some.inj hm
      exact h.own
    · rw [hrecords, List.append_nil]
  refine (meets_flushState h.present hne henc rfl).mpr ⟨?_, ?_, rfl, ?_⟩
  · simp only [uncommittedDisks, List.forall_mem_cons, List.not_mem_nil, false_implies,
      implies_true, and_true]
    refine ⟨⟨h.recoverable, .inl hindex⟩, ⟨⟨h.ordered, howned, ?_⟩, .inl hindex⟩,
      ⟨⟨h.ordered, howned, ?_⟩, .inl hindex⟩, ⟨h.ordered, howned, ?_⟩, .inl hindex⟩
    · refine ⟨stored, state.pending, [], hrecords, torn_nil, ?_, hsegment⟩
      have := temporaryFile_free hstored (state.nextBlock (codec.compress encoded)).file
        (some (codec.compress encoded))
      rw [← hindex] at this
      exact this
    · rw [← hindex] at hpublished
      exact ⟨stored, state.pending, [], hrecords, torn_nil, hpublished, hsegment⟩
    · rw [← hindex] at hpublished
      exact ⟨stored, state.pending, [], hrecords, torn_nil, hpublished, hsegment⟩
  · simp only [committedDisks, List.forall_mem_cons, List.not_mem_nil, false_implies,
      implies_true, and_true]
    refine ⟨⟨?_, .inr rfl⟩, ⟨?_, .inr rfl⟩, ?_, .inr rfl⟩
    · refine hcleared d.active (.records (old ++ state.pending) (by simpa using hordered) hstale ?_)
      rw [hactive, List.append_nil, List.append_nil]
    · exact hcleared _ (.empty rfl rfl)
    · exact hcleared _ (.records [] trivial (by simp) rfl)
  · refine ⟨h.ordered, h.present, rfl, h.own, rfl, stored ++ state.pending, [], ?_, hcommitted,
      trivial, by simp, rfl⟩
    rw [hrecords]
    exact (List.append_nil _).symm

/-! ### The quota -/

theorem HoldsBlocks.split {files : BlockFiles} {start : ℕ} {gone kept : List ArchiveBlock}
    {stored : List HistoryRecord} (h : HoldsBlocks codec files start (gone ++ kept) stored) :
    ∃ dropped rest, stored = dropped ++ rest ∧ HoldsBlocks codec files start gone dropped ∧
      HoldsBlocks codec files (lastOfBlocks start gone) kept rest := by
  induction gone generalizing start stored with
  | nil => exact ⟨[], stored, rfl, rfl, h⟩
  | cons block gone ih =>
    obtain ⟨own, rest, rfl, hown, hrest⟩ := h
    obtain ⟨dropped, rest, rfl, hdropped, hkept⟩ := ih hrest
    refine ⟨own ++ dropped, rest, (List.append_assoc ..).symm, ⟨own, dropped, rfl, hown, hdropped⟩, ?_⟩
    rwa [lastOfBlocks_cons]

theorem HoldsBlocks.ne_nil {files : BlockFiles} {start : ℕ} {blocks : List ArchiveBlock}
    {stored : List HistoryRecord} (h : HoldsBlocks codec files start blocks stored)
    (hne : blocks ≠ []) : stored ≠ [] := by
  cases blocks with
  | nil => exact absurd rfl hne
  | cons block blocks =>
    obtain ⟨own, rest, rfl, hown, -⟩ := h
    simp [hown.nonempty]

/-- Deleting the files of the oldest blocks leaves the files of the others. -/
theorem HoldsBlocks.without {start : ℕ} {gone kept : List ArchiveBlock}
    {dropped rest : List HistoryRecord} (hgone : HoldsBlocks codec d.files start gone dropped)
    (hkept : HoldsBlocks codec d.files (lastOfBlocks start gone) kept rest) :
    HoldsBlocks codec (d.without gone).files (lastOfBlocks start gone) kept rest := by
  refine hkept.congr fun block hb => Directory.without_files_of_ne fun other ho => ?_
  obtain ⟨from', own, hle, hheld⟩ := hkept.mem hb
  rw [hheld.name]
  exact (hgone.file_ne (hle.trans_lt hheld.start_lt) ho).symm

/-- The quota drops the records of the oldest blocks. Stopped after it has deleted the file of a
block, it leaves a manifest that still lists the block. -/
theorem meets_quota (h : Loaded codec terminalId d state records) {gone kept : List ArchiveBlock}
    (hquota : evictedOf state.manifest.blocks (storedBytesOf state.manifest.blocks) =
      (gone, kept)) :
    Action.Meets False (fun d' => (Recoverable codec terminalId d' records ∨ MissingBlock d') ∧
        blocksOf d'.index = state.manifest.blocks)
      enforceTerminalQuota state d
      (fun _ state' d' => state' = state.withBlocks kept ∧ ∃ dropped left,
        records = dropped ++ left ∧ (left = [] → dropped = []) ∧
        (∀ e, lastOfBlocks e gone = lastSequenceOf e dropped) ∧
        Loaded codec terminalId d' state' left)
      (fun _ _ _ => False) := by
  obtain ⟨stored, old, hrecords, hstored, hordered, hold, hactive⟩ := h.split
  have hblocks : gone ++ kept = state.manifest.blocks := by
    have := evictedOf_append state.manifest.blocks (storedBytesOf state.manifest.blocks)
    rwa [hquota] at this
  have hindex : blocksOf d.index = state.manifest.blocks := by
    rw [h.index]
    rfl
  -- A deleted file is that of a listed block.
  have hmissing : ∀ deleted others, state.manifest.blocks = deleted ++ others → deleted ≠ [] →
      ∀ temporary, MissingBlock { d.without deleted with indexTemporary := temporary } := by
    intro deleted others hsplit hne temporary
    obtain ⟨block, deleted, rfl⟩ := List.exists_cons_of_ne_nil hne
    exact ⟨state.manifest, h.index, block, by simp [hsplit],
      Directory.without_files_of_mem List.mem_cons_self⟩
  have hstopped : ∀ deleted others temporary, state.manifest.blocks = deleted ++ others →
      Recoverable codec terminalId { d.without deleted with indexTemporary := temporary } records ∨
        MissingBlock { d.without deleted with indexTemporary := temporary } := by
    intro deleted others temporary hsplit
    by_cases hne : deleted = []
    · subst hne
      exact .inl ⟨h.recoverable.ordered, h.recoverable.own, h.recoverable.split⟩
    · exact .inr (hmissing deleted others hsplit hne temporary)
  refine meets_enforceTerminalQuota (fun deleted others hsplit => ?_) (fun gone' kept' hq => ?_)
    False.elim
  · exact ⟨hstopped deleted others d.indexTemporary hsplit, hindex⟩
  · obtain ⟨rfl, rfl⟩ : gone' = gone ∧ kept' = kept := by simpa [hquota] using hq.symm
    refine ⟨⟨hstopped _ _ _ hblocks.symm, hindex⟩, ⟨rfl, ?_⟩, False.elim⟩
    rw [← hblocks] at hstored
    obtain ⟨dropped, rest, hsplit, hdropped, hkept⟩ := hstored.split
    have hall := h.ordered
    rw [hrecords, hsplit, List.append_assoc] at hall
    -- Some block is kept, so the last record stays.
    have hsome : dropped ≠ [] → rest ≠ [] := by
      intro hne
      have hblocksNe : state.manifest.blocks ≠ [] := by
        intro hempty
        obtain ⟨rfl, -⟩ := List.append_eq_nil_iff.mp (hblocks.trans hempty)
        exact hne hdropped
      have hkeptNe := evictedOf_kept_ne hblocksNe (storedBytesOf state.manifest.blocks)
      rw [hquota] at hkeptNe
      exact hkept.ne_nil hkeptNe
    refine ⟨dropped, rest ++ state.pending, by rw [hrecords, hsplit, List.append_assoc],
      ?_, hdropped.lastOfBlocks_eq, ?_⟩
    · intro hnil
      by_contra hne
      exact hsome hne (List.append_eq_nil_iff.mp hnil).1
    · have hlast : lastSequenceOf 0 stored = lastSequenceOf 0 rest := by
        by_cases hnone : dropped = []
        · rw [hsplit, hnone, List.nil_append]
        · rw [hsplit, lastSequenceOf_append]
          exact lastSequenceOf_nonempty (hsome hnone) _ _
      refine ⟨(ordered_append.mp hall).2.weaken (Nat.zero_le _), h.present, rfl, h.own,
        h.pendingBytes, rest, old, rfl, ?_, hordered, ?_, hactive⟩
      · exact (hdropped.without hkept).weaken (Nat.zero_le _)
      · rwa [← hlast]

/-! ### What a flush evicts -/

section Evicted
variable {e : ℕ} {gone kept : List ArchiveBlock}

theorem evictedAfter_kept
    (hquota : evictedOf (state.listedAfterFlush codec)
      (storedBytesOf (state.listedAfterFlush codec)) = (gone, kept))
    (h : blocksOf d.index = kept) : evictedAfter codec state d e = lastOfBlocks e gone := by
  simp only [evictedAfter, hquota, if_pos h]

/-- Nothing is evicted while the manifest lists all blocks. -/
theorem evictedAfter_listed (h : blocksOf d.index = state.listedAfterFlush codec) :
    evictedAfter codec state d e = e := by
  have hsplit := evictedOf_append (state.listedAfterFlush codec)
    (storedBytesOf (state.listedAfterFlush codec))
  simp only [evictedAfter]
  split
  · rename_i hkept
    rw [← h.symm.trans hkept, List.append_left_eq_self] at hsplit
    rw [hsplit, lastOfBlocks_nil]
  · rfl

/-- Nothing is evicted before the new block is listed. -/
theorem evictedAfter_before {block : ArchiveBlock}
    (hlisted : state.listedAfterFlush codec = state.manifest.blocks ++ [block])
    (hnew : block ∉ state.manifest.blocks) (h : blocksOf d.index = state.manifest.blocks) :
    evictedAfter codec state d e = e := by
  have hsplit := evictedOf_append (state.listedAfterFlush codec)
    (storedBytesOf (state.listedAfterFlush codec))
  have hsome : state.listedAfterFlush codec ≠ [] := by simp [hlisted]
  have hne := evictedOf_kept_ne hsome (storedBytesOf (state.listedAfterFlush codec))
  simp only [evictedAfter]
  split
  · rename_i hkept
    -- What is kept ends in the new block.
    have hlast := congrArg List.getLast? hsplit
    rw [List.getLast?_append_of_ne_nil _ hne, ← hkept, h] at hlast
    simp only [hlisted, List.getLast?_append, List.getLast?_singleton, Option.some_or] at hlast
    exact absurd (List.mem_of_getLast? hlast) hnew
  · rfl

end Evicted

theorem ArchiveState.listedAfterFlush_error {error : HistoryError}
    (h : encodeRecords state.pending = .error error) :
    state.listedAfterFlush codec = state.manifest.blocks := by
  simp only [listedAfterFlush, h]

theorem ArchiveState.listedAfterFlush_ok (codec : BlockCodec) {encoded : Bytes}
    (h : encodeRecords state.pending = .ok encoded) :
    state.listedAfterFlush codec = (state.flushed (codec.compress encoded)).manifest.blocks := by
  simp only [listedAfterFlush, h]
  rfl

theorem nextBlock_not_mem {compressed : Bytes} (h : Loaded codec terminalId d state records)
    (hne : state.pending ≠ []) : state.nextBlock compressed ∉ state.manifest.blocks := by
  obtain ⟨stored, old, hrecords, hstored, -⟩ := h.split
  intro hmem
  obtain ⟨record, hr, heq⟩ := firstSequenceOf_mem hne
  have hall : Ordered 0 (stored ++ state.pending) := hrecords ▸ h.ordered
  have hlt : lastOfBlocks 0 state.manifest.blocks < firstSequenceOf state.pending := by
    rw [← heq, ← hstored.ordered.2]
    exact (ordered_append.mp hall).2.lt_of_mem hr
  exact hstored.file_ne hlt hmem rfl

/-- The quota as it follows a flush of `before`, whose blocks it finds. -/
theorem meets_quota_after {before : ArchiveState} (h : Loaded codec terminalId d state records)
    (hlisted : before.listedAfterFlush codec = state.manifest.blocks) :
    Action.Meets False (fun d' => (Recoverable codec terminalId d' records ∨ MissingBlock d') ∧
        ∀ e, evictedAfter codec before d' e = e)
      enforceTerminalQuota state d
      (fun _ state' d' => ∃ dropped left, records = dropped ++ left ∧ (left = [] → dropped = []) ∧
        (∀ e, evictedAfter codec before d' e = lastSequenceOf e dropped) ∧
        Loaded codec terminalId d' state' left)
      (fun _ _ _ => False) := by
  refine (meets_quota h rfl).mono ?_ ?_ fun _ _ _ hf => hf
  · rintro d' ⟨hleft, hindex⟩
    exact ⟨hleft, fun e => evictedAfter_listed (hindex.trans hlisted.symm)⟩
  · rintro _ state' d' ⟨rfl, dropped, left, hsplit, hsome, hevicted, hloaded⟩
    refine ⟨dropped, left, hsplit, hsome, fun e => ?_, hloaded⟩
    rw [← hevicted]
    refine evictedAfter_kept (by rw [hlisted]) ?_
    rw [hloaded.index]
    rfl

/-- A flush and the quota after it. -/
theorem meets_flushArchive (h : Loaded codec terminalId d state records) :
    Action.Meets False (fun d' => (Recoverable codec terminalId d' records ∨ MissingBlock d') ∧
        ∀ e, evictedAfter codec state d' e = e)
      (flushArchive codec) state d
      (fun _ state' d' => ∃ dropped left, records = dropped ++ left ∧ (left = [] → dropped = []) ∧
        (∀ e, evictedAfter codec state d' e = lastSequenceOf e dropped) ∧
        Loaded codec terminalId d' state' left)
      (fun _ state' d' => state' = state ∧ d' = d ∧ ∀ e, evictedAfter codec state d' e = e) := by
  have hindex : blocksOf d.index = state.manifest.blocks := by
    rw [h.index]
    rfl
  simp only [flushArchive, Action.meets_bind]
  by_cases hempty : state.pending = []
  · have hnothing : encodeRecords state.pending =
        .error (.corrupt "invalid history block record count") := by simp [encodeRecords, hempty]
    rw [meets_flushState_empty hempty]
    exact (meets_quota_after h (ArchiveState.listedAfterFlush_error hnothing)).mono
      (fun _ hc => hc) (fun _ _ _ hok => hok) fun _ _ _ => False.elim
  · cases henc : encodeRecords state.pending with
    | error error =>
      rw [meets_flushState_unencoded h.present hempty henc]
      refine ⟨rfl, rfl, fun e => evictedAfter_listed ?_⟩
      rw [hindex, ArchiveState.listedAfterFlush_error henc]
    | ok encoded =>
      have hlisted := ArchiveState.listedAfterFlush_ok codec henc
      refine (meets_flush h hempty henc).mono ?_ ?_ fun _ _ _ => False.elim
      · rintro d' ⟨hleft, hbefore | hafter⟩
        · exact ⟨.inl hleft, fun e =>
            evictedAfter_before hlisted (nextBlock_not_mem h hempty) hbefore⟩
        · exact ⟨.inl hleft, fun e => evictedAfter_listed (hafter.trans hlisted.symm)⟩
      · rintro _ state' d' ⟨rfl, hloaded⟩
        exact (meets_quota_after hloaded hlisted).mono (fun _ hc => hc) (fun _ _ _ hok => hok)
          fun _ _ _ => False.elim

end PiDeck.History
