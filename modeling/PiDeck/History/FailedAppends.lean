import Mathlib
import PiDeck.History.Manifest
import PiDeck.History.Reopening
import PiDeck.History.TornTail

/-! Appends that can fail in the middle of a record. What was acknowledged is found again as long as
no append succeeds on a segment whose end recovery would cut off. -/
namespace PiDeck.History
open PiDeck.Storage PiDeck.Transition

/-- The archive of one terminal in a running process, and the records whose append succeeded. -/
structure Writing where
  disk : Directory
  state : ArchiveState
  acknowledged : List HistoryRecord

/-- A call of `append_owned` or the next start of the process. The write of the record can fail
after some of its bytes; if it does not, each later write of the call has an outcome of its own. -/
inductive AppendCall
  | append (command : AppendCommand) (failedAfter : Option ℕ) (later : List Outcome)
  | reopen

namespace Writing
variable (codec : BlockCodec) (blockBytes : ℕ) (terminalId : String)

/-- Write only the first bytes of a record, which the archive in memory does not hear of. -/
def appendFailed (writing : Writing) (record : HistoryRecord) (written : ℕ) : Writing :=
  if writing.state.checkAppend record = .ok () then
    { writing with
      disk := writing.disk.withActive
        (writing.disk.active.getD [] ++ (encodeActive record).take written) }
  else writing

/-- The outcomes of a call that writes all of its record. -/
def recordWritten (record : HistoryRecord) (later : List Outcome) : List Outcome :=
  List.replicate (activeRecordPieces record.sequence record.data).length .done ++ later

def step (writing : Writing) : AppendCall → Option Writing
  | .append command none later =>
    let ran := (appendOwned codec blockBytes command.record).run writing.state
      (recordWritten command.record later) writing.disk
    (leftInMemory ran.2).map fun state =>
      { disk := ran.1
        state := state
        acknowledged :=
          if (succeeded ran.2).isSome then writing.acknowledged ++ [command.record]
          else writing.acknowledged }
  | .append command (some written) _ => some (writing.appendFailed command.record written)
  | .reopen =>
    let ran := (stateFor terminalId).run () [] writing.disk
    (succeeded ran.2).map fun state => { writing with disk := ran.1, state := state }

def machine : Machine Writing AppendCall := ⟨step codec blockBytes terminalId⟩

/-- A new archive. -/
def opened : Writing where
  disk := ((stateFor terminalId).run () [] emptyDirectory).1
  state := ⟨newManifest terminalId, [], 0⟩
  acknowledged := []

/-- Opening the archive again succeeds and finds all that was acknowledged. -/
def Recovered (writing : Writing) : Prop :=
  ∃ d state found, (stateFor terminalId).run () [] writing.disk = (d, some (.ok state, ())) ∧
    contents codec d state = .ok found ∧ ∀ record ∈ writing.acknowledged, record ∈ found

/-- The active segment begins with its header. -/
def HasHeader (writing : Writing) : Prop :=
  (writing.disk.active.getD []).take activeMagic.length = activeMagic

/-- Recovery of the active segment as it is would cut nothing off and find nothing that the archive
in memory does not know. -/
def EndsWhole (writing : Writing) : Prop :=
  let bytes := writing.disk.active.getD []
  let scanned := scanActive bytes.length 0 (bytes.drop activeMagic.length)
  scanned.2 = [] ∧ lastSequenceOf 0 scanned.1 ≤ writing.state.newest 0

instance (writing : Writing) : Decidable writing.HasHeader := inferInstanceAs (Decidable (_ = _))

instance (writing : Writing) : Decidable writing.EndsWhole := inferInstanceAs (Decidable (_ ∧ _))

/-- An append that writes anything finds the header of its segment. One that writes its whole record
finds a whole segment, and evicts nothing if it fills a block. -/
def FindsWhole (writing : Writing) : AppendCall → Prop
  | .append command failedAfter _ => writing.state.checkAppend command.record = .ok () →
      (failedAfter ≠ some 0 → writing.HasHeader) ∧
      (failedAfter = none → writing.EndsWhole ∧
        (blockBytes ≤ (writing.state.pushRecord command.record).pendingBytes →
          ¬OverQuota ((writing.state.pushRecord command.record).listedAfterFlush codec)))
  | .reopen => True

end Writing

/-! ### Segments with anything at the end -/

section Segments
variable {codec : BlockCodec} {blockBytes : ℕ} {terminalId : String} {d d' : Directory}
  {state : ArchiveState} {records rest : List HistoryRecord} {bytes : Bytes}

/-- Ordered records, divided at a sequence. -/
theorem Ordered.divided {start : ℕ} (h : Ordered start records) (cut : ℕ) :
    ∃ low high, records = low ++ high ∧ (∀ record ∈ low, record.sequence ≤ cut) ∧
      Ordered cut high ∧ records.filter (fun record => decide (cut < record.sequence)) = high := by
  induction records generalizing start with
  | nil => exact ⟨[], [], rfl, nofun, trivial, rfl⟩
  | cons record records ih =>
    obtain ⟨hlt, hvalid, hrest⟩ := h
    by_cases hcut : cut < record.sequence
    · refine ⟨[], record :: records, rfl, nofun, ⟨hcut, hvalid, hrest⟩, ?_⟩
      refine List.filter_eq_self.mpr fun later hlater => ?_
      obtain rfl | hlater := List.mem_cons.mp hlater
      · exact decide_eq_true hcut
      · exact decide_eq_true (hcut.trans (hrest.lt_of_mem hlater))
    · obtain ⟨low, high, hsplit, hlow, hhigh, hfilter⟩ := ih hrest
      refine ⟨record :: low, high, by rw [hsplit, List.cons_append], ?_, hhigh, ?_⟩
      · intro earlier hearlier
        obtain rfl | hearlier := List.mem_cons.mp hearlier
        · exact not_lt.mp hcut
        · exact hlow earlier hearlier
      · rw [List.filter_cons_of_neg (by simpa using hcut)]
        exact hfilter

/-- What recovery reads of a segment with anything behind its records. -/
theorem scanned_behind {base : List HistoryRecord} (h : Ordered 0 base) (junk : Bytes) :
    ∃ more left, junk = more.flatMap encodeActive ++ left ∧
      Ordered (lastSequenceOf 0 base) more ∧
      scanActive (activeFile base ++ junk).length 0 (base.flatMap encodeActive ++ junk) =
        (base ++ more, left) := by
  obtain ⟨fuel, hfuel⟩ := Nat.exists_eq_add_of_le' (length_le_flatMap base junk)
  refine ⟨_, _, (scanActive_bytes fuel (lastSequenceOf 0 base) junk).symm,
    scanActive_ordered _ _ _, ?_⟩
  rw [hfuel, scanActive_flatMap h]

/-- Opening the archive of a directory whose active segment can be opened. -/
theorem run_stateFor {manifest : ArchiveManifest} (hindex : d.index = some manifest)
    (hpresent : d.present = true) (hown : manifest.version = archiveVersion ∧
      manifest.terminalId = terminalId) {active : Bytes} {found : List HistoryRecord}
    (hopens : Opens d (manifest.lastSequence 0) bytes found active) :
    (stateFor terminalId).run () [] (d.withActive bytes) = (d.withActive active, some (.ok
      { manifest := manifest
        pending := found
        pendingBytes := (found.map (·.data.length)).sum }, ())) := by
  have hsame : ({ d.withActive bytes with present := true } : Directory) = d.withActive bytes := by
    rw [← hpresent]
    rfl
  have hread : (readManifest (S := Unit)).run () [] (d.withActive bytes) =
      (d.withActive bytes, some (.ok (some manifest), ())) := by
    unfold readManifest
    rw [Action.run_clean_bind _ (Action.run_clean_inspect _)]
    have hfound : (d.withActive bytes).index = some manifest := hindex
    rw [hfound]
    rfl
  have hload : (loadManifest (S := Unit) terminalId (some manifest)).run () [] (d.withActive bytes) =
      (d.withActive bytes, some (.ok manifest, ())) := by
    simp only [loadManifest, if_pos hown.1]
    rfl
  unfold stateFor
  rw [Action.run_clean_bind _ (Action.run_clean_step _ _), hsame, Action.run_clean_bind _ hread,
    Action.run_clean_bind _ hload, if_neg (not_not.mpr hown.2), Action.run_clean_bind _ hopens]
  rfl

/-- Whatever is behind its records, the segment of a loaded archive opens with all of them. -/
theorem Loaded.reopened (h : Loaded codec terminalId (d.withActive bytes) state records)
    (junk : Bytes) : ∃ d' state' records',
      (stateFor terminalId).run () [] (d.withActive (bytes ++ junk)) = (d', some (.ok state', ())) ∧
      Loaded codec terminalId d' state' records' ∧ ∀ record ∈ records, record ∈ records' := by
  obtain ⟨stored, old, hrecords, hstored, hordered, hold, hactive⟩ := h.split
  obtain rfl : bytes = activeFile (old ++ state.pending) := Option.some.inj hactive
  obtain ⟨more, left, rfl, hmore, hscan⟩ := scanned_behind hordered junk
  have hall : Ordered 0 (old ++ state.pending ++ more) := ordered_append.mpr ⟨hordered, hmore⟩
  have hcontents : activeFile (old ++ state.pending) ++ (more.flatMap encodeActive ++ left) =
      activeFile (old ++ state.pending ++ more) ++ left := by simp [activeFile]
  obtain ⟨low, high, hsplit, hlow, hhigh, hfilter⟩ := hall.divided (lastSequenceOf 0 stored)
  have hcut : state.manifest.lastSequence 0 = lastSequenceOf 0 stored := by
    rw [ArchiveManifest.lastSequence_eq, hstored.lastOfBlocks_eq]
  have hopens : Opens d (state.manifest.lastSequence 0)
      (activeFile (old ++ state.pending ++ more) ++ left) high
      (activeFile (old ++ state.pending ++ more)) := by
    rw [hcut, ← hfilter]
    refine opens_scanned ?_
    rw [← hcontents, List.flatMap_append, List.append_assoc]
    exact hscan
  have hstoredOrdered : Ordered 0 (stored ++ state.pending) := hrecords ▸ h.ordered
  obtain ⟨hstoredAll, hpending⟩ := ordered_append.mp hstoredOrdered
  refine ⟨_, _, stored ++ high, by
    rw [hcontents]
    exact run_stateFor h.index h.present h.own hopens, ?_, ?_⟩
  · refine ⟨ordered_append.mpr ⟨hstoredAll, hhigh⟩, h.present, h.index, h.own, rfl, stored, low, rfl,
      hstored, hsplit ▸ hall, hlow, ?_⟩
    rw [← hsplit]
    rfl
  · intro record hrecord
    rw [hrecords] at hrecord
    obtain hrecord | hrecord := List.mem_append.mp hrecord
    · exact List.mem_append_left _ hrecord
    · refine List.mem_append_right _ ?_
      rw [← hfilter, List.mem_filter]
      exact ⟨by simp [hrecord], decide_eq_true (hpending.lt_of_mem hrecord)⟩

/-- The records of a loaded archive, if recovery would leave the segment as it is. -/
theorem Loaded.of_endsWhole {writing : Writing} {junk : Bytes}
    (h : Loaded codec terminalId (writing.disk.withActive bytes) writing.state records)
    (hjunk : writing.disk.active = some (bytes ++ junk)) (hends : writing.EndsWhole) :
    Loaded codec terminalId writing.disk writing.state records := by
  obtain ⟨stored, old, hrecords, hstored, hordered, hold, hactive⟩ := h.split
  obtain rfl : bytes = activeFile (old ++ writing.state.pending) := Option.some.inj hactive
  obtain ⟨more, left, rfl, hmore, hscan⟩ := scanned_behind hordered junk
  have hdrop : (activeFile (old ++ writing.state.pending) ++
      (more.flatMap encodeActive ++ left)).drop activeMagic.length =
        (old ++ writing.state.pending).flatMap encodeActive ++ (more.flatMap encodeActive ++ left) := by
    rw [activeFile, List.append_assoc, List.drop_left]
  rw [Writing.EndsWhole, hjunk, Option.getD_some, hdrop, hscan] at hends
  obtain ⟨rfl, hlast⟩ := hends
  rw [List.append_nil] at hjunk
  by_cases hnone : more = []
  · subst hnone
    rw [List.flatMap_nil, List.append_nil] at hjunk
    rwa [Directory.withActive_self hjunk] at h
  · have hnewest : writing.state.newest 0 = lastSequenceOf 0 (stored ++ writing.state.pending) := by
      rw [h.newest, hrecords]
    have hlater : lastSequenceOf 0 (old ++ writing.state.pending) <
        lastSequenceOf 0 (old ++ writing.state.pending ++ more) := by
      rw [lastSequenceOf_append _ _ more]
      obtain ⟨record, others, rfl⟩ := List.exists_cons_of_ne_nil hnone
      rw [lastSequenceOf_cons]
      exact hmore.1.trans_le hmore.2.2.start_le
    -- What is behind is in blocks already, so nothing is pending.
    have hpending : writing.state.pending = [] := by
      by_contra hne
      rw [hnewest, lastSequenceOf_append 0 stored, lastSequenceOf_nonempty hne _
        (lastSequenceOf 0 old), ← lastSequenceOf_append] at hlast
      exact absurd hlater (not_lt.mpr hlast)
    have hall : Ordered 0 (old ++ more) := by
      have happended := ordered_append.mpr ⟨hordered, hmore⟩
      rwa [hpending, List.append_nil] at happended
    rw [hpending, List.append_nil] at hrecords hnewest hlast hjunk
    refine ⟨h.ordered, h.present, h.index, h.own, h.pendingBytes, stored, old ++ more, ?_, hstored,
      ?_, fun record hrecord => ?_, ?_⟩
    · rw [hpending, List.append_nil, hrecords]
    · rwa [hpending, List.append_nil]
    · rw [← hnewest]
      exact (hall.le_last hrecord).trans hlast
    · rw [hpending, List.append_nil, hjunk]
      simp [activeFile]

/-- An archive whose segment holds its records, or has been emptied with all of them in blocks. -/
def Settled (codec : BlockCodec) (terminalId : String) (d : Directory) (state : ArchiveState)
    (records : List HistoryRecord) : Prop :=
  Loaded codec terminalId d state records ∨
    d.active = some [] ∧ Loaded codec terminalId (d.withActive activeMagic) state records

theorem Settled.withIndexTemporary (h : Settled codec terminalId d state records)
    (manifest : ArchiveManifest) :
    Settled codec terminalId (d.withIndexTemporary manifest) state records :=
  h.imp (fun h => ⟨h.ordered, h.present, h.index, h.own, h.pendingBytes, h.split⟩)
    fun ⟨hactive, h⟩ => ⟨hactive, h.ordered, h.present, h.index, h.own, h.pendingBytes, h.split⟩

theorem Settled.withIndex (h : Settled codec terminalId d state records) :
    Settled codec terminalId (d.withIndex state.manifest) state records :=
  h.imp (fun h => ⟨h.ordered, h.present, rfl, h.own, h.pendingBytes, h.split⟩)
    fun ⟨hactive, h⟩ => ⟨hactive, h.ordered, h.present, rfl, h.own, h.pendingBytes, h.split⟩

/-- Whatever fails of it, a quota that evicts nothing leaves the records. -/
theorem Settled.enforceTerminalQuota (h : Settled codec terminalId d state records)
    (hwithin : ¬OverQuota state.manifest.blocks) :
    Action.Meets True (fun _ => True) enforceTerminalQuota state d
      (fun _ state' d' => Settled codec terminalId d' state' records)
      (fun _ state' d' => Settled codec terminalId d' state' records) := by
  simp only [History.enforceTerminalQuota, writeManifest, Action.meets_bind, Action.meets_getState,
    evictBlocks_within hwithin, Action.meets_pure, meets_writeManifestValue]
  exact ⟨trivial, ⟨trivial, h.withIndex, fun _ => h.withIndexTemporary _⟩, fun _ => h⟩

/-- Whatever fails of it, a flush leaves the records. -/
theorem Loaded.flushState (h : Loaded codec terminalId d state records) :
    Action.Meets True (fun _ => True) (flushState codec) state d
      (fun _ state' d' => Settled codec terminalId d' state' records ∧
        state'.manifest.blocks = state.listedAfterFlush codec)
      (fun _ state' d' => Settled codec terminalId d' state' records) := by
  by_cases hempty : state.pending = []
  · have hnothing : encodeRecords state.pending =
        .error (.corrupt "invalid history block record count") := by simp [encodeRecords, hempty]
    rw [meets_flushState_empty hempty]
    exact ⟨.inl h, (ArchiveState.listedAfterFlush_error hnothing).symm⟩
  · cases henc : encodeRecords state.pending with
    | error e =>
      rw [meets_flushState_unencoded h.present hempty henc]
      exact .inl h
    | ok encoded =>
      obtain ⟨stored, old, hrecords, hstored, hordered, hold, hactive⟩ := h.split
      have hall : Ordered 0 (stored ++ state.pending) := hrecords ▸ h.ordered
      have hpublished := holdsBlocks_published (codec.compress encoded) hstored hall hempty
      have hcommitted := holdsBlocks_committed hstored hall hempty henc
      have huncommitted : ∀ files temporary, HoldsBlocks codec files 0 state.manifest.blocks stored →
          Loaded codec terminalId { d with files := files, indexTemporary := temporary } state
            records := fun files temporary hfiles =>
        ⟨h.ordered, h.present, h.index, h.own, h.pendingBytes, stored, old, hrecords, hfiles,
          hordered, hold, hactive⟩
      -- After the commit every record of the segment is in a block.
      have hstale : ∀ record ∈ old ++ state.pending,
          record.sequence ≤ lastSequenceOf 0 (stored ++ state.pending) := by
        intro record hr
        obtain hr | hr := List.mem_append.mp hr
        · refine (hold record hr).trans ?_
          rw [lastSequenceOf_append]
          exact (ordered_append.mp hall).2.start_le
        · exact hall.le_last (List.mem_append_right _ hr)
      have hcleared : ∀ stale, Ordered 0 stale → (∀ record ∈ stale,
            record.sequence ≤ lastSequenceOf 0 (stored ++ state.pending)) →
          Loaded codec terminalId ((committedDisk state d (codec.compress encoded)).withActive
            (activeFile stale)) (state.flushed (codec.compress encoded)) records := by
        intro stale hstaleOrdered hstaleOld
        refine ⟨h.ordered, h.present, rfl, h.own, rfl, stored ++ state.pending, stale, ?_,
          hcommitted, ?_, hstaleOld, ?_⟩
        · rw [hrecords]
          exact (List.append_nil _).symm
        · exact (List.append_nil stale).symm ▸ hstaleOrdered
        · rw [show (state.flushed (codec.compress encoded)).pending = [] from rfl, List.append_nil]
          rfl
      have hfresh := hcleared [] trivial (by simp)
      refine (meets_flushState h.present hempty henc rfl).mpr ⟨?_, ?_, .inl hfresh, ?_⟩
      · simp only [uncommittedDisks, List.forall_mem_cons, List.not_mem_nil, false_implies,
          implies_true, and_true, true_and, forall_const]
        refine ⟨.inl h, .inl (huncommitted _ d.indexTemporary ?_),
          .inl (huncommitted _ d.indexTemporary ?_), .inl (huncommitted _ _ ?_)⟩
        · exact temporaryFile_free hstored _ _
        · exact hpublished
        · exact hpublished
      · simp only [committedDisks, List.forall_mem_cons, List.not_mem_nil, false_implies,
          implies_true, and_true, true_and, forall_const]
        refine ⟨.inl ?_, .inr ⟨rfl, hfresh⟩, .inl hfresh⟩
        have hkept : (committedDisk state d (codec.compress encoded)).active =
            some (activeFile (old ++ state.pending)) := hactive
        rw [← Directory.withActive_self hkept]
        exact hcleared _ hordered hstale
      · exact (ArchiveState.listedAfterFlush_ok codec henc).symm

/-- Whatever fails of it, a flush that evicts nothing leaves the records. -/
theorem Loaded.flushArchive (h : Loaded codec terminalId d state records)
    (hwithin : ¬OverQuota (state.listedAfterFlush codec)) :
    Action.Meets True (fun _ => True) (flushArchive codec) state d
      (fun _ state' d' => Settled codec terminalId d' state' records)
      (fun _ state' d' => Settled codec terminalId d' state' records) := by
  simp only [History.flushArchive, Action.meets_bind]
  refine h.flushState.mono (fun _ => id) ?_ fun _ _ _ => id
  rintro _ state' d' ⟨hsettled, hblocks⟩
  exact hsettled.enforceTerminalQuota (hblocks ▸ hwithin)

/-- The pieces of a record, written one after the other. -/
theorem withActive_pieces (record : HistoryRecord) (d : Directory) :
    d.withActive (d.active.getD [] ++ encodeActive record) =
      d.withActive (d.active.getD [] ++ toBigEndian 8 record.sequence ++
        toBigEndian 4 record.data.length ++
        toBigEndian 4 (activeChecksum record.sequence record.data).toNat ++ record.data) := by
  simp [encodeActive, activeRecordPieces]

theorem run_appendRecord (record : HistoryRecord) (state : ArchiveState) (d : Directory) :
    (appendRecord record).run state [] d = (d.withActive (d.active.getD [] ++ encodeActive record),
      some (.ok (), state.pushRecord record)) := by
  rw [withActive_pieces]
  rfl

/-- An append whose record is written whole goes on to the flush. -/
theorem run_appendOwned_written {record : HistoryRecord} (h : state.checkAppend record = .ok ())
    (later : List Outcome) :
    (appendOwned codec blockBytes record).run state (Writing.recordWritten record later) d =
      (flushWhenFull codec blockBytes).run (state.pushRecord record) later
        (d.withActive (d.active.getD [] ++ encodeActive record)) := by
  rw [run_appendOwned h, withActive_pieces]
  rfl

theorem leftInMemory_eq_some {α : Type} {ran : Option (Except HistoryError α × ArchiveState)}
    (h : leftInMemory ran = some state) : ∃ result, ran = some (result, state) := by
  cases ran with
  | none => cases h
  | some left =>
    obtain rfl := Option.some.inj h
    exact ⟨left.1, rfl⟩

end Segments

namespace Writing
variable {codec : BlockCodec} {blockBytes : ℕ} {terminalId : String} {writing next : Writing}

/-- The records are held in the active segment, behind which there may be what failed appends have
written, or the segment has been emptied with all of them in blocks. -/
def Holds (codec : BlockCodec) (terminalId : String) (writing : Writing)
    (records : List HistoryRecord) : Prop :=
  (∃ bytes junk, writing.disk.active = some (bytes ++ junk) ∧
    Loaded codec terminalId (writing.disk.withActive bytes) writing.state records) ∨
  writing.disk.active = some [] ∧
    Loaded codec terminalId (writing.disk.withActive activeMagic) writing.state records

/-- What was acknowledged is among the records that are held. -/
def Survives (codec : BlockCodec) (terminalId : String) (writing : Writing) : Prop :=
  ∃ records, writing.Holds codec terminalId records ∧
    ∀ record ∈ writing.acknowledged, record ∈ records

theorem holds_of_settled {records : List HistoryRecord}
    (h : Settled codec terminalId writing.disk writing.state records) :
    writing.Holds codec terminalId records := by
  refine h.imp_left fun hloaded => ?_
  obtain ⟨stored, old, -, -, -, -, hactive⟩ := hloaded.split
  refine ⟨_, [], hactive.trans (by rw [List.append_nil]), ?_⟩
  rwa [Directory.withActive_self hactive]

/-- Opening the archive again finds what is held. -/
theorem Holds.reopened {records : List HistoryRecord}
    (h : writing.Holds codec terminalId records) : ∃ d state records',
      (stateFor terminalId).run () [] writing.disk = (d, some (.ok state, ())) ∧
      Loaded codec terminalId d state records' ∧ ∀ record ∈ records, record ∈ records' := by
  obtain ⟨bytes, junk, hactive, hloaded⟩ | ⟨hactive, hloaded⟩ := h
  · have hreopened := hloaded.reopened junk
    rwa [Directory.withActive_self hactive] at hreopened
  · obtain ⟨stored, old, hrecords, hstored, hordered, -, hbytes⟩ := hloaded.split
    -- Nothing is pending, since the header is all that the segment would have.
    have hnone : (old ++ writing.state.pending).flatMap encodeActive = [] :=
      List.self_eq_append_right.mp (Option.some.inj hbytes)
    have hpending : writing.state.pending = [] := by
      have hlength := length_le_flatMap_encodeActive (old ++ writing.state.pending)
      rw [hnone, List.length_nil, Nat.le_zero, List.length_eq_zero_iff] at hlength
      exact (List.append_eq_nil_iff.mp hlength).2
    have hindex : writing.disk.index = some writing.state.manifest := hloaded.index
    have hrecoverable : Recoverable codec terminalId writing.disk records := by
      refine ⟨hloaded.ordered, hloaded.recoverable.own, stored, [], [], ?_, torn_nil, ?_,
        .empty (by rw [hactive, Option.getD_some]) rfl⟩
      · rw [hrecords, hpending]
      · rw [hindex]
        exact hstored
    obtain ⟨state, _, d, hran, hfound⟩ | ⟨_, _, _, _, hf⟩ :=
      (meets_stateFor (s := ()) hrecoverable).completed [] List.not_mem_nil List.not_mem_nil
    · exact ⟨d, state, records, hran, hfound, fun _ => id⟩
    · exact hf.elim

/-- A whole segment is that of a loaded archive. -/
theorem Holds.loaded {records : List HistoryRecord} (h : writing.Holds codec terminalId records)
    (hheader : writing.HasHeader) (hends : writing.EndsWhole) :
    Loaded codec terminalId writing.disk writing.state records := by
  obtain ⟨bytes, junk, hactive, hloaded⟩ | ⟨hactive, -⟩ := h
  · exact hloaded.of_endsWhole hactive hends
  · rw [HasHeader, hactive] at hheader
    cases hheader

theorem Survives.recovered (h : writing.Survives codec terminalId) :
    writing.Recovered codec terminalId := by
  obtain ⟨records, hholds, hkept⟩ := h
  obtain ⟨d, state, records', hran, hloaded, hmore⟩ := hholds.reopened
  exact ⟨d, state, records', hran, hloaded.readable.contents,
    fun record hrecord => hmore record (hkept record hrecord)⟩

theorem Survives.reopen (h : writing.Survives codec terminalId)
    (hstep : writing.step codec blockBytes terminalId .reopen = some next) :
    next.Survives codec terminalId := by
  obtain ⟨records, hholds, hkept⟩ := h
  obtain ⟨d, state, records', hran, hloaded, hmore⟩ := hholds.reopened
  simp only [step, hran, succeeded, Option.map_some, Option.some.injEq] at hstep
  subst hstep
  exact ⟨records', holds_of_settled (.inl hloaded),
    fun record hrecord => hmore record (hkept record hrecord)⟩

theorem Survives.appendFailed (h : writing.Survives codec terminalId) (record : HistoryRecord)
    (written : ℕ) (hheader : writing.state.checkAppend record = .ok () → written ≠ 0 →
      writing.HasHeader) : (writing.appendFailed record written).Survives codec terminalId := by
  rw [Writing.appendFailed]
  split_ifs with hcheck
  · obtain ⟨records, ⟨bytes, junk, hactive, hloaded⟩ | ⟨hactive, hloaded⟩, hkept⟩ := h
    · refine ⟨records, .inl ⟨bytes, junk ++ (encodeActive record).take written, ?_, hloaded⟩, hkept⟩
      rw [hactive, Option.getD_some, List.append_assoc]
      rfl
    · by_cases hnone : written = 0
      · subst hnone
        refine ⟨records, .inr ⟨?_, hloaded⟩, hkept⟩
        rw [hactive, List.take_zero]
        rfl
      · have hhead := hheader hcheck hnone
        rw [HasHeader, hactive] at hhead
        cases hhead
  · exact h

/-- An append that writes all of its record. -/
theorem Survives.append (h : writing.Survives codec terminalId) {command : AppendCommand}
    {later : List Outcome}
    (hguard : writing.FindsWhole codec blockBytes (.append command none later))
    (hstep : writing.step codec blockBytes terminalId (.append command none later) = some next) :
    next.Survives codec terminalId := by
  cases hcheck : writing.state.checkAppend command.record with
  | error e =>
    simp only [step, run_appendOwned_refused hcheck, leftInMemory, succeeded, Option.isSome_none,
      Bool.false_eq_true, if_false, Option.map_some, Option.some.injEq] at hstep
    subst hstep
    exact h
  | ok =>
    obtain ⟨records, hholds, hkept⟩ := h
    obtain ⟨hheader, hwhole⟩ := hguard hcheck
    obtain ⟨hends, hwithin⟩ := hwhole rfl
    have hloaded := hholds.loaded (hheader (by simp)) hends
    have hnext := checkAppend_ok hcheck
    rw [hloaded.newest] at hnext
    have hpushed : Loaded codec terminalId (writing.disk.withActive
        (writing.disk.active.getD [] ++ encodeActive command.record))
        (writing.state.pushRecord command.record) (records ++ [command.record]) :=
      ((meets_appendRecord hloaded command.valid hnext).of_run (run_appendRecord _ _ _) (by simp)).2
    have hflush : Action.Meets True (fun _ => True) (flushWhenFull codec blockBytes)
        (writing.state.pushRecord command.record) (writing.disk.withActive
          (writing.disk.active.getD [] ++ encodeActive command.record))
        (fun _ state' d' => Settled codec terminalId d' state' (records ++ [command.record]))
        (fun _ state' d' => Settled codec terminalId d' state' (records ++ [command.record])) := by
      simp only [flushWhenFull, Action.meets_bind, Action.meets_getState]
      split_ifs with hfull
      · exact hpushed.flushArchive (hwithin hfull)
      · exact .inl hpushed
    rw [step, run_appendOwned_written hcheck, Option.map_eq_some_iff] at hstep
    obtain ⟨state, hleft, rfl⟩ := hstep
    obtain ⟨result, hran⟩ := leftInMemory_eq_some hleft
    have hsettled := hflush.result_of_run (Prod.ext rfl hran) fun _ => trivial
    refine ⟨_, holds_of_settled hsettled, fun record hrecord => ?_⟩
    have hcases : record ∈ writing.acknowledged ∨ record = command.record := by
      dsimp only at hrecord
      split_ifs at hrecord
      · simpa using hrecord
      · exact .inl hrecord
    obtain hrecord | rfl := hcases
    · exact List.mem_append_left _ (hkept record hrecord)
    · exact List.mem_append_right _ (List.mem_singleton.mpr rfl)

theorem Survives.step (h : writing.Survives codec terminalId) {call : AppendCall}
    (hguard : writing.FindsWhole codec blockBytes call)
    (hstep : writing.step codec blockBytes terminalId call = some next) :
    next.Survives codec terminalId := by
  cases call with
  | append command failedAfter later =>
    cases failedAfter with
    | none => exact h.append hguard hstep
    | some written =>
      obtain rfl := Option.some.inj hstep
      refine h.appendFailed command.record written fun hcheck hsome => (hguard hcheck).1 ?_
      exact fun heq => hsome (Option.some.inj heq)
  | reopen => exact h.reopen hstep

theorem survives_opened : (opened terminalId).Survives codec terminalId := by
  have hempty : Recoverable codec terminalId emptyDirectory [] :=
    ⟨trivial, nofun, [], [], [], rfl, torn_nil, rfl, .empty rfl rfl⟩
  have hran : (stateFor terminalId).run () [] emptyDirectory =
      ((opened terminalId).disk, some (.ok (opened terminalId).state, ())) := by
    refine Prod.ext rfl ?_
    have hread : ∀ d : Directory, d.index = none → (readManifest (S := Unit)).run () [] d =
        (d, some (.ok none, ())) := by
      intro d hnone
      unfold readManifest
      rw [Action.run_clean_bind _ (Action.run_clean_inspect _), hnone]
      rfl
    have hload : ∀ d : Directory, (loadManifest (S := Unit) terminalId none).run () [] d =
        (d.withIndex (newManifest terminalId), some (.ok (newManifest terminalId), ())) :=
      fun _ => rfl
    unfold stateFor
    rw [Action.run_clean_bind _ (Action.run_clean_step _ _), Action.run_clean_bind _ (hread _ rfl),
      Action.run_clean_bind _ (hload _), if_neg fun hne => hne rfl]
    rfl
  have hloaded := (meets_stateFor (s := ()) hempty).of_run hran nofun
  exact ⟨[], holds_of_settled (.inl hloaded), nofun⟩

/-- In every run in which each append finds the header of its segment, and each that writes its whole
record finds a whole segment and evicts nothing, what was acknowledged is found by opening the archive
again. -/
theorem acknowledged_recovered {calls : List AppendCall}
    (h : Machine.Path (machine codec blockBytes terminalId) (FindsWhole codec blockBytes)
      (opened terminalId) calls writing) : writing.Recovered codec terminalId := by
  have hsurvives : writing.Survives codec terminalId :=
    h.invariant (I := Survives codec terminalId)
      (fun _ _ _ hwriting hguard hstep => hwriting.step hguard hstep) survives_opened
  exact hsurvives.recovered

/-- The second append fails after some bytes, which the next start cuts off. -/
def restartedCalls : List AppendCall :=
  [.append firstRead none [], .append secondRead (some 5) [], .reopen, .append secondRead none []]

theorem acknowledged_recovered_restarted : ∃ writing : Writing,
    writing.acknowledged = [firstRead.record, secondRead.record] ∧
    writing.Recovered storedCodec "terminal-1" := by
  obtain ⟨writing, hrun, hacknowledged⟩ : ∃ writing, Machine.Path
      (machine storedCodec 524288 "terminal-1") (FindsWhole storedCodec 524288) (opened "terminal-1")
      restartedCalls writing ∧ writing.acknowledged = [firstRead.record, secondRead.record] := by
    refine ⟨_, .cons (fun _ => ⟨fun _ => ?_, fun _ => ⟨?_, fun hfull => absurd hfull ?_⟩⟩) rfl
      (.cons (fun _ => ⟨fun _ => ?_, nofun⟩) rfl (.cons trivial rfl
        (.cons (fun _ => ⟨fun _ => ?_, fun _ => ⟨?_, fun hfull => absurd hfull ?_⟩⟩) rfl (.nil _)))), rfl⟩
    all_goals decide +kernel
  exact ⟨writing, hacknowledged, acknowledged_recovered hrun⟩

/-- The second append fails after some bytes, and the third is written behind them. -/
def continuedCalls : List AppendCall :=
  [.append firstRead none [], .append secondRead (some 5) [], .append secondRead none []]

theorem acknowledged_not_recovered : ¬∀ calls writing,
    Machine.Run (machine storedCodec 524288 "terminal-1") (opened "terminal-1") calls writing →
      writing.Recovered storedCodec "terminal-1" := by
  obtain ⟨writing, hrun, hacknowledged, hread⟩ : ∃ writing,
      Machine.Run (machine storedCodec 524288 "terminal-1") (opened "terminal-1") continuedCalls
        writing ∧ writing.acknowledged = [firstRead.record, secondRead.record] ∧
      (succeeded ((stateFor "terminal-1").run () [] writing.disk).2).map
        (fun state => (state.manifest.blocks, state.pending)) = some ([], [firstRead.record]) :=
    ⟨_, .cons trivial rfl (.cons trivial rfl (.cons trivial rfl (.nil _))), rfl, by decide +kernel⟩
  intro h
  obtain ⟨d, state, found, hran, hcontents, hall⟩ := h continuedCalls writing hrun
  rw [hran, succeeded, Option.map_some, Option.some.injEq, Prod.mk.injEq] at hread
  obtain ⟨hblocks, hpending⟩ := hread
  have hfound : [firstRead.record] = found := by
    rw [contents, hblocks, hpending] at hcontents
    exact Except.ok.inj hcontents
  have hsecond := hall secondRead.record (by simp [hacknowledged])
  rw [← hfound] at hsecond
  exact absurd hsecond (by decide)

end Writing
end PiDeck.History
