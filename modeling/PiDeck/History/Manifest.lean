import Mathlib
import PiDeck.History.Reopening

/-! The blocks that the manifest on disk lists exist, at every write of every run, failed writes and
stops included, as long as the quota evicts nothing. -/
namespace PiDeck.History
open PiDeck.Storage PiDeck.Transition

/-- Every block that the manifest on disk lists has its file. -/
def Whole (codec : BlockCodec) (d : Directory) : Prop :=
  ∃ stored, HoldsBlocks codec d.files 0 (blocksOf d.index) stored

/-- The state in memory lists what the manifest on disk lists, and its pending records come after. -/
structure Sound (codec : BlockCodec) (d : Directory) (state : ArchiveState) : Prop where
  present : d.present = true
  index : blocksOf d.index = state.manifest.blocks
  split : ∃ stored, HoldsBlocks codec d.files 0 state.manifest.blocks stored ∧
    Ordered 0 (stored ++ state.pending)

/-- The quota finds nothing to evict. -/
def WithinQuota (codec : BlockCodec) (blockBytes : ℕ) (archive : Archive) : ArchiveStep → Prop
  | .append command _ => ∀ state, archive.memory = some state →
      state.checkAppend command.record = .ok () →
      blockBytes ≤ (state.pushRecord command.record).pendingBytes →
      ¬OverQuota ((state.pushRecord command.record).listedAfterFlush codec)
  | .flush _ => ∀ state, archive.memory = some state → ¬OverQuota (state.listedAfterFlush codec)
  | .finalize _ _ => ∀ state, archive.memory = some state →
      ¬OverQuota (state.listedAfterFlush codec)
  | _ => True

variable {codec : BlockCodec} {blockBytes : ℕ} {terminalId : String} {d : Directory}
  {state : ArchiveState} {archive : Archive} {outcomes : List Outcome}

namespace Sound

theorem whole (h : Sound codec d state) : Whole codec d := by
  obtain ⟨stored, hstored, -⟩ := h.split
  exact ⟨stored, h.index ▸ hstored⟩

/-- Only the block files and the manifest matter. -/
theorem congr (h : Sound codec d state) {d' : Directory} {state' : ArchiveState}
    (hpresent : d'.present = d.present) (hindex : blocksOf d'.index = blocksOf d.index)
    (hfiles : d'.files = d.files) (hblocks : state'.manifest.blocks = state.manifest.blocks)
    (hpending : state'.pending = state.pending) : Sound codec d' state' := by
  refine ⟨hpresent.trans h.present, ?_, ?_⟩
  · rw [hindex, hblocks, h.index]
  · rw [hfiles, hblocks, hpending]
    exact h.split

end Sound

theorem HoldsBlocks.newest {files : BlockFiles} {start : ℕ} {stored : List HistoryRecord}
    (h : HoldsBlocks codec files start state.manifest.blocks stored) :
    state.newest 0 = lastSequenceOf 0 (stored ++ state.pending) := by
  rw [ArchiveState.newest, ArchiveManifest.lastSequence_eq, h.lastOfBlocks_eq,
    lastSequenceOf_append]

theorem Whole.congr (h : Whole codec d) {d' : Directory}
    (hindex : blocksOf d'.index = blocksOf d.index) (hfiles : d'.files = d.files) :
    Whole codec d' := by
  obtain ⟨stored, hstored⟩ := h
  exact ⟨stored, by rwa [hindex, hfiles]⟩

/-! ### The operations, with writes that can fail -/

theorem sound_writePieces {pieces : List Bytes} {crash : Directory → Prop}
    {ok : Unit → ArchiveState → Directory → Prop}
    {err : HistoryError → ArchiveState → Directory → Prop}
    (hcrash : ∀ active, crash { d with active := active })
    (hok : ∀ active, ok () state { d with active := active })
    (herr : ∀ active, err .io state { d with active := active }) :
    Action.Meets True crash (writePieces pieces) state d ok err := by
  induction pieces generalizing d with
  | nil => exact hok d.active
  | cons piece pieces ih =>
    simp only [writePieces, writeActive, Action.meets_bind, Action.meets_step]
    exact ⟨hcrash d.active, ih (fun _ => hcrash _) (fun _ => hok _) fun _ => herr _,
      fun _ => herr d.active⟩

theorem sound_appendRecord (h : Sound codec d state) {record : HistoryRecord}
    (hvalid : record.Valid) (hnext : state.newest 0 < record.sequence) :
    Action.Meets True (Whole codec) (appendRecord record) state d
      (fun _ state' d' => state' = state.pushRecord record ∧ Sound codec d' state')
      (fun _ state' d' => Sound codec d' state') := by
  simp only [appendRecord, appendActiveRecord, Action.meets_bind, Action.meets_modifyState]
  refine sound_writePieces (fun active => ?_) (fun active => ⟨rfl, ?_⟩) fun active => ?_
  · exact h.whole.congr rfl rfl
  · obtain ⟨stored, hstored, hordered⟩ := h.split
    refine ⟨h.present, h.index, stored, hstored, ?_⟩
    rw [hstored.newest] at hnext
    simp only [ArchiveState.pushRecord, ← List.append_assoc]
    exact ordered_append.mpr ⟨hordered, hnext, hvalid, trivial⟩
  · exact h.congr rfl rfl rfl rfl rfl

theorem sound_flushState (h : Sound codec d state) :
    Action.Meets True (Whole codec) (flushState codec) state d
      (fun _ state' d' => state'.manifest.blocks = state.listedAfterFlush codec ∧
        Sound codec d' state')
      (fun _ state' d' => Sound codec d' state') := by
  obtain ⟨stored, hstored, hordered⟩ := h.split
  by_cases hempty : state.pending = []
  · rw [meets_flushState_empty hempty]
    refine ⟨?_, h⟩
    have hnothing : encodeRecords state.pending =
        .error (.corrupt "invalid history block record count") := by simp [encodeRecords, hempty]
    rw [ArchiveState.listedAfterFlush_error hnothing]
  · cases henc : encodeRecords state.pending with
    | error e =>
      rw [meets_flushState_unencoded h.present hempty henc]
      exact h
    | ok encoded =>
      have hpublished := holdsBlocks_published (codec.compress encoded) hstored hordered
        hempty
      have hcommitted := holdsBlocks_committed hstored hordered hempty henc
      have before : ∀ d' : Directory, d'.present = d.present → d'.index = d.index →
          HoldsBlocks codec d'.files 0 state.manifest.blocks stored → Sound codec d' state :=
        fun d' hpresent hindex hheld =>
          ⟨hpresent.trans h.present, by rw [hindex, h.index], stored, hheld, hordered⟩
      have after : ∀ d' : Directory, d'.present = d.present →
          d'.index = (committedDisk state d (codec.compress encoded)).index →
          d'.files = (committedDisk state d (codec.compress encoded)).files →
          Sound codec d' (state.flushed (codec.compress encoded)) := by
        intro d' hpresent hindex hfiles
        refine ⟨hpresent.trans h.present, by rw [hindex]; rfl, stored ++ state.pending, ?_, ?_⟩
        · rw [hfiles]
          exact hcommitted
        · simpa [ArchiveState.flushed, ArchiveState.clearPending] using hordered
      refine (meets_flushState h.present hempty henc rfl).mpr ⟨?_, ?_, ?_, ?_⟩
      · have all : ∀ d' ∈ uncommittedDisks state d (codec.compress encoded),
            Sound codec d' state := by
          simp only [uncommittedDisks, List.forall_mem_cons, List.not_mem_nil, false_implies,
            implies_true, and_true]
          exact ⟨h, before _ rfl rfl (temporaryFile_free hstored _ _), before _ rfl rfl hpublished,
            before _ rfl rfl hpublished⟩
        exact fun d' hd => ⟨(all d' hd).whole, fun _ => all d' hd⟩
      · have all : ∀ d' ∈ committedDisks state d (codec.compress encoded),
            Sound codec d' (state.flushed (codec.compress encoded)) := by
          simp only [committedDisks, List.forall_mem_cons, List.not_mem_nil, false_implies,
            implies_true, and_true]
          exact ⟨after _ rfl rfl rfl, after _ rfl rfl rfl, after _ rfl rfl rfl⟩
        exact fun d' hd => ⟨(all d' hd).whole, fun _ => all d' hd⟩
      · exact (ArchiveState.listedAfterFlush_ok codec henc).symm
      · exact after _ rfl rfl rfl

theorem sound_writeManifest (h : Sound codec d state) :
    Action.Meets True (Whole codec) writeManifest state d
      (fun _ state' d' => Sound codec d' state') (fun _ state' d' => Sound codec d' state') := by
  simp only [writeManifest, Action.meets_bind, Action.meets_getState, meets_writeManifestValue]
  have htemporary : Sound codec (d.withIndexTemporary state.manifest) state :=
    h.congr rfl rfl rfl rfl rfl
  refine ⟨h.whole, ⟨htemporary.whole, ?_, fun _ => htemporary⟩, fun _ => h⟩
  exact h.congr rfl h.index.symm rfl rfl rfl

/-- Within the quota no block is dropped. -/
theorem evictBlocks_within {blocks : List ArchiveBlock} (h : ¬OverQuota blocks) :
    evictBlocks blocks (storedBytesOf blocks) = pure () := by
  match blocks with
  | [] => rfl
  | [block] => rfl
  | block :: next :: blocks =>
    have hwithin : ¬maxTerminalBytes < storedBytesOf (block :: next :: blocks) :=
      fun hover => h ⟨hover, by simp⟩
    simp only [evictBlocks, if_neg hwithin]

theorem sound_flushArchive (h : Sound codec d state)
    (hwithin : ¬OverQuota (state.listedAfterFlush codec)) :
    Action.Meets True (Whole codec) (flushArchive codec) state d
      (fun _ state' d' => Sound codec d' state') (fun _ state' d' => Sound codec d' state') := by
  simp only [flushArchive, Action.meets_bind]
  refine (sound_flushState h).mono (fun _ hc => hc) ?_ fun _ _ _ he => he
  rintro _ state' d' ⟨hblocks, hsound⟩
  simp only [enforceTerminalQuota, Action.meets_bind, Action.meets_getState, hblocks,
    evictBlocks_within hwithin, Action.meets_pure]
  exact sound_writeManifest hsound

theorem sound_finalizeArchive (h : Sound codec d state)
    (hwithin : ¬OverQuota (state.listedAfterFlush codec)) (now : ℕ) :
    Action.Meets True (Whole codec) (finalizeArchive codec now) state d
      (fun _ state' d' => Sound codec d' state') (fun _ state' d' => Sound codec d' state') := by
  simp only [finalizeArchive, Action.meets_bind]
  refine (sound_flushArchive h hwithin).mono (fun _ hc => hc) ?_ fun _ _ _ he => he
  rintro _ state' d' hsound
  simp only [markClosed, Action.meets_bind, Action.meets_getState]
  by_cases hclosed : state'.manifest.closedAt.isSome = true
  · rw [if_pos hclosed]
    exact hsound
  · simp only [if_neg hclosed, Action.meets_bind, Action.meets_modifyState]
    exact sound_writeManifest (hsound.congr rfl rfl rfl rfl rfl)

theorem sound_appendOwned (h : Sound codec d state) {record : HistoryRecord}
    (hvalid : record.Valid) (hwithin : state.checkAppend record = .ok () →
      blockBytes ≤ (state.pushRecord record).pendingBytes →
      ¬OverQuota ((state.pushRecord record).listedAfterFlush codec)) :
    Action.Meets True (Whole codec) (appendOwned codec blockBytes record) state d
      (fun _ state' d' => Sound codec d' state') (fun _ state' d' => Sound codec d' state') := by
  simp only [appendOwned, Action.meets_bind, Action.meets_getState]
  cases hcheck : state.checkAppend record with
  | error e => exact h
  | ok _ =>
    rw [Action.meets_ofExcept_ok]
    refine (sound_appendRecord h hvalid (checkAppend_ok hcheck)).mono (fun _ hc => hc) ?_
      fun _ _ _ he => he
    rintro _ state' d' ⟨rfl, hsound⟩
    simp only [flushWhenFull, Action.meets_bind, Action.meets_getState]
    by_cases hfull : blockBytes ≤ (state.pushRecord record).pendingBytes
    · rw [if_pos hfull]
      exact sound_flushArchive hsound (hwithin hcheck hfull)
    · rw [if_neg hfull]
      exact hsound

/-- Opening an active segment, whatever it holds, touches nothing else. -/
theorem sound_openActiveSegment {S : Type} {s : S} {crash : Directory → Prop} {cut : ℕ}
    {ok : List HistoryRecord → S → Directory → Prop} {err : HistoryError → S → Directory → Prop}
    (hcrash : ∀ active, crash { d with active := active })
    (hok : ∀ active pending, Ordered cut pending → ok pending s { d with active := active })
    (herr : ∀ e active, err e s { d with active := active }) :
    Action.Meets True crash (openActiveSegment cut) s d ok err := by
  simp only [openActiveSegment, Action.meets_bind, Action.meets_step, Action.meets_inspect,
    Option.getD_some]
  refine ⟨hcrash d.active, ?_, fun _ => herr _ d.active⟩
  split
  · simp only [writeActive, attempt, Action.meets_bind, Action.meets_step, Action.meets_pure]
    exact ⟨hcrash _, ⟨hcrash _, hok _ [] trivial, fun _ => herr _ _⟩, fun _ => herr _ _⟩
  · simp only [recoverActive, attempt, Action.meets_bind, Action.meets_step]
    refine ⟨hcrash _, ?_, fun _ => herr _ _⟩
    split
    · exact herr _ _
    · have hordered := ((scanActive_ordered (d.active.getD []).length 0
        ((d.active.getD []).drop activeMagic.length)).past cut).1
      split
      · exact hok _ _ hordered
      · simp only [Action.meets_bind, Action.meets_step, Action.meets_pure]
        exact ⟨hcrash _, ⟨hcrash _, hok _ _ hordered, fun _ => herr _ _⟩, fun _ => herr _ _⟩

theorem sound_stateFor (terminalId : String) (h : Whole codec d) :
    Action.Meets True (Whole codec) (stateFor terminalId) () d
      (fun state _ d' => Sound codec d' state) (fun _ _ d' => Whole codec d') := by
  have opened : ∀ (d' : Directory) (manifest : ArchiveManifest), d'.present = true →
      d'.files = d.files → d'.index = some manifest → manifest.blocks = blocksOf d.index →
      Action.Meets True (Whole codec) (openActiveSegment (manifest.lastSequence 0)) () d'
        (fun pending' _ d' => Sound codec d'
          { manifest := manifest
            pending := pending'
            pendingBytes := (pending'.map (·.data.length)).sum })
        (fun _ _ d' => Whole codec d') := by
    intro d' manifest hpresent hfiles hindex hblocks
    have hwhole : ∀ active, Whole codec { d' with active := active } :=
      fun active => h.congr (by rw [hindex, ← hblocks]; rfl) hfiles
    refine sound_openActiveSegment hwhole (fun active pending hordered => ?_) fun _ => hwhole
    obtain ⟨stored, hstored⟩ := h
    rw [← hblocks, ← hfiles] at hstored
    refine ⟨hpresent, by rw [hindex]; rfl, stored, hstored, ordered_append.mpr ⟨hstored.ordered.1, ?_⟩⟩
    rw [hstored.ordered.2]
    exact hordered
  have hcreated : Whole codec { d with present := true } := h.congr rfl rfl
  simp only [stateFor, Action.meets_bind, Action.meets_step, readManifest, Action.meets_inspect]
  refine ⟨h, ?_, fun _ => h⟩
  cases hindex : d.index with
  | some manifest =>
    rw [hindex] at hcreated
    simp only [Option.isSome_some, if_true, attempt, Action.meets_bind, Action.meets_step,
      Action.meets_pure, loadManifest]
    refine ⟨hcreated, ?_, fun _ => hcreated⟩
    split
    · rw [Action.meets_pure]
      split
      · exact hcreated
      · simp only [Action.meets_bind, Action.meets_pure]
        exact opened _ manifest rfl rfl rfl (by rw [hindex]; rfl)
    · exact hcreated
  | none =>
    have hblocks : (newManifest terminalId).blocks = blocksOf d.index := by
      rw [hindex]
      rfl
    rw [hindex] at hcreated
    simp only [Option.isSome_none, Bool.false_eq_true, if_false, Action.meets_pure, loadManifest,
      Action.meets_bind, meets_writeManifestValue, newManifest, ne_eq, not_true_eq_false]
    exact ⟨hcreated, ⟨hcreated.congr rfl rfl, opened _ (newManifest terminalId) rfl rfl rfl hblocks,
      fun _ => hcreated.congr rfl rfl⟩, fun _ => hcreated⟩

theorem sound_finalizeStored (h : Whole codec d) (now : ℕ) :
    Action.Meets True (Whole codec) (finalizeStored now) () d (fun _ _ d' => Whole codec d')
      (fun _ _ d' => Whole codec d') := by
  simp only [finalizeStored, readManifest, Action.meets_bind, Action.meets_inspect]
  cases hindex : d.index with
  | none => simpa using h
  | some manifest =>
    simp only [Option.isSome_some, if_true, attempt, Action.meets_bind, Action.meets_step,
      Action.meets_pure]
    refine ⟨h, ?_, fun _ => h⟩
    split
    · exact h
    · rw [meets_writeManifestValue]
      refine ⟨h, ⟨h.congr rfl rfl, h.congr ?_ rfl, fun _ => h.congr rfl rfl⟩, fun _ => h⟩
      rw [hindex]
      rfl

/-! ### Every run -/

/-- The invariant of a run whose writes may fail. -/
def Intact (codec : BlockCodec) (d : Directory) (memory : Option ArchiveState) : Prop :=
  match memory with
  | some state => Sound codec d state
  | none => Whole codec d

theorem Intact.whole {memory : Option ArchiveState} (h : Intact codec d memory) :
    Whole codec d := by
  cases memory with
  | some state => exact Sound.whole h
  | none => exact h

/-- However an operation ends, it leaves an intact archive. -/
theorem intact_run {α : Type} {m : Action Directory ArchiveState HistoryError α}
    (outcomes : List Outcome)
    (h : Action.Meets True (Whole codec) m state d (fun _ state' d' => Sound codec d' state')
      (fun _ state' d' => Sound codec d' state')) :
    Intact codec (m.run state outcomes d).1 (leftInMemory (m.run state outcomes d).2) := by
  obtain ⟨d', hran, hleft⟩ | ⟨_, state', d', hran, hleft⟩ | ⟨_, state', d', hran, hleft⟩ :=
    h.ended outcomes fun _ => trivial <;>
  · rw [hran]
    exact hleft

theorem intact_step (h : Intact codec archive.disk archive.memory) {label : ArchiveStep}
    (hwithin : WithinQuota codec blockBytes archive label) {next : Archive}
    (hstep : archive.step codec blockBytes terminalId label = some next) :
    Intact codec next.disk next.memory := by
  cases label with
  | load outcomes =>
    simp only [Archive.step] at hstep
    split at hstep
    · obtain rfl := Option.some.inj hstep
      simp only [Archive.load]
      obtain ⟨d', hran, hleft⟩ | ⟨_, _, d', hran, hleft⟩ | ⟨_, _, d', hran, hleft⟩ :=
        (sound_stateFor terminalId h.whole).ended outcomes fun _ => trivial <;>
      · rw [hran]
        exact hleft
    · cases hstep
  | append command outcomes =>
    simp only [Archive.step, Option.map_eq_some_iff] at hstep
    obtain ⟨state, hmemory, rfl⟩ := hstep
    rw [hmemory] at h
    have hran := intact_run outcomes
      (sound_appendOwned h command.valid (hwithin state hmemory))
    simp only [Archive.append]
    split <;> exact hran
  | flush outcomes =>
    simp only [Archive.step, Option.map_eq_some_iff] at hstep
    obtain ⟨state, hmemory, rfl⟩ := hstep
    rw [hmemory] at h
    exact intact_run outcomes (sound_flushArchive h (hwithin state hmemory))
  | finalize now outcomes =>
    simp only [Archive.step] at hstep
    cases hmemory : archive.memory with
    | none =>
      simp only [hmemory, Option.some.injEq] at hstep
      subst hstep
      simp only [Archive.finalizeUnloaded, hmemory]
      obtain ⟨d', hran, hleft⟩ | ⟨_, _, d', hran, hleft⟩ | ⟨_, _, d', hran, hleft⟩ :=
        (sound_finalizeStored h.whole now).ended outcomes fun _ => trivial <;>
      · rw [hran]
        exact hleft
    | some state =>
      simp only [hmemory, Option.some.injEq] at hstep
      subst hstep
      rw [hmemory] at h
      exact (intact_run outcomes (sound_finalizeArchive h (hwithin state hmemory) now)).whole
  | stop =>
    obtain rfl := Option.some.inj hstep
    exact h.whole

/-- A page over blocks that are all there can be read. -/
theorem Whole.readable (h : Whole codec d) {manifest : ArchiveManifest}
    (hindex : d.index = some manifest) (pending : List HistoryRecord) (newest pageBytes cursor : ℕ)
    (maxBytes : Option ℕ) :
    (∃ page, readPage codec pageBytes d ⟨manifest.blocks, pending, newest⟩ cursor maxBytes =
      .ok page) ∧
    ∃ page, readPageReverse codec pageBytes d ⟨manifest.blocks, pending, newest⟩ cursor maxBytes =
      .ok page := by
  obtain ⟨stored, hstored⟩ := h
  rw [hindex] at hstored
  constructor
  · obtain ⟨selected, hselected, -⟩ := readSelected_past hstored cursor
    have hread : readSelected codec d cursor manifest.blocks = .ok selected := hselected
    simp only [readPage, hread]
    exact ⟨_, rfl⟩
  · simp only [readPageReverse]
    split
    · obtain ⟨result, -, -, hresult, -⟩ := takeBlocksBackward_spec (readCeiling cursor newest)
        (pageLimit pageBytes maxBytes) hstored
        (takeBackward (readCeiling cursor newest) (pageLimit pageBytes maxBytes) pending.reverse
          ⟨[], 0⟩).1
      have hread : takeBlocksBackward codec d (readCeiling cursor newest)
          (pageLimit pageBytes maxBytes) manifest.blocks.reverse
          (takeBackward (readCeiling cursor newest) (pageLimit pageBytes maxBytes) pending.reverse
            ⟨[], 0⟩).1 = .ok result := hresult
      rw [hread]
      exact ⟨_, rfl⟩
    · exact ⟨_, rfl⟩

/-- In every run that stays within the quota, wherever a write fails or the process stops, each block
that the manifest on disk lists exists, and every page over them can be read. -/
theorem manifest_intact {steps : List ArchiveStep}
    (hrun : Machine.Path (Archive.machine codec blockBytes terminalId)
      (WithinQuota codec blockBytes) Archive.initial steps archive) :
    ¬MissingBlock archive.disk ∧
    ∀ manifest, archive.disk.index = some manifest → ∀ pending newest pageBytes cursor maxBytes,
      (∃ page, readPage codec pageBytes archive.disk ⟨manifest.blocks, pending, newest⟩ cursor
        maxBytes = .ok page) ∧
      ∃ page, readPageReverse codec pageBytes archive.disk ⟨manifest.blocks, pending, newest⟩ cursor
        maxBytes = .ok page := by
  have hstart : Whole codec Archive.initial.disk := ⟨[], rfl⟩
  have hintact : Intact codec archive.disk archive.memory :=
    hrun.invariant (I := fun archive : Archive => Intact codec archive.disk archive.memory)
      (fun _ _ _ h hwithin hstep => intact_step h hwithin hstep) hstart
  have hwhole := hintact.whole
  refine ⟨?_, fun manifest hindex _ _ _ _ _ => hwhole.readable hindex ..⟩
  rintro ⟨manifest, hm, block, hb, hmissing⟩
  obtain ⟨stored, hstored⟩ := hwhole
  rw [hm] at hstored
  obtain ⟨_, _, -, hheld⟩ := hstored.mem hb
  exact hheld.found hmissing

theorem manifest_intact_interrupted : ∃ archive,
    Machine.Path (Archive.machine storedCodec 1 "terminal-1") (WithinQuota storedCodec 1)
      Archive.initial [.load [], .append firstRead [.done, .done, .done, .done, .done, .done, .failed],
        .flush [.done, .done, .done, .crashed]] archive ∧ ¬MissingBlock archive.disk := by
  obtain ⟨archive, hrun⟩ : ∃ archive,
      Machine.Path (Archive.machine storedCodec 1 "terminal-1") (WithinQuota storedCodec 1)
        Archive.initial [.load [], .append firstRead [.done, .done, .done, .done, .done, .done, .failed],
          .flush [.done, .done, .done, .crashed]] archive := by
    refine ⟨_, .cons trivial rfl (.cons ?_ rfl (.cons ?_ rfl (.nil _)))⟩
    · intro state hmemory _ _
      obtain rfl := Option.some.inj hmemory
      rintro ⟨-, hlength⟩
      revert hlength
      decide +kernel
    · intro state hmemory
      obtain rfl := Option.some.inj hmemory
      rintro ⟨-, hlength⟩
      revert hlength
      decide +kernel
  exact ⟨archive, hrun, (manifest_intact hrun).1⟩

/-- An append that takes the terminal over its quota can stop with a block missing. -/
theorem crash_of_appendOwned {crash : Directory → Prop}
    {ok : Unit → ArchiveState → Directory → Prop}
    {err : HistoryError → ArchiveState → Directory → Prop} {records : List HistoryRecord}
    {record : HistoryRecord} {encoded : Bytes} (h : Loaded codec terminalId d state records)
    (hvalid : record.Valid) (hcheck : state.checkAppend record = .ok ())
    (hfull : blockBytes ≤ (state.pushRecord record).pendingBytes)
    (henc : encodeRecords (state.pushRecord record).pending = .ok encoded)
    (hover : OverQuota ((state.pushRecord record).listedAfterFlush codec))
    (happend : Action.Meets False crash (appendOwned codec blockBytes record) state d ok err) :
    ∃ stopped, crash stopped ∧ MissingBlock stopped := by
  have hnext := checkAppend_ok hcheck
  rw [h.newest] at hnext
  have hne : (state.pushRecord record).pending ≠ [] := by simp [ArchiveState.pushRecord]
  simp only [appendOwned, Action.meets_bind, Action.meets_getState, hcheck,
    Action.meets_ofExcept_ok] at happend
  -- Follow the append up to its quota, then stop.
  obtain ⟨_, _, d₁, hran₁, rfl, hpushed⟩ | ⟨_, _, _, _, hf⟩ :=
    (meets_appendRecord h hvalid hnext).completed [] List.not_mem_nil List.not_mem_nil
  · have hflush := happend.of_run hran₁ List.not_mem_nil
    simp only [flushWhenFull, Action.meets_bind, Action.meets_getState, if_pos hfull] at hflush
    obtain ⟨_, _, d₂, hran₂, rfl, hflushed⟩ | ⟨_, _, _, _, hf⟩ :=
      (meets_flush hpushed hne henc).completed [] List.not_mem_nil List.not_mem_nil
    · have hquota := hflush.of_run hran₂ List.not_mem_nil
      rw [ArchiveState.listedAfterFlush_ok _ henc] at hover
      obtain ⟨block, blocks, hblocks⟩ := List.exists_cons_of_length_pos (Nat.zero_lt_of_lt hover.2)
      have hlisted : block ∈ ((state.pushRecord record).flushed
          (codec.compress encoded)).manifest.blocks := by
        rw [hblocks]
        exact List.mem_cons_self
      have hfile : d₂.files block.file ≠ none := fun hnone =>
        hflushed.whole ⟨_, hflushed.index, block, hlisted, hnone⟩
      exact ⟨_, crash_of_enforceTerminalQuota hquota hblocks hover hfile, _, hflushed.index, block,
        hlisted, Directory.without_files_of_mem List.mem_cons_self⟩
    · exact hf.elim
  · exact hf.elim

/-- A stop right after the quota has deleted its first file leaves a manifest that lists it. -/
theorem evicted_block_missing : ∃ steps archive,
    Machine.Path (Archive.machine storedCodec defaultBlockBytes "terminal-1")
      (fun _ step => .failed ∉ step.outcomes) Archive.initial steps archive ∧
    MissingBlock archive.disk := by
  obtain ⟨n, steps, archive, state, hn, hpath, h, hfull, hover⟩ := exists_overflow
  obtain ⟨encoded, henc, -, -⟩ := h.encodes hn
  have hvalid := noiseRecord_valid hn
  obtain ⟨stopped, ⟨outcomes, hclean, hran⟩, hmissing⟩ := crash_of_appendOwned h.loaded hvalid
    h.checkAppend hfull henc hover (Action.meets_reached ..)
  obtain ⟨next, hnext, hdisk⟩ : ∃ next, (Archive.machine storedCodec defaultBlockBytes
      "terminal-1").step archive (.append ⟨noiseRecord n, hvalid⟩ outcomes) = some next ∧
      next.disk = stopped := by
    refine ⟨archive.append storedCodec defaultBlockBytes state (noiseRecord n) outcomes, ?_, ?_⟩
    · simp only [Archive.machine, Archive.step, h.memory, Option.map_some]
    · simp only [Archive.append, hran]
      split <;> rfl
  have hlast : Machine.Path (Archive.machine storedCodec defaultBlockBytes "terminal-1")
      (fun _ step => .failed ∉ step.outcomes) archive [.append ⟨noiseRecord n, hvalid⟩ outcomes]
      next := .single hclean hnext
  refine ⟨_, next, (hpath.mono fun _ _ hu => hu.1.1).append hlast, ?_⟩
  rwa [hdisk]

end PiDeck.History
