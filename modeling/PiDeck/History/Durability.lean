import Mathlib
import PiDeck.History.Recovery

/-! Every run whose writes do not fail keeps what was appended and not evicted, also when its process
stops. -/
namespace PiDeck.History
open PiDeck.Storage PiDeck.Transition

variable (codec : BlockCodec) (blockBytes : ℕ) (terminalId : String)

/-- The directory, with the state in memory if there is one, holds `records`. -/
def Holds (d : Directory) (memory : Option ArchiveState) (records : List HistoryRecord) : Prop :=
  match memory with
  | some state => Loaded codec terminalId d state records
  | none => Recoverable codec terminalId d records ∨ MissingBlock d

/-- Once the quota was applied after a flush of `before`, it has dropped the oldest of `records`,
and the rest is held. -/
def HoldsRest (before : ArchiveState) (records : List HistoryRecord) (d : Directory)
    (memory : Option ArchiveState) : Prop :=
  ∃ dropped left, records = dropped ++ left ∧ (left = [] → dropped = []) ∧
    (∀ e, evictedAfter codec before d e = lastSequenceOf e dropped) ∧
    Holds codec terminalId d memory left

/-- The invariant of an archive: what was appended and not evicted is held. -/
structure Recorded (archive : Archive) (evicted records : List HistoryRecord) : Prop where
  appended : archive.appended = evicted ++ records
  ordered : Ordered 0 archive.appended
  newest : records = [] → evicted = []
  through : archive.evictedThrough = lastSequenceOf 0 evicted
  held : Holds codec terminalId archive.disk archive.memory records

/-- No write fails, and an archive is loaded only from a directory with all its blocks. -/
def Clean (archive : Archive) (step : ArchiveStep) : Prop :=
  .failed ∉ step.outcomes ∧ ∀ outcomes, step = .load outcomes → ¬MissingBlock archive.disk

variable {codec blockBytes terminalId} {d : Directory} {state : ArchiveState}
  {records evicted : List HistoryRecord} {archive : Archive} {outcomes : List Outcome}

theorem Loaded.stopped (h : Loaded codec terminalId d state records) :
    Holds codec terminalId d none records := .inl h.recoverable

theorem Holds.stop {memory : Option ArchiveState} (h : Holds codec terminalId d memory records) :
    Holds codec terminalId d none records := by
  cases memory with
  | none => exact h
  | some state => exact Loaded.stopped h

/-- The records past what was evicted are those that are held. -/
theorem Recorded.past_eq (h : Recorded codec terminalId archive evicted records) :
    past archive.evictedThrough archive.appended = records := by
  have hordered := h.ordered
  rw [h.appended] at hordered ⊢
  exact hordered.filter_append h.through

/-! ### The operations -/

/-- A run of a flush with its quota. -/
theorem holdsRest_flushArchive (h : Loaded codec terminalId d state records)
    (hclean : .failed ∉ outcomes) :
    HoldsRest codec terminalId state records ((flushArchive codec).run state outcomes d).1
      (leftInMemory ((flushArchive codec).run state outcomes d).2) := by
  obtain ⟨d', hran, hleft, hevicted⟩ | ⟨_, state', d', hran, dropped, left, hsplit, hsome, hevicted, hloaded⟩ |
    ⟨_, state', d', hran, rfl, rfl, hevicted⟩ := (meets_flushArchive h).ended outcomes (absurd · hclean)
  · rw [hran]
    exact ⟨[], records, rfl, fun _ => rfl, hevicted, hleft⟩
  · rw [hran]
    exact ⟨dropped, left, hsplit, hsome, hevicted, hloaded⟩
  · rw [hran]
    exact ⟨[], records, rfl, fun _ => rfl, hevicted, h⟩

/-- Marking an archive closed keeps its records. -/
theorem meets_markClosed (h : Loaded codec terminalId d state records) (now : ℕ) :
    Action.Meets False
      (fun d' => Recoverable codec terminalId d' records ∧ blocksOf d'.index = blocksOf d.index)
      (markClosed now) state d
      (fun _ state' d' => Loaded codec terminalId d' state' records ∧
        blocksOf d'.index = blocksOf d.index)
      (fun _ _ _ => False) := by
  have hrecoverable := h.recoverable
  simp only [markClosed, Action.meets_bind, Action.meets_getState]
  by_cases hclosed : state.manifest.closedAt.isSome = true
  · rw [if_pos hclosed]
    exact ⟨h, rfl⟩
  · simp only [if_neg hclosed, writeManifest, Action.meets_bind, Action.meets_modifyState,
      Action.meets_getState, meets_writeManifestValue]
    refine ⟨⟨hrecoverable, trivial⟩, ⟨⟨?_, rfl⟩, ⟨?_, ?_⟩, False.elim⟩, False.elim⟩
    · exact ⟨hrecoverable.ordered, hrecoverable.own, hrecoverable.split⟩
    · exact ⟨h.ordered, h.present, rfl, h.own, h.pendingBytes, h.split⟩
    · rw [h.index]
      rfl

/-- A run of a close. -/
theorem holdsRest_finalizeArchive (h : Loaded codec terminalId d state records) (now : ℕ)
    (hclean : .failed ∉ outcomes) :
    HoldsRest codec terminalId state records
      ((finalizeArchive codec now).run state outcomes d).1 none := by
  have evictedAfter_congr : ∀ {d₁ d₂ : Directory} {e : ℕ}, blocksOf d₂.index = blocksOf d₁.index →
      evictedAfter codec state d₂ e = evictedAfter codec state d₁ e := by
    intro d₁ d₂ e hblocks
    simp only [evictedAfter, hblocks]
  have hmeets : Action.Meets False (HoldsRest codec terminalId state records · none)
      (finalizeArchive codec now) state d
      (fun _ _ d' => HoldsRest codec terminalId state records d' none)
      (fun _ _ d' => HoldsRest codec terminalId state records d' none) := by
    simp only [finalizeArchive, Action.meets_bind]
    refine (meets_flushArchive h).mono ?_ ?_ ?_
    · rintro d' ⟨hleft, hevicted⟩
      exact ⟨[], records, rfl, fun _ => rfl, hevicted, hleft⟩
    · rintro _ state' d' ⟨dropped, left, hsplit, hsome, hevicted, hloaded⟩
      refine (meets_markClosed hloaded now).mono ?_ ?_ fun _ _ _ => False.elim
      · rintro d'' ⟨hleft, hblocks⟩
        exact ⟨dropped, left, hsplit, hsome, fun e => (evictedAfter_congr hblocks).trans (hevicted e),
          .inl hleft⟩
      · rintro _ _ d'' ⟨hclosed, hblocks⟩
        exact ⟨dropped, left, hsplit, hsome, fun e => (evictedAfter_congr hblocks).trans (hevicted e),
          hclosed.stopped⟩
    · rintro _ state' d' ⟨rfl, rfl, hevicted⟩
      exact ⟨[], records, rfl, fun _ => rfl, hevicted, h.stopped⟩
  obtain ⟨d', hran, hleft⟩ | ⟨_, _, d', hran, hleft⟩ | ⟨_, _, d', hran, hleft⟩ :=
    hmeets.ended outcomes (absurd · hclean) <;>
  · rw [hran]
    exact hleft

/-- A run of a close of an archive that is not in memory. -/
theorem holds_finalizeStored (h : Holds codec terminalId d none records) (now : ℕ)
    (hclean : .failed ∉ outcomes) :
    Holds codec terminalId ((finalizeStored now).run () outcomes d).1 none records := by
  have hsame : ∀ (manifest manifest' : ArchiveManifest) (temporary : Option ArchiveManifest),
      d.index = some manifest → manifest'.version = manifest.version →
      manifest'.terminalId = manifest.terminalId → manifest'.blocks = manifest.blocks →
      Holds codec terminalId { d with index := some manifest', indexTemporary := temporary } none
        records := by
    intro manifest manifest' temporary hindex hversion hid hblocks
    obtain h | ⟨found, hfound, block, hb, hmissing⟩ := h
    · refine .inl ⟨h.ordered, fun found hf => ?_, ?_⟩
      · obtain rfl := Option.some.inj hf
        rw [hversion, hid]
        exact h.own manifest hindex
      · have := h.split
        rw [hindex] at this
        simpa only [blocksOf, Option.map_some, Option.getD_some, hblocks] using this
    · obtain rfl := Option.some.inj (hfound.symm.trans hindex)
      exact .inr ⟨manifest', rfl, block, hblocks ▸ hb, hmissing⟩
  have hmeets : Action.Meets False (Holds codec terminalId · none records)
      (finalizeStored now) () d (fun _ _ d' => Holds codec terminalId d' none records)
      (fun _ _ _ => False) := by
    simp only [finalizeStored, readManifest, Action.meets_bind, Action.meets_inspect]
    cases hindex : d.index with
    | none => simpa using h
    | some manifest =>
      simp only [Option.isSome_some, if_true, attempt, Action.meets_bind, Action.meets_step,
        Action.meets_pure]
      refine ⟨h, ?_, False.elim⟩
      by_cases hclosed : manifest.closedAt.isSome = true
      · simp only [if_pos hclosed, Action.meets_pure]
        exact h
      · simp only [if_neg hclosed, meets_writeManifestValue]
        have htemporary := hsame manifest manifest (some { manifest with closedAt := some now })
          hindex rfl rfl rfl
        have hwritten := hsame manifest { manifest with closedAt := some now } none hindex
          rfl rfl rfl
        rw [← hindex] at htemporary
        exact ⟨h, ⟨htemporary, hwritten, False.elim⟩, False.elim⟩
  obtain ⟨d', hran, hleft⟩ | ⟨_, _, d', hran, hleft⟩ | ⟨_, _, d', hran, hleft⟩ :=
    hmeets.ended outcomes (absurd · hclean)
  · rw [hran]
    exact hleft
  · rw [hran]
    exact hleft
  · exact hleft.elim

theorem checkAppend_ok {record : HistoryRecord} (h : state.checkAppend record = .ok ()) :
    state.newest 0 < record.sequence := by
  simp only [ArchiveState.checkAppend] at h
  split at h
  · cases h
  · split at h
    · cases h
    · omega

theorem run_appendOwned {record : HistoryRecord} (h : state.checkAppend record = .ok ()) :
    (appendOwned codec blockBytes record).run state outcomes d =
      (appendRecord record >>= fun _ => flushWhenFull codec blockBytes).run state outcomes d := by
  change (Action.ofExcept (state.checkAppend record) >>= fun _ =>
    appendRecord record >>= fun _ => flushWhenFull codec blockBytes).run state outcomes d = _
  rw [h]
  rfl

theorem run_appendOwned_refused {record : HistoryRecord} {e : HistoryError}
    (h : state.checkAppend record = .error e) :
    (appendOwned codec blockBytes record).run state outcomes d = (d, some (.error e, state)) := by
  change (Action.ofExcept (state.checkAppend record) >>= fun _ =>
    appendRecord record >>= fun _ => flushWhenFull codec blockBytes).run state outcomes d = _
  rw [h]
  rfl

theorem run_flushWhenFull :
    (flushWhenFull codec blockBytes).run state outcomes d =
      if blockBytes ≤ state.pendingBytes then (flushArchive codec).run state outcomes d
      else (d, some (.ok (), state)) := by
  change (if blockBytes ≤ state.pendingBytes then flushArchive codec else pure ()).run state outcomes
    d = _
  split <;> rfl

/-! ### Every run -/

namespace Recorded

/-- What the quota dropped joins what was evicted before. -/
theorem of_rest {s : Archive} {before : ArchiveState}
    (happended : s.appended = evicted ++ records) (hordered : Ordered 0 s.appended)
    (hnewest : records = [] → evicted = [])
    (hthrough : s.evictedThrough =
      evictedAfter codec before s.disk (lastSequenceOf 0 evicted))
    (hrest : HoldsRest codec terminalId before records s.disk s.memory) :
    ∃ evicted' records', Recorded codec terminalId s evicted' records' := by
  obtain ⟨dropped, left, rfl, hsome, hevicted, hholds⟩ := hrest
  refine ⟨evicted ++ dropped, left, by rw [happended, List.append_assoc], hordered, ?_, ?_, hholds⟩
  · intro hnil
    obtain rfl := hsome hnil
    rw [hnewest (by rw [hnil, List.append_nil]), List.append_nil]
  · rw [hthrough, hevicted, lastSequenceOf_append]

theorem append (h : Recorded codec terminalId archive evicted records)
    (hmemory : archive.memory = some state) {record : HistoryRecord} (hvalid : record.Valid)
    (hclean : .failed ∉ outcomes) : ∃ evicted' records', Recorded codec terminalId
      (archive.append codec blockBytes state record outcomes) evicted' records' := by
  have hloaded : Loaded codec terminalId archive.disk state records := by
    have := h.held
    rwa [hmemory] at this
  cases hcheck : state.checkAppend record with
  | error e =>
    refine ⟨evicted, records, ?_⟩
    simp only [Archive.append, run_appendOwned_refused hcheck, hcheck, reduceCtorEq, false_and,
      if_false]
    exact ⟨h.appended, h.ordered, h.newest, h.through, hloaded⟩
  | ok _ =>
    have hnext := checkAppend_ok hcheck
    rw [hloaded.newest] at hnext
    obtain ⟨d', hran, hleft⟩ | ⟨_, state', d', hran, rfl, hpushed⟩ | ⟨_, _, _, _, hf⟩ :=
      (meets_appendRecord hloaded hvalid hnext).ended outcomes (absurd · hclean)
    · -- Stopped before the record was complete.
      refine ⟨evicted, records, ?_⟩
      simp only [Archive.append, run_appendOwned hcheck, Action.run_bind_stopped _ hran, hran,
        succeeded, Option.isSome_none, Bool.false_eq_true, and_false, if_false]
      exact ⟨h.appended, h.ordered, h.newest, h.through, .inl hleft⟩
    · obtain ⟨rest, hsuffix, hflushed⟩ :=
        Action.run_bind_ok (fun _ => flushWhenFull codec blockBytes) hran
      have hcleanRest : .failed ∉ rest := fun hmem => hclean (hsuffix.subset hmem)
      have happended : archive.appended ++ [record] = evicted ++ (records ++ [record]) := by
        rw [h.appended, List.append_assoc]
      have hordered : Ordered 0 (archive.appended ++ [record]) := by
        refine ordered_append.mpr ⟨h.ordered, ?_, hvalid, trivial⟩
        refine lt_of_eq_of_lt ?_ hnext
        rw [h.appended, lastSequenceOf_append]
        by_cases hnone : records = []
        · rw [hnone, h.newest hnone]
          rfl
        · exact lastSequenceOf_nonempty hnone _ _
      simp only [Archive.append, run_appendOwned hcheck, hflushed, hran, hcheck, succeeded,
        Option.isSome_some, and_self, if_true, run_flushWhenFull]
      by_cases hfull : blockBytes ≤ (state.pushRecord record).pendingBytes
      · simp only [if_pos hfull]
        refine of_rest happended hordered (by simp) ?_ (holdsRest_flushArchive hpushed hcleanRest)
        rw [h.through]
      · simp only [if_neg hfull]
        exact ⟨evicted, records ++ [record], happended, hordered, by simp, h.through, hpushed⟩
    · exact hf.elim

theorem load (h : Recorded codec terminalId archive evicted records)
    (hmemory : archive.memory = none) (hclean : .failed ∉ outcomes)
    (hwhole : ¬MissingBlock archive.disk) :
    Recorded codec terminalId (archive.load terminalId outcomes) evicted records := by
  have hrecoverable : Recoverable codec terminalId archive.disk records := by
    have := h.held
    rw [hmemory] at this
    exact this.resolve_right hwhole
  have hheld : Holds codec terminalId (archive.load terminalId outcomes).disk
      (archive.load terminalId outcomes).memory records := by
    simp only [Archive.load]
    obtain ⟨d', hran, hleft⟩ | ⟨state, _, d', hran, hloaded⟩ | ⟨_, _, _, _, hf⟩ :=
      (meets_stateFor (s := ()) hrecoverable).ended outcomes (absurd · hclean)
    · rw [hran]
      exact .inl hleft
    · rw [hran]
      exact hloaded
    · exact hf.elim
  exact ⟨h.appended, h.ordered, h.newest, h.through, hheld⟩

/-- One step of an archive whose writes do not fail. -/
theorem step (h : Recorded codec terminalId archive evicted records) {label : ArchiveStep}
    (hclean : Clean archive label) {next : Archive}
    (hstep : archive.step codec blockBytes terminalId label = some next) :
    ∃ evicted' records', Recorded codec terminalId next evicted' records' := by
  obtain ⟨hoks, hload⟩ := hclean
  cases label with
  | load outcomes =>
    simp only [Archive.step] at hstep
    split at hstep
    · rename_i hmemory
      obtain rfl := Option.some.inj hstep
      exact ⟨_, _, h.load (Option.isNone_iff_eq_none.mp hmemory) hoks (hload _ rfl)⟩
    · cases hstep
  | append command outcomes =>
    simp only [Archive.step, Option.map_eq_some_iff] at hstep
    obtain ⟨state, hmemory, rfl⟩ := hstep
    exact h.append hmemory command.valid hoks
  | flush outcomes =>
    simp only [Archive.step, Option.map_eq_some_iff] at hstep
    obtain ⟨state, hmemory, rfl⟩ := hstep
    have hloaded := h.held
    rw [hmemory] at hloaded
    refine of_rest h.appended h.ordered h.newest ?_ (holdsRest_flushArchive hloaded hoks)
    rw [← h.through]
    rfl
  | finalize now outcomes =>
    simp only [Archive.step] at hstep
    have hheld := h.held
    cases hmemory : archive.memory with
    | none =>
      simp only [hmemory, Option.some.injEq] at hstep hheld
      subst hstep
      refine ⟨evicted, records, h.appended, h.ordered, h.newest, h.through, ?_⟩
      simp only [Archive.finalizeUnloaded, hmemory]
      exact holds_finalizeStored hheld now hoks
    | some state =>
      simp only [hmemory, Option.some.injEq] at hstep hheld
      subst hstep
      refine of_rest h.appended h.ordered h.newest ?_ (holdsRest_finalizeArchive hheld now hoks)
      rw [← h.through]
      rfl
  | stop =>
    obtain rfl := Option.some.inj hstep
    exact ⟨evicted, records, h.appended, h.ordered, h.newest, h.through, h.held.stop⟩

theorem initial : Recorded codec terminalId Archive.initial [] [] := by
  refine ⟨rfl, trivial, fun _ => rfl, rfl, .inl ⟨trivial, fun manifest hm => ?_, ?_⟩⟩
  · cases hm
  · exact ⟨[], [], [], rfl, torn_nil, rfl, .empty rfl rfl⟩

/-- Every run keeps what was appended and not evicted. -/
theorem run {steps : List ArchiveStep}
    (hrun : Machine.Path (Archive.machine codec blockBytes terminalId) Clean Archive.initial steps
      archive) : ∃ evicted records, Recorded codec terminalId archive evicted records := by
  refine hrun.invariant (I := fun archive =>
    ∃ evicted records, Recorded codec terminalId archive evicted records) ?_ ?_
  · rintro archive label next ⟨evicted, records, h⟩ hclean hstep
    exact h.step hclean hstep
  · exact ⟨[], [], initial⟩

end Recorded

end PiDeck.History
