import Mathlib
import PiDeck.History.Owner
import PiDeck.History.Manifest

/-! Closes and what they wait for. A close is finalized once its terminal is written through the
sequence that was accepted when it was closed, so it waits for ever if that is never written. -/
namespace PiDeck.History
open PiDeck.Storage PiDeck.Transition

variable {codec : BlockCodec} {blockBytes : ℕ} {terminalId : String} {d : Directory}
  {state : ArchiveState} {outcomes : List Outcome}

/-! ### What the operations do to the newest sequence -/

/-- The newest sequence is still `sequence`, and the directory is there. -/
def Reaches (sequence : ℕ) (state : ArchiveState) (d : Directory) : Prop :=
  state.newest 0 = sequence ∧ d.present = true

theorem newest_flushed (hne : state.pending ≠ []) (compressed : Bytes) :
    (state.flushed compressed).newest 0 = state.newest 0 := by
  have hlast : (state.flushed compressed).newest 0 = lastSequenceOf 0 state.pending := by
    simp [ArchiveState.newest, ArchiveState.flushed, ArchiveState.clearPending,
      ArchiveState.pushBlock, ArchiveState.nextBlock, lastOfBlocks]
  rw [hlast]
  exact lastSequenceOf_nonempty hne _ _

theorem reaches_flushState (hpresent : d.present = true) :
    Action.Meets True (fun _ => True) (flushState codec) state d
      (fun _ => Reaches (state.newest 0)) (fun _ => Reaches (state.newest 0)) := by
  by_cases hempty : state.pending = []
  · rw [meets_flushState_empty hempty]
    exact ⟨rfl, hpresent⟩
  · cases henc : encodeRecords state.pending with
    | error e =>
      rw [meets_flushState_unencoded hpresent hempty henc]
      exact ⟨rfl, hpresent⟩
    | ok encoded =>
      have hflushed := newest_flushed hempty (codec.compress encoded)
      refine (meets_flushState hpresent hempty henc rfl).mpr ⟨?_, ?_, hflushed, hpresent⟩
      · simp only [uncommittedDisks, List.forall_mem_cons, List.not_mem_nil, false_implies,
          implies_true, and_true]
        exact ⟨⟨trivial, fun _ => ⟨rfl, hpresent⟩⟩, ⟨trivial, fun _ => ⟨rfl, hpresent⟩⟩,
          ⟨trivial, fun _ => ⟨rfl, hpresent⟩⟩, trivial, fun _ => ⟨rfl, hpresent⟩⟩
      · simp only [committedDisks, List.forall_mem_cons, List.not_mem_nil, false_implies,
          implies_true, and_true]
        exact ⟨⟨trivial, fun _ => ⟨hflushed, hpresent⟩⟩, ⟨trivial, fun _ => ⟨hflushed, hpresent⟩⟩,
          trivial, fun _ => ⟨hflushed, hpresent⟩⟩

theorem reaches_writeManifest {sequence : ℕ} (h : Reaches sequence state d) :
    Action.Meets True (fun _ => True) writeManifest state d (fun _ => Reaches sequence)
      (fun _ => Reaches sequence) := by
  simp only [writeManifest, Action.meets_bind, Action.meets_getState, meets_writeManifestValue]
  exact ⟨trivial, ⟨trivial, h, fun _ => h⟩, fun _ => h⟩

/-- The quota never drops the newest block. -/
theorem reaches_evictBlocks {sequence : ℕ} {blocks : List ArchiveBlock} (bytes : ℕ)
    (hblocks : state.manifest.blocks = blocks) (h : Reaches sequence state d) :
    Action.Meets True (fun _ => True) (evictBlocks blocks bytes) state d
      (fun _ => Reaches sequence) (fun _ => Reaches sequence) := by
  induction blocks generalizing bytes state d with
  | nil => exact h
  | cons block blocks ih =>
    cases blocks with
    | nil => exact h
    | cons next blocks =>
      by_cases hover : maxTerminalBytes < bytes
      · have hkept : Reaches sequence (state.withBlocks (next :: blocks)) d := by
          refine ⟨?_, h.2⟩
          rw [← h.1]
          simp [ArchiveState.newest, ArchiveState.withBlocks, hblocks]
        simp only [evictBlocks, if_pos hover, Action.meets_bind, Action.meets_modifyState]
        exact meets_removeBlockFile _ trivial (ih _ rfl hkept) fun _ => hkept
      · simp only [evictBlocks, if_neg hover, Action.meets_pure]
        exact h

theorem reaches_enforceTerminalQuota {sequence : ℕ} (h : Reaches sequence state d) :
    Action.Meets True (fun _ => True) enforceTerminalQuota state d (fun _ => Reaches sequence)
      (fun _ => Reaches sequence) := by
  simp only [enforceTerminalQuota, Action.meets_bind, Action.meets_getState]
  refine (reaches_evictBlocks _ rfl h).mono (fun _ hc => hc) ?_ fun _ _ _ he => he
  exact fun _ _ _ hkept => reaches_writeManifest hkept

theorem reaches_flushArchive (codec : BlockCodec) (state : ArchiveState)
    (hpresent : d.present = true) :
    Action.Meets True (fun _ => True) (flushArchive codec) state d
      (fun _ => Reaches (state.newest 0)) (fun _ => Reaches (state.newest 0)) := by
  simp only [flushArchive, Action.meets_bind]
  refine (reaches_flushState hpresent).mono (fun _ hc => hc) ?_ fun _ _ _ he => he
  exact fun _ _ _ hflushed => reaches_enforceTerminalQuota hflushed

theorem pushes_appendRecord (hpresent : d.present = true) (record : HistoryRecord) :
    Action.Meets True (fun _ => True) (appendRecord record) state d
      (fun _ state' d' => state' = state.pushRecord record ∧ d'.present = true)
      (fun _ state' d' => state' = state ∧ d'.present = true) := by
  simp only [appendRecord, appendActiveRecord, Action.meets_bind, Action.meets_modifyState]
  exact sound_writePieces (fun _ => trivial) (fun _ => ⟨rfl, hpresent⟩) fun _ => ⟨rfl, hpresent⟩

theorem reaches_flushWhenFull (codec : BlockCodec) (blockBytes : ℕ) (state : ArchiveState)
    (hpresent : d.present = true) :
    Action.Meets True (fun _ => True) (flushWhenFull codec blockBytes) state d
      (fun _ => Reaches (state.newest 0)) (fun _ => Reaches (state.newest 0)) := by
  simp only [flushWhenFull, Action.meets_bind, Action.meets_getState]
  split
  · exact reaches_flushArchive codec state hpresent
  · exact ⟨rfl, hpresent⟩

theorem newest_pushRecord (state : ArchiveState) (record : HistoryRecord) :
    (state.pushRecord record).newest 0 = record.sequence := by
  simp [ArchiveState.newest, ArchiveState.pushRecord]

/-- An append never takes the newest sequence back. -/
theorem reaches_appendOwned (hpresent : d.present = true) (record : HistoryRecord) :
    Action.Meets True (fun _ => True) (appendOwned codec blockBytes record) state d
      (fun _ state' d' => state.newest 0 ≤ state'.newest 0 ∧ d'.present = true)
      (fun _ state' d' => state.newest 0 ≤ state'.newest 0 ∧ d'.present = true) := by
  simp only [appendOwned, Action.meets_bind, Action.meets_getState]
  cases hcheck : state.checkAppend record with
  | error e => exact ⟨le_refl _, hpresent⟩
  | ok _ =>
    have hnext := (checkAppend_ok hcheck).le
    rw [Action.meets_ofExcept_ok]
    refine (pushes_appendRecord hpresent record).mono (fun _ hc => hc) ?_ ?_
    · rintro _ _ d' ⟨rfl, hpresent'⟩
      have hkept : ∀ state' d', Reaches ((state.pushRecord record).newest 0) state' d' →
          state.newest 0 ≤ state'.newest 0 ∧ d'.present = true := by
        rintro state' d' ⟨hsame, hpresent''⟩
        exact ⟨hsame ▸ newest_pushRecord state record ▸ hnext, hpresent''⟩
      exact (reaches_flushWhenFull codec blockBytes _ hpresent').mono (fun _ hc => hc)
        (fun _ _ _ => hkept _ _) fun _ _ _ => hkept _ _
    · rintro _ _ d' ⟨rfl, hpresent'⟩
      exact ⟨le_refl _, hpresent'⟩

/-- An archive is loaded from a directory that is there. -/
theorem present_stateFor (terminalId : String) (d : Directory) :
    Action.Meets True (fun _ => True) (stateFor terminalId) () d
      (fun _ _ d' => d'.present = true) (fun _ _ _ => True) := by
  have opened : ∀ (d' : Directory) (cut : ℕ), d'.present = true →
      Action.Meets True (fun _ => True) (openActiveSegment cut) () d'
        (fun _ _ d' => d'.present = true) (fun _ _ _ => True) :=
    fun d' cut hpresent => sound_openActiveSegment (fun _ => trivial) (fun _ _ _ => hpresent)
      fun _ _ => trivial
  simp only [stateFor, Action.meets_bind, Action.meets_step, readManifest, Action.meets_inspect]
  refine ⟨trivial, ?_, fun _ => trivial⟩
  cases hindex : d.index with
  | some manifest =>
    simp only [Option.isSome_some, if_true, attempt, Action.meets_bind, Action.meets_step,
      Action.meets_pure, loadManifest]
    refine ⟨trivial, ?_, fun _ => trivial⟩
    split
    · rw [Action.meets_pure]
      split
      · trivial
      · simp only [Action.meets_bind, Action.meets_pure]
        exact opened _ _ rfl
    · trivial
  | none =>
    simp only [Option.isSome_none, Bool.false_eq_true, if_false, Action.meets_pure, loadManifest,
      Action.meets_bind, meets_writeManifestValue, newManifest, ne_eq, not_true_eq_false]
    exact ⟨trivial, ⟨trivial, opened _ _ rfl, fun _ => trivial⟩, fun _ => trivial⟩

/-! ### The closes that wait -/

namespace HistoryOwner
variable {owner next : HistoryOwner}

/-- The closes that were accepted and are not finalized. -/
def waiting (owner : HistoryOwner) : List CloseCommand := owner.closes ++ owner.finalize

/-- What a close waits for is written, or on its way. -/
def Coming (owner : HistoryOwner) (close : CloseCommand) : Prop :=
  close.throughSequence ≤ owner.writtenSequence close.terminalId ∨
    ∃ record, .append close.terminalId record ∈ owner.ingest ∧
      record.sequence = close.throughSequence

/-- The directory of an archive in memory is there. -/
def Present (owner : HistoryOwner) : Prop :=
  ∀ terminalId, owner.states terminalId ≠ none → (owner.directories terminalId).present = true

/-- The invariant of an owner whose closes all end. -/
structure Draining (owner : HistoryOwner) : Prop where
  pending : ∀ terminalId, terminalId ∈ owner.pendingCloses ↔
    terminalId ∈ owner.waiting.map (·.terminalId)
  once : (owner.waiting.map (·.terminalId)).Nodup
  coming : ∀ close ∈ owner.waiting, owner.Coming close
  present : owner.Present

/-- The owner writes a record through: the archive is loaded, and either it is written that far
already, or it takes the record and the write of the record does not fail. -/
def Takes (owner : HistoryOwner) (outcomes : OwnerOutcomes) (terminalId : String)
    (record : HistoryRecord) : Prop :=
  ∃ loaded state, owner.stateFor terminalId outcomes.loading = some (loaded, .ok state) ∧
    (record.sequence ≤ state.newest 0 ∨
      state.checkAppend record = .ok () ∧ ∃ d' state', (appendRecord record).run state
        outcomes.command (loaded.directories terminalId) = (d', some (.ok (), state')))

/-- A close is accepted only when the newest accepted append of its terminal, if any, is written in
an archive in memory or still in the mailbox; and an append that a close waits for is taken when
the owner comes to it. -/
def Awaits (owner : HistoryOwner) : OwnerStep → Prop
  | .close terminalId => terminalId ∉ owner.pendingCloses →
      owner.Coming ⟨terminalId, owner.acceptedSequences terminalId⟩
  | .receive outcomes => ∀ terminalId record rest,
      owner.ingest = .append terminalId record :: rest →
      ⟨terminalId, record.sequence⟩ ∈ owner.waiting →
      Takes { owner with ingest := rest } outcomes terminalId record
  | _ => True

theorem writtenSequence_of_none {terminalId : String} (h : owner.states terminalId = none) :
    owner.writtenSequence terminalId = 0 := by
  simp [writtenSequence, h]

theorem writtenSequence_of_some {terminalId : String} {state : ArchiveState}
    (h : owner.states terminalId = some state) :
    owner.writtenSequence terminalId = state.newest 0 := by
  simp [writtenSequence, h]

theorem writtenSequence_put (terminalId' : String) :
    (owner.put terminalId d (some state)).writtenSequence terminalId' =
      if terminalId' = terminalId then state.newest 0 else owner.writtenSequence terminalId' := by
  by_cases h : terminalId' = terminalId
  · subst h
    simp [writtenSequence, put]
  · simp [writtenSequence, put, h]

/-- What an operation on an archive leaves as it was, and what it only moves forward. -/
structure Forward (owner next : HistoryOwner) : Prop where
  written : ∀ terminalId, owner.writtenSequence terminalId ≤ next.writtenSequence terminalId
  present : next.Present
  pendingCloses : next.pendingCloses = owner.pendingCloses
  ingest : owner.ingest ⊆ next.ingest
  finalize : next.finalize = owner.finalize
  closes : next.closes = owner.closes

namespace Forward

theorem refl (h : owner.Present) : owner.Forward owner :=
  ⟨fun _ => le_refl _, h, rfl, List.Subset.refl _, rfl, rfl⟩

theorem trans {middle : HistoryOwner} (h : owner.Forward middle) (h' : middle.Forward next) :
    owner.Forward next :=
  ⟨fun t => (h.written t).trans (h'.written t), h'.present,
    h'.pendingCloses.trans h.pendingCloses, List.Subset.trans h.ingest h'.ingest,
    h'.finalize.trans h.finalize, h'.closes.trans h.closes⟩

/-- Putting an archive back that is written at least as far. -/
theorem put (h : owner.Present) (hwritten : owner.writtenSequence terminalId ≤ state.newest 0)
    (hpresent : d.present = true) : owner.Forward (owner.put terminalId d (some state)) := by
  refine ⟨fun t => ?_, fun t ht => ?_, rfl, List.Subset.refl _, rfl, rfl⟩
  · rw [writtenSequence_put]
    split
    · rename_i heq
      rwa [heq]
    · exact le_refl _
  · by_cases heq : t = terminalId
    · subst heq
      simpa [HistoryOwner.put] using hpresent
    · simp only [HistoryOwner.put, Function.update_of_ne heq] at ht ⊢
      exact h t ht

/-- Leaving an archive out of memory that was not there. -/
theorem put_none (h : owner.Present) (hnone : owner.states terminalId = none) :
    owner.Forward (owner.put terminalId d none) := by
  have hsame : Function.update owner.states terminalId none = owner.states := by
    rw [← hnone, Function.update_eq_self]
  refine ⟨fun t => ?_, fun t ht => ?_, rfl, List.Subset.refl _, rfl, rfl⟩
  · simp [writtenSequence, HistoryOwner.put, hsame]
  · simp only [HistoryOwner.put, hsame] at ht ⊢
    have hne : t ≠ terminalId := by
      rintro rfl
      exact ht hnone
    rw [Function.update_of_ne hne]
    exact h t ht

/-- Only what was accepted changes otherwise. -/
theorem accept (h : owner.Forward next) (accepted : String → ℕ) :
    owner.Forward { next with acceptedSequences := accepted } :=
  ⟨h.written, h.present, h.pendingCloses, h.ingest, h.finalize, h.closes⟩

end Forward

theorem forward_stateFor (hp : owner.Present) {result : Except HistoryError ArchiveState}
    (h : owner.stateFor terminalId outcomes = some (next, result)) :
    owner.Forward next ∧ ∀ state, result = .ok state → next.states terminalId = some state := by
  unfold stateFor at h
  cases hstate : owner.states terminalId with
  | some state =>
    simp only [hstate, Option.some.injEq, Prod.mk.injEq] at h
    obtain ⟨rfl, rfl⟩ := h
    refine ⟨.refl hp, fun state' heq => ?_⟩
    rw [hstate, Except.ok.inj heq]
  | none =>
    simp only [hstate] at h
    obtain ⟨d', hran, -⟩ | ⟨state, _, d', hran, hpresent⟩ | ⟨e, _, d', hran, -⟩ :=
      (present_stateFor terminalId (owner.directories terminalId)).ended outcomes fun _ => trivial
    · simp [hran] at h
    · simp only [hran, Option.some.injEq, Prod.mk.injEq] at h
      obtain ⟨rfl, rfl⟩ := h
      refine ⟨.accept (.put hp ?_ hpresent) _, fun state' heq => ?_⟩
      · rw [writtenSequence_of_none hstate]
        exact Nat.zero_le _
      · obtain rfl := Except.ok.inj heq
        exact Function.update_self ..
    · simp only [hran, Option.some.injEq, Prod.mk.injEq] at h
      obtain ⟨rfl, rfl⟩ := h
      exact ⟨.put_none hp hstate, fun state' heq => by cases heq⟩

/-- Once the archive is loaded, the operation runs on it and leaves it in memory. -/
theorem onArchive_loaded {loading command : List Outcome} {loaded : HistoryOwner}
    {operation : Action Directory ArchiveState HistoryError Unit}
    (hload : owner.stateFor terminalId loading = some (loaded, .ok state))
    (h : owner.onArchive terminalId loading command operation = some next) :
    ∃ d' result state', operation.run state command (loaded.directories terminalId) =
      (d', some (result, state')) ∧ next = loaded.put terminalId d' (some state') := by
  simp only [onArchive, hload] at h
  generalize hran : operation.run state command (loaded.directories terminalId) = ran at h
  obtain ⟨d', _ | ⟨result, state'⟩⟩ := ran
  · cases h
  · exact ⟨d', result, state', rfl, (Option.some.inj h).symm⟩

theorem forward_onArchive (hp : owner.Present) {loading command : List Outcome}
    {operation : Action Directory ArchiveState HistoryError Unit}
    (hop : ∀ (state : ArchiveState) (d : Directory), d.present = true →
      Action.Meets True (fun _ => True) operation state d
        (fun _ state' d' => state.newest 0 ≤ state'.newest 0 ∧ d'.present = true)
        (fun _ state' d' => state.newest 0 ≤ state'.newest 0 ∧ d'.present = true))
    (h : owner.onArchive terminalId loading command operation = some next) :
    owner.Forward next := by
  cases hload : owner.stateFor terminalId loading with
  | none => simp [onArchive, hload] at h
  | some loaded =>
    obtain ⟨loaded, result⟩ := loaded
    obtain ⟨hforward, hmemory⟩ := forward_stateFor hp hload
    cases result with
    | error e =>
      simp only [onArchive, hload, Option.some.injEq] at h
      exact h ▸ hforward
    | ok state =>
      have hstate := hmemory state rfl
      have hpresent := hforward.present terminalId (by simp [hstate])
      have hwritten := writtenSequence_of_some hstate
      obtain ⟨d', result, state', hran, rfl⟩ := onArchive_loaded hload h
      have hkept := (hop state _ hpresent).result_of_run hran fun _ => trivial
      exact hforward.trans (.put hforward.present (hwritten ▸ hkept.1) hkept.2)

theorem forward_flushLive {flushing : List (String × List Outcome)} (hp : owner.Present)
    (h : flushLive codec flushing owner = some next) : owner.Forward next := by
  induction flushing generalizing owner with
  | nil =>
    obtain rfl := Option.some.inj h
    exact .refl hp
  | cons first rest ih =>
    obtain ⟨terminalId, outcomes⟩ := first
    cases hstate : owner.states terminalId with
    | none =>
      simp only [flushLive, hstate] at h
      exact ih hp h
    | some state =>
      simp only [flushLive, hstate] at h
      have hpresent := hp terminalId (by simp [hstate])
      have hwritten := writtenSequence_of_some hstate
      obtain ⟨d', hran, -⟩ | ⟨_, state', d', hran, hkept⟩ | ⟨_, state', d', hran, hkept⟩ :=
        (reaches_flushArchive codec state hpresent).ended outcomes fun _ => trivial
      · simp [hran] at h
      · simp only [hran] at h
        have hput : owner.Forward (owner.put terminalId d' (some state')) :=
          .put hp (hwritten.trans hkept.1.symm).le hkept.2
        exact hput.trans (ih hput.present h)
      · simp only [hran, Option.some.injEq] at h
        subst h
        exact .put hp (hwritten.trans hkept.1.symm).le hkept.2

/-- The record that the owner takes is written in the archive that it leaves in memory. -/
theorem written_of_takes (hp : owner.Present) {outcomes : OwnerOutcomes} {record : HistoryRecord}
    (htakes : owner.Takes outcomes terminalId record)
    (h : owner.onArchive terminalId outcomes.loading outcomes.command
      (appendOwned codec blockBytes record) = some next) :
    record.sequence ≤ next.writtenSequence terminalId := by
  obtain ⟨loaded, state, hload, htakes⟩ := htakes
  obtain ⟨hforward, hmemory⟩ := forward_stateFor hp hload
  have hpresent := hforward.present terminalId (by simp [hmemory state rfl])
  obtain ⟨d', result, state', hran, rfl⟩ := onArchive_loaded hload h
  rw [writtenSequence_put, if_pos rfl]
  obtain hwritten | ⟨hcheck, d₁, state₁, hrecord⟩ := htakes
  · have hkept := (reaches_appendOwned hpresent record).result_of_run hran fun _ => trivial
    exact hwritten.trans hkept.1
  · obtain ⟨rfl, hpresent₁⟩ := (pushes_appendRecord hpresent record).of_run hrecord fun _ => trivial
    -- Whatever becomes of the flush, the record stays the newest one.
    have hrest : (appendOwned codec blockBytes record).run state outcomes.command
        (loaded.directories terminalId) = (appendRecord record >>= fun _ =>
          flushWhenFull codec blockBytes).run state outcomes.command
            (loaded.directories terminalId) := by
      simp only [appendOwned, Action.run, bind, Action.getState, Program.bind,
        Action.continueWith, hcheck, Action.ofExcept, pure]
    obtain ⟨outcomes', -, hflush⟩ :=
      Action.run_bind_ok (fun _ => flushWhenFull codec blockBytes) hrecord
    rw [hrest, hflush] at hran
    have hkept := (reaches_flushWhenFull codec blockBytes _ hpresent₁).result_of_run hran
      fun _ => trivial
    exact (newest_pushRecord state record ▸ hkept.1).ge

/-! ### Finalizing -/

theorem finalizeTerminal_put {now : ℕ}
    (h : owner.finalizeTerminal codec terminalId now outcomes = some next) :
    ∃ d', next = owner.put terminalId d' none := by
  unfold finalizeTerminal at h
  cases hstate : owner.states terminalId with
  | none =>
    simp only [hstate] at h
    generalize (finalizeStored now).run () outcomes (owner.directories terminalId) = ran at h
    obtain ⟨d', _ | _⟩ := ran
    · cases h
    · exact ⟨d', (Option.some.inj h).symm⟩
  | some state =>
    simp only [hstate] at h
    generalize (finalizeArchive codec now).run state outcomes (owner.directories terminalId) = ran
      at h
    obtain ⟨d', _ | _⟩ := ran
    · cases h
    · exact ⟨d', (Option.some.inj h).symm⟩

/-- A terminal is finalized. -/
def finished (owner : HistoryOwner) (terminalId : String) (d : Directory) : HistoryOwner :=
  { owner.put terminalId d none with pendingCloses := owner.pendingCloses.erase terminalId }

theorem writtenSequence_finished {t : String} (d : Directory) (hne : t ≠ terminalId) :
    (owner.finished terminalId d).writtenSequence t = owner.writtenSequence t := by
  simp [finished, writtenSequence, put, hne]

theorem present_finished (hp : owner.Present) (terminalId : String) (d : Directory) :
    (owner.finished terminalId d).Present := by
  intro t ht
  by_cases heq : t = terminalId
  · subst heq
    simp [finished, put] at ht
  · simp only [finished, put, Function.update_of_ne heq] at ht ⊢
    exact hp t ht

/-- What is written of the terminals that no ready close names stays, the ready closes are no longer
pending, and the others are left. -/
structure Finalized (ready : CloseCommand → Bool) (closes : List CloseCommand)
    (owner next : HistoryOwner) (left : List CloseCommand) : Prop where
  left_eq : left = closes.filter fun close => !ready close
  pendingCloses : ∀ terminalId, terminalId ∈ next.pendingCloses ↔
    terminalId ∈ owner.pendingCloses ∧
      ∀ close ∈ closes, ready close = true → close.terminalId ≠ terminalId
  written : ∀ terminalId,
    (∀ close ∈ closes, ready close = true → close.terminalId ≠ terminalId) →
      next.writtenSequence terminalId = owner.writtenSequence terminalId
  present : next.Present
  ingest : next.ingest = owner.ingest
  finalize : next.finalize = owner.finalize

/-- A close is ready once its terminal is written through its sequence. -/
def Ready (owner : HistoryOwner) (close : CloseCommand) : Bool :=
  decide (close.throughSequence ≤ owner.writtenSequence close.terminalId)

theorem finalized_finalizeEach {closing : String → ℕ × List Outcome}
    {closes left : List CloseCommand} (hp : owner.Present)
    (honce : (closes.map (·.terminalId)).Nodup)
    (h : finalizeEach codec closing closes owner = some (next, left)) :
    Finalized owner.Ready closes owner next left := by
  induction closes generalizing owner left with
  | nil =>
    obtain ⟨rfl, rfl⟩ : owner = next ∧ [] = left := by simpa [finalizeEach] using h
    exact ⟨rfl, by simp, fun _ _ => rfl, hp, rfl, rfl⟩
  | cons close closes ih =>
    rw [List.map_cons, List.nodup_cons] at honce
    obtain ⟨hnew, honce⟩ := honce
    by_cases hwaits : owner.writtenSequence close.terminalId < close.throughSequence
    · have hready : owner.Ready close = false := by simpa [Ready] using hwaits
      simp only [finalizeEach, if_pos hwaits, Option.map_eq_some_iff] at h
      obtain ⟨⟨next', left'⟩, hrest, heq⟩ := h
      obtain ⟨rfl, rfl⟩ := Prod.mk.inj heq
      have hfinalized := ih hp honce hrest
      refine ⟨?_, ?_, ?_, hfinalized.present, hfinalized.ingest, hfinalized.finalize⟩
      · simp [hready, ← hfinalized.left_eq]
      · intro t
        rw [hfinalized.pendingCloses]
        simp [hready]
      · intro t ht
        exact hfinalized.written t fun close' hmem => ht close' (List.mem_cons_of_mem _ hmem)
    · have hready : owner.Ready close = true := by simpa [Ready] using hwaits
      simp only [finalizeEach, if_neg hwaits] at h
      cases hfinal : owner.finalizeTerminal codec close.terminalId (closing close.terminalId).1
        (closing close.terminalId).2 with
      | none => simp [hfinal] at h
      | some finalized =>
        simp only [hfinal] at h
        obtain ⟨d', rfl⟩ := finalizeTerminal_put hfinal
        change finalizeEach codec closing closes (owner.finished close.terminalId d') = _ at h
        have hfinalized := ih (present_finished hp _ d') honce h
        -- The closes that follow are of other terminals, so they are as ready as they were.
        have hsame : ∀ close' ∈ closes,
            (owner.finished close.terminalId d').Ready close' = owner.Ready close' := by
          intro close' hmem
          have hne : close'.terminalId ≠ close.terminalId := fun heq =>
            hnew (heq ▸ List.mem_map_of_mem hmem)
          rw [Ready, Ready, writtenSequence_finished d' hne]
        refine ⟨?_, ?_, ?_, hfinalized.present, hfinalized.ingest, hfinalized.finalize⟩
        · rw [hfinalized.left_eq, List.filter_cons_of_neg (by simp [hready])]
          exact List.filter_congr fun close' hmem => by rw [hsame close' hmem]
        · intro t
          rw [hfinalized.pendingCloses, List.forall_mem_cons,
            forall₂_congr fun close' hmem => by rw [hsame close' hmem]]
          simp only [finished, put, Finset.mem_erase, hready, true_implies]
          rw [and_assoc, and_left_comm, ne_comm]
        · intro t ht
          rw [List.forall_mem_cons] at ht
          have hne := (ht.1 hready).symm
          rw [hfinalized.written t fun close' hmem hr => ht.2 close' hmem (hsame close' hmem ▸ hr),
            writtenSequence_finished d' hne]

/-! ### The invariant -/

/-- The same closes wait, and what they wait for is still coming. -/
theorem Draining.of_coming (h : owner.Draining) (hpending : next.pendingCloses = owner.pendingCloses)
    (hwaiting : next.waiting = owner.waiting) (hpresent : next.Present)
    (hcoming : ∀ close ∈ owner.waiting, next.Coming close) : next.Draining := by
  refine ⟨fun t => ?_, ?_, ?_, hpresent⟩
  · rw [hpending, hwaiting]
    exact h.pending t
  · rw [hwaiting]
    exact h.once
  · rw [hwaiting]
    exact hcoming

theorem Forward.waiting_eq (h : owner.Forward next) : next.waiting = owner.waiting := by
  rw [waiting, waiting, h.closes, h.finalize]

theorem Draining.forward (h : owner.Draining) (hforward : owner.Forward next) : next.Draining := by
  refine h.of_coming hforward.pendingCloses hforward.waiting_eq hforward.present fun close hmem => ?_
  obtain hwritten | ⟨record, hcoming, hseq⟩ := h.coming close hmem
  · exact .inl (hwritten.trans (hforward.written _))
  · exact .inr ⟨record, hforward.ingest hcoming, hseq⟩

/-- A command that is no append is taken out of the mailbox. -/
theorem Draining.dequeue (h : owner.Draining) {command : IngestCommand} {rest : List IngestCommand}
    (hingest : owner.ingest = command :: rest)
    (hother : ∀ terminalId record, command ≠ .append terminalId record) :
    Draining { owner with ingest := rest } := by
  refine h.of_coming rfl rfl h.present fun close hmem => ?_
  obtain hwritten | ⟨record, hcoming, hseq⟩ := h.coming close hmem
  · exact .inl hwritten
  · rw [hingest, List.mem_cons] at hcoming
    obtain hhead | hcoming := hcoming
    · exact absurd hhead.symm (hother _ _)
    · exact .inr ⟨record, hcoming, hseq⟩

/-- An append is taken out of the mailbox and written, if a close waits for it. -/
theorem Draining.append (h : owner.Draining) {record : HistoryRecord} {rest : List IngestCommand}
    (hingest : owner.ingest = .append terminalId record :: rest)
    (hforward : Forward { owner with ingest := rest } next)
    (hwritten : ⟨terminalId, record.sequence⟩ ∈ owner.waiting →
      record.sequence ≤ next.writtenSequence terminalId) : next.Draining := by
  refine h.of_coming hforward.pendingCloses hforward.waiting_eq hforward.present fun close hmem => ?_
  obtain hdone | ⟨record', hcoming, hseq⟩ := h.coming close hmem
  · exact .inl (hdone.trans (hforward.written _))
  · rw [hingest, List.mem_cons, IngestCommand.append.injEq] at hcoming
    obtain ⟨hsame, rfl⟩ | hcoming := hcoming
    · rw [← hsame, hseq] at hwritten
      exact .inl (hwritten hmem)
    · exact .inr ⟨record', hforward.ingest hcoming, hseq⟩

/-- After the closes were looked at, only those are left that wait for the mailbox. -/
theorem Draining.finalizeReady (h : owner.Draining) {closing : String → ℕ × List Outcome}
    (hran : owner.finalizeReady codec closing = some next) :
    next.Draining ∧ next.ingest = owner.ingest ∧
      ∀ close ∈ next.waiting, next.writtenSequence close.terminalId < close.throughSequence := by
  obtain ⟨⟨left, closes⟩, heach, rfl⟩ := Option.map_eq_some_iff.mp hran
  have hpresent : Present { owner with finalize := [] } := h.present
  have hfinalized := finalized_finalizeEach hpresent h.once heach
  have hready : ∀ close, Ready { owner with finalize := [] } close = owner.Ready close := fun _ => rfl
  have hwaiting : waiting { left with closes := closes } =
      owner.waiting.filter fun close => !owner.Ready close := by
    simp only [waiting, hfinalized.finalize, List.append_nil]
    exact hfinalized.left_eq
  -- Two closes of one terminal are one close, so a close that is left is of no finalized terminal.
  have hunfinished : ∀ close ∈ owner.waiting, owner.Ready close = false →
      ∀ close' ∈ owner.waiting, owner.Ready close' = true →
        close'.terminalId ≠ close.terminalId := by
    intro close hmem hwaits close' hmem' hdone heq
    obtain rfl := List.inj_on_of_nodup_map h.once hmem' hmem heq
    exact Bool.false_ne_true (hwaits.symm.trans hdone)
  have hsame : ∀ close ∈ owner.waiting, owner.Ready close = false →
      left.writtenSequence close.terminalId = owner.writtenSequence close.terminalId :=
    fun close hmem hwaits => hfinalized.written _ (hunfinished close hmem hwaits)
  refine ⟨⟨fun t => ?_, ?_, ?_, hfinalized.present⟩, hfinalized.ingest, ?_⟩
  · rw [hwaiting, hfinalized.pendingCloses]
    simp only [List.mem_map, List.mem_filter, Bool.not_eq_eq_eq_not, Bool.not_true]
    constructor
    · rintro ⟨hpending, hnone⟩
      obtain ⟨close, hmem, rfl⟩ := List.mem_map.mp ((h.pending t).mp hpending)
      refine ⟨close, ⟨hmem, ?_⟩, rfl⟩
      by_contra hdone
      exact hnone close hmem (Bool.eq_true_of_not_eq_false hdone) rfl
    · rintro ⟨close, ⟨hmem, hwaits⟩, rfl⟩
      exact ⟨(h.pending _).mpr (List.mem_map_of_mem hmem), hunfinished close hmem hwaits⟩
  · rw [hwaiting]
    exact h.once.sublist (List.filter_sublist.map _)
  · rw [hwaiting]
    intro close hmem
    obtain ⟨hmem, hwaits⟩ := List.mem_filter.mp hmem
    have hlate : owner.writtenSequence close.terminalId < close.throughSequence := by
      simpa [Ready] using hwaits
    obtain hdone | ⟨record, hcoming, hseq⟩ := h.coming close hmem
    · omega
    · exact .inr ⟨record, hfinalized.ingest ▸ hcoming, hseq⟩
  · rw [hwaiting]
    intro close hmem
    obtain ⟨hmem, hwaits⟩ := List.mem_filter.mp hmem
    have hlate : owner.writtenSequence close.terminalId < close.throughSequence := by
      simpa [Ready] using hwaits
    have hleft := hsame close hmem (by simpa using hwaits)
    exact hleft.trans_lt hlate

theorem forward_tryAppend (hp : owner.Present) (sequence : ℕ) (data : Bytes) :
    owner.Forward (owner.tryAppend terminalId sequence data).1 := by
  simp only [tryAppend, rollbackAcceptedSequence]
  split_ifs <;>
    exact ⟨fun _ => le_refl _, hp, rfl, by simp, rfl, rfl⟩

theorem forward_tryPersistCheckpoint (hp : owner.Present) (bytes : ℕ) :
    owner.Forward (owner.tryPersistCheckpoint terminalId bytes).1 := by
  simp only [tryPersistCheckpoint]
  split_ifs <;>
    exact ⟨fun _ => le_refl _, hp, rfl, by simp, rfl, rfl⟩

theorem forward_send (hp : owner.Present) {command : IngestCommand}
    (h : owner.send command = some next) : owner.Forward next := by
  simp only [send] at h
  split_ifs at h
  obtain rfl := Option.some.inj h
  exact ⟨fun _ => le_refl _, hp, rfl, by simp, rfl, rfl⟩

theorem Draining.closeTerminal (h : owner.Draining)
    (hawaits : owner.Awaits (.close terminalId)) : (owner.closeTerminal terminalId).1.Draining := by
  simp only [HistoryOwner.closeTerminal]
  split_ifs with hpending hfull
  · exact h
  · exact h
  · have hnew : terminalId ∉ owner.waiting.map (·.terminalId) := mt (h.pending _).mpr hpending
    refine ⟨fun t => ?_, ?_, ?_, h.present⟩
    · simp only [waiting, ← List.append_assoc, List.map_append, Finset.mem_insert, List.mem_append,
        h.pending t]
      simp [or_comm]
    · simp only [waiting, ← List.append_assoc, List.map_append] at hnew ⊢
      refine List.nodup_append'.mpr ⟨by simpa [waiting] using h.once, by simp, ?_⟩
      simpa using hnew
    · intro close hmem
      simp only [waiting, ← List.append_assoc, List.mem_append, List.mem_singleton] at hmem
      obtain hmem | rfl := hmem
      · exact h.coming close (List.mem_append.mpr hmem)
      · exact hawaits hpending

/-- The byte budget and the place in the owner's loop do not matter. -/
theorem Draining.elsewhere (h : owner.Draining) (bytes : ℕ) (polled : Bool) :
    Draining { owner with ingestBytes := bytes, polled := polled } :=
  ⟨h.pending, h.once, h.coming, h.present⟩

theorem Draining.receive {outcomes : OwnerOutcomes} (h : owner.Draining)
    (hawaits : owner.Awaits (.receive outcomes))
    (hran : owner.receive codec blockBytes outcomes = some next) : next.Draining := by
  cases hingest : owner.ingest with
  | nil => simp [HistoryOwner.receive, hingest] at hran
  | cons command rest =>
    have hpresent : Present { owner with ingest := rest } := h.present
    cases command with
    | append terminalId record =>
      simp only [HistoryOwner.receive, hingest, Option.map_eq_some_iff] at hran
      obtain ⟨appended, happended, rfl⟩ := hran
      have hforward := forward_onArchive hpresent
        (fun _ _ hpresent => reaches_appendOwned hpresent record) happended
      have hdraining : appended.Draining := h.append hingest hforward fun hmem =>
        written_of_takes hpresent (hawaits _ _ _ hingest hmem) happended
      exact hdraining.elsewhere _ _
    | checkpoint terminalId bytes =>
      simp only [HistoryOwner.receive, hingest, Option.map_eq_some_iff] at hran
      obtain ⟨persisted, hpersisted, rfl⟩ := hran
      have hforward := forward_onArchive hpresent
        (fun _ _ hpresent => (meets_ensureArchiveDirectory hpresent).mpr ⟨le_refl _, hpresent⟩)
        hpersisted
      have hdraining := (h.dequeue hingest fun _ _ => by simp).forward hforward
      exact hdraining.elsewhere _ _
    | snapshot =>
      simp only [HistoryOwner.receive, hingest] at hran
      obtain rfl := Option.some.inj hran
      exact h.dequeue hingest fun _ _ => by simp
    | barrier =>
      simp only [HistoryOwner.receive, hingest] at hran
      obtain ⟨ready, hready, hflush⟩ := Option.bind_eq_some_iff.mp hran
      have hdequeued : Draining { owner with ingest := rest } :=
        h.dequeue hingest fun _ _ => by simp
      obtain ⟨hdraining, -, -⟩ := hdequeued.finalizeReady hready
      exact hdraining.forward (forward_flushLive hdraining.present hflush)

/-- Every step that meets the guard keeps the closes ending. -/
theorem Draining.step {action : OwnerStep} (h : owner.Draining) (hawaits : owner.Awaits action)
    (hstep : owner.step codec blockBytes action = some next) : next.Draining := by
  cases action with
  | tryAppend terminalId sequence data =>
    obtain rfl := Option.some.inj hstep
    exact h.forward (forward_tryAppend h.present sequence data)
  | tryPersistCheckpoint terminalId bytes =>
    obtain rfl := Option.some.inj hstep
    exact h.forward (forward_tryPersistCheckpoint h.present bytes)
  | close terminalId =>
    obtain rfl := Option.some.inj hstep
    exact h.closeTerminal hawaits
  | snapshot => exact h.forward (forward_send h.present hstep)
  | barrier => exact h.forward (forward_send h.present hstep)
  | load terminalId outcomes =>
    obtain ⟨⟨loaded, result⟩, hload, rfl⟩ := Option.map_eq_some_iff.mp hstep
    exact h.forward (forward_stateFor h.present hload).1
  | poll closing =>
    simp only [HistoryOwner.step] at hstep
    split_ifs at hstep
    obtain ⟨left, hleft, rfl⟩ := Option.map_eq_some_iff.mp hstep
    exact (h.finalizeReady hleft).1.elsewhere _ _
  | receive outcomes =>
    simp only [HistoryOwner.step] at hstep
    split_ifs at hstep
    obtain ⟨left, hleft, rfl⟩ := Option.map_eq_some_iff.mp hstep
    exact (h.receive hawaits hleft).elsewhere _ _
  | timeout =>
    simp only [HistoryOwner.step] at hstep
    split_ifs at hstep
    obtain rfl := Option.some.inj hstep
    exact h.elsewhere _ _
  | remove terminalId =>
    simp only [HistoryOwner.step] at hstep
    split_ifs at hstep with hnone
    obtain rfl := Option.some.inj hstep
    exact h.forward (.put_none h.present hnone)

theorem draining_initial : initial.Draining :=
  ⟨by simp [initial, waiting], by simp [initial, waiting], by simp [initial, waiting],
    fun _ h => absurd rfl h⟩

/-- What the owner did with the closes: none waits, and none is pending. -/
def Drained (owner : HistoryOwner) : Prop :=
  owner.closes = [] ∧ owner.finalize = [] ∧ owner.pendingCloses = ∅

/-- Nothing waits once a barrier was the last command in the mailbox. -/
theorem Draining.barrier {outcomes : OwnerOutcomes} (h : owner.Draining)
    (hingest : owner.ingest = [.barrier])
    (hran : owner.receive codec blockBytes outcomes = some next) : next.Drained := by
  simp only [HistoryOwner.receive, hingest] at hran
  obtain ⟨ready, hready, hflush⟩ := Option.bind_eq_some_iff.mp hran
  have hdequeued : Draining { owner with ingest := [] } := h.dequeue hingest fun _ _ => by simp
  obtain ⟨hdraining, hempty, hlate⟩ := hdequeued.finalizeReady hready
  have hnone : ready.waiting = [] := by
    refine List.eq_nil_iff_forall_not_mem.mpr fun close hmem => ?_
    obtain hwritten | ⟨record, hcoming, -⟩ := hdraining.coming close hmem
    · exact absurd hwritten (hlate close hmem).not_ge
    · rw [hempty] at hcoming
      exact absurd hcoming List.not_mem_nil
  have hforward := forward_flushLive hdraining.present hflush
  obtain ⟨hcloses, hfinalize⟩ := List.append_eq_nil_iff.mp hnone
  refine ⟨hforward.closes.trans hcloses, hforward.finalize.trans hfinalize, ?_⟩
  rw [hforward.pendingCloses]
  refine Finset.eq_empty_of_forall_notMem fun t ht => ?_
  rw [hdraining.pending t, hnone] at ht
  exact absurd ht List.not_mem_nil

/-- A terminal that is finalized: its archive is out of memory, and closed on disk. -/
def Closed (owner : HistoryOwner) (terminalId : String) : Prop :=
  owner.states terminalId = none ∧
    ∃ manifest, (owner.directories terminalId).index = some manifest ∧
      manifest.closedAt.isSome = true

/-- Finalizing a finalized terminal again completes, and changes nothing. -/
theorem Closed.finalizeTerminal (h : owner.Closed terminalId) (now : ℕ)
    (hcrashed : .crashed ∉ outcomes) :
    owner.finalizeTerminal codec terminalId now outcomes = some owner := by
  obtain ⟨hstate, manifest, hindex, hclosed⟩ := h
  have hmeets : Action.Meets True (fun _ => True) (finalizeStored now) ()
      (owner.directories terminalId) (fun _ _ d' => d' = owner.directories terminalId)
      (fun _ _ d' => d' = owner.directories terminalId) := by
    simp [finalizeStored, readManifest, attempt, hindex, hclosed]
  have hsame : owner.put terminalId (owner.directories terminalId) none = owner := by
    simp only [put, ← hstate, Function.update_eq_self]
  obtain ⟨_, _, _, hran, rfl⟩ | ⟨_, _, _, hran, rfl⟩ :=
    hmeets.completed outcomes (fun _ => trivial) hcrashed
  · simp only [HistoryOwner.finalizeTerminal, hstate, hran, hsame]
  · simp only [HistoryOwner.finalizeTerminal, hstate, hran, hsame]

/-- In every run in which the closes are accepted and the appends they wait for are taken as
`Awaits` says, no close waits and none is pending once the owner has processed a barrier with
nothing behind it; and a second finalization completes and changes nothing. -/
theorem closes_finalized {steps : List OwnerStep} {outcomes : OwnerOutcomes}
    (hrun : Machine.Path (machine codec blockBytes) Awaits initial steps owner) :
    (owner.ingest = [.barrier] → owner.polled = true →
      (machine codec blockBytes).step owner (.receive outcomes) = some next → next.Drained) ∧
    ∀ terminalId now outcomes, owner.Closed terminalId → .crashed ∉ outcomes →
      owner.finalizeTerminal codec terminalId now outcomes = some owner := by
  have hdraining : owner.Draining :=
    hrun.invariant (fun _ _ _ h hawaits hstep => h.step hawaits hstep) draining_initial
  refine ⟨fun hingest hpolled hstep => ?_, fun t now outcomes h => h.finalizeTerminal now⟩
  simp only [machine, HistoryOwner.step, if_pos hpolled] at hstep
  obtain ⟨left, hleft, rfl⟩ := Option.map_eq_some_iff.mp hstep
  have hdrained : left.Drained := hdraining.barrier hingest hleft
  exact hdrained

/-- A close before the owner has come to the append that it waits for. -/
def closeBeforeWrite (closing : String → ℕ × List Outcome) (outcomes : OwnerOutcomes) :
    List OwnerStep :=
  [.tryAppend "terminal-1" 1 [104], .close "terminal-1", .poll closing, .receive outcomes,
    .barrier, .poll closing]

def noOutcomes : OwnerOutcomes :=
  { loading := [], command := [], closing := fun _ => (0, []), flushing := [] }

theorem closes_finalized_of_close_before_write : ∃ owner next,
    Machine.Path (machine storedCodec 524288) Awaits initial
      (closeBeforeWrite (fun _ => (0, [])) noOutcomes) owner ∧
    (machine storedCodec 524288).step owner (.receive noOutcomes) = some next ∧ next.Drained ∧
    owner.Closed "terminal-1" ∧
    owner.finalizeTerminal storedCodec "terminal-1" 7 [] = some owner := by
  obtain ⟨owner, next, hrun, hingest, hpolled, hstep, hclosed⟩ : ∃ owner next,
      Machine.Path (machine storedCodec 524288) Awaits initial
        (closeBeforeWrite (fun _ => (0, [])) noOutcomes) owner ∧
      owner.ingest = [.barrier] ∧ owner.polled = true ∧
      (machine storedCodec 524288).step owner (.receive noOutcomes) = some next ∧
      owner.Closed "terminal-1" := by
    refine ⟨_, _, .cons trivial rfl (.cons ?_ rfl (.cons trivial rfl (.cons ?_ rfl
      (.cons trivial rfl (.cons trivial rfl (.nil _)))))), rfl, rfl, rfl, rfl, _, rfl, rfl⟩
    · exact fun _ => .inr ⟨⟨1, [104]⟩, List.mem_singleton.mpr rfl, rfl⟩
    · intro terminalId record rest hingest _
      obtain ⟨rfl, rfl⟩ : "terminal-1" = terminalId ∧ ⟨1, [104]⟩ = record := by
        injection hingest with hcommand
        injection hcommand with hterminal hrecord
        exact ⟨hterminal, hrecord⟩
      exact ⟨_, _, rfl, .inr ⟨rfl, _, _, rfl⟩⟩
  obtain ⟨hdrained, hagain⟩ := 
    @closes_finalized storedCodec 524288 owner next _ noOutcomes hrun
  exact ⟨owner, next, hrun, hstep, hdrained hingest hpolled hstep, hclosed,
    hagain _ 7 [] hclosed List.not_mem_nil⟩

/-- A terminal that is closed again once it is finalized is pending for ever: its archive is out of
memory, so nothing of it counts as written. -/
theorem second_close_waits : ∃ owner next,
    Machine.Run (machine storedCodec 524288) initial
      (closeBeforeWrite (fun _ => (0, [])) noOutcomes ++
        [.receive noOutcomes, .close "terminal-1", .barrier, .poll fun _ => (0, [])]) owner ∧
    owner.ingest = [.barrier] ∧ owner.polled = true ∧ owner.Closed "terminal-1" ∧
    (machine storedCodec 524288).step owner (.receive noOutcomes) = some next ∧
    next.ingest = [] ∧ next.closes = [⟨"terminal-1", 1⟩] ∧ next.pendingCloses = {"terminal-1"} := by
  refine ⟨_, _, .cons trivial rfl (.cons trivial rfl (.cons trivial rfl (.cons trivial rfl
    (.cons trivial rfl (.cons trivial rfl (.cons trivial rfl (.cons trivial rfl (.cons trivial rfl
      (.cons trivial rfl (.nil _)))))))))), rfl, rfl, ⟨rfl, _, rfl, rfl⟩, rfl, rfl, rfl, ?_⟩
  rfl

end HistoryOwner
end PiDeck.History
