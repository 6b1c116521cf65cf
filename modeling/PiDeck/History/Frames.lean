import Mathlib
import PiDeck.History.Reopening

/-! History pages on the wire. The terminal numbers its output by bytes, some of its reads are not
taken into the history, and the frames of a page are numbered from the page, not from its records. -/
namespace PiDeck.History
open PiDeck.Storage PiDeck.Transition

/-! ### The terminal and its history -/

/-- A terminal with its archive, the number of bytes it has emitted, and its reads so far. -/
structure Recorder where
  archive : Archive
  sequence : ℕ
  emitted : List HistoryRecord

/-- The terminal emits a read, which the history takes and appends, with the outcomes of the writes,
or does not take; or something else happens to the archive. -/
inductive RecorderStep
  | emit (data : Bytes) (taken : Option (List Outcome))
  | archive (step : ArchiveStep)

instance (record : HistoryRecord) : Decidable record.Valid :=
  decidable_of_iff (record.sequence < 2 ^ 64 ∧ record.data ≠ [] ∧ record.data.length ≤ maxRecordBytes)
    ⟨fun h => ⟨h.1, h.2.1, h.2.2⟩, fun h => ⟨h.sequence, h.nonempty, h.length⟩⟩

namespace Recorder

def initial : Recorder :=
  { archive := Archive.initial
    sequence := 0
    emitted := [] }

variable (codec : BlockCodec) (blockBytes : ℕ) (terminalId : String)

/-- `try_append` and what becomes of the record. A read that is empty or too long is never stored,
and the byte budget or the mailbox may be full. -/
def tryAppend (archive : Archive) (record : HistoryRecord) :
    Option (List Outcome) → Option Archive
  | none => some archive
  | some outcomes =>
    if h : record.Valid then archive.step codec blockBytes terminalId (.append ⟨record, h⟩ outcomes)
    else some archive

/-- The position of a terminal's output stays below `2 ^ 64`. -/
def emit (recorder : Recorder) (data : Bytes) (taken : Option (List Outcome)) : Option Recorder :=
  let sequence := recorder.sequence + data.length
  if sequence < 2 ^ 64 then
    (tryAppend codec blockBytes terminalId recorder.archive ⟨sequence, data⟩ taken).map fun archive =>
      { archive := archive
        sequence := sequence
        emitted := recorder.emitted ++ [⟨sequence, data⟩] }
  else none

def step (recorder : Recorder) : RecorderStep → Option Recorder
  | .emit data taken => recorder.emit codec blockBytes terminalId data taken
  | .archive (.append _ _) => none
  | .archive step =>
    (recorder.archive.step codec blockBytes terminalId step).map fun archive =>
      { recorder with archive := archive }

def machine : Machine Recorder RecorderStep := ⟨step codec blockBytes terminalId⟩

/-- No write fails, and the archive is loaded only from a directory with all its blocks. -/
def Clean (recorder : Recorder) : RecorderStep → Prop
  | .emit _ taken => ∀ outcomes, taken = some outcomes → .failed ∉ outcomes
  | .archive step => History.Clean recorder.archive step

end Recorder

/-! ### Frames and the client's check -/

structure ScrollbackFrame where
  sequence : ℕ
  payload : Bytes
  deriving DecidableEq

/-- The frames after the first: each sequence is that of the frame before plus the bytes. -/
def followingFrames : ℕ → List Bytes → List ScrollbackFrame
  | _, [] => []
  | sequence, chunk :: chunks =>
    let next := min (sequence + chunk.length) (2 ^ 64 - 1)
    ⟨next, chunk⟩ :: followingFrames next chunks

/-- The SCROLLBACK_CHUNK frames of a page. -/
def scrollbackFrames (page : TerminalHistoryPage) : List ScrollbackFrame :=
  match page.chunks with
  | [] => []
  | chunk :: chunks => ⟨page.firstSequence, chunk⟩ :: followingFrames page.firstSequence chunks

/-- What the client has of the page it waits for. -/
structure PendingHistory where
  chunks : List Bytes
  firstSequence : ℕ
  lastSequence : ℕ
  deriving DecidableEq

/-- A chunk arrives; nothing is left if the client reports a gap. -/
def PendingHistory.receive (pending : PendingHistory) (frame : ScrollbackFrame) :
    Option PendingHistory :=
  let firstByte : ℤ := frame.sequence - frame.payload.length + 1
  if pending.lastSequence ≠ 0 ∧ firstByte ≠ pending.lastSequence + 1 then none
  else some
    { chunks := pending.chunks ++ [frame.payload]
      firstSequence := if pending.firstSequence = 0 then frame.sequence else pending.firstSequence
      lastSequence := frame.sequence }

/-- The client's check over the frames of a page. -/
def reportsGap (frames : List ScrollbackFrame) : Prop :=
  frames.foldlM PendingHistory.receive ⟨[], 0, 0⟩ = none

instance (frames : List ScrollbackFrame) : Decidable (reportsGap frames) :=
  inferInstanceAs (Decidable (_ = none))

/-- Some of the output in a range of positions is in no record of `group`. -/
def MissingIn (emitted group : List HistoryRecord) (first last : ℕ) : Prop :=
  ∃ record ∈ emitted, record.data ≠ [] ∧ first ≤ record.sequence ∧ record.sequence ≤ last ∧
    record ∉ group

/-- Each frame carries the sequence of its record, and the client reports a gap exactly if a read of
the range is missing. -/
def TrueFrames (page : TerminalHistoryPage) (emitted group : List HistoryRecord)
    (first last : ℕ) : Prop :=
  scrollbackFrames page = group.map (fun record => ⟨record.sequence, record.data⟩) ∧
    (reportsGap (scrollbackFrames page) ↔ MissingIn emitted group first last)

/-! ### Consecutive reads -/

/-- Reads numbered one after the other from `start`. -/
def Follows : ℕ → List HistoryRecord → Prop
  | _, [] => True
  | start, record :: records =>
    record.sequence = start + record.data.length ∧ Follows record.sequence records

variable {codec : BlockCodec} {blockBytes : ℕ} {terminalId : String}
  {records group emitted : List HistoryRecord} {start : ℕ}

theorem lastSequenceOf_mem (start : ℕ) (first : HistoryRecord) (records : List HistoryRecord) :
    ∃ record ∈ first :: records, record.sequence = lastSequenceOf start (first :: records) := by
  induction records generalizing start first with
  | nil => exact ⟨first, List.mem_cons_self, by simp⟩
  | cons second records ih =>
    obtain ⟨record, hr, hlast⟩ := ih first.sequence second
    exact ⟨record, List.mem_cons_of_mem _ hr, by rw [lastSequenceOf_cons, hlast]⟩

theorem Follows.append (h : Follows start records) {record : HistoryRecord}
    (hnext : record.sequence = lastSequenceOf start records + record.data.length) :
    Follows start (records ++ [record]) := by
  induction records generalizing start with
  | nil => exact ⟨hnext, trivial⟩
  | cons first records ih =>
    rw [lastSequenceOf_cons] at hnext
    exact ⟨h.1, ih h.2 hnext⟩

theorem Follows.le_of_mem (h : Follows start records) {record : HistoryRecord}
    (hr : record ∈ records) : start + record.data.length ≤ record.sequence := by
  induction records generalizing start with
  | nil => cases hr
  | cons first records ih =>
    obtain ⟨hfirst, hrest⟩ := h
    obtain rfl | hr := List.mem_cons.mp hr
    · exact hfirst.ge
    · have := ih hrest hr
      omega

/-- The bytes of some of the reads fit between the first position and the last. -/
theorem Follows.dataBytes_le (h : Follows start emitted) (hsub : group.Sublist emitted) :
    start + dataBytes group ≤ lastSequenceOf start group := by
  induction emitted generalizing start group with
  | nil =>
    obtain rfl := List.sublist_nil.mp hsub
    simp [dataBytes]
  | cons first emitted ih =>
    obtain ⟨hfirst, hrest⟩ := h
    cases hsub with
    | cons _ hsub =>
      by_cases hempty : group = []
      · simp [hempty, dataBytes]
      · have := ih hrest hsub
        rw [lastSequenceOf_nonempty hempty first.sequence start] at this
        omega
    | cons_cons _ hsub =>
      rename_i rest
      have := ih hrest hsub
      rw [lastSequenceOf_cons]
      simp only [dataBytes, List.map_cons, List.sum_cons] at this ⊢
      omega

/-- The same for reads from the middle. -/
theorem Follows.dataBytes_le_from (h : Follows start emitted) {first : HistoryRecord}
    (hsub : (first :: group).Sublist emitted) :
    first.sequence + dataBytes group ≤ lastSequenceOf first.sequence group := by
  induction emitted generalizing start with
  | nil => cases hsub
  | cons read emitted ih =>
    cases hsub with
    | cons _ hsub => exact ih h.2 hsub
    | cons_cons _ hsub => exact h.2.dataBytes_le hsub

/-- Reads of which none is missing up to the last are numbered one after the other. -/
theorem Follows.of_present (h : Follows start emitted) (hsub : group.Sublist emitted)
    (hdata : ∀ record ∈ group, record.data ≠ [])
    (hall : ∀ record ∈ emitted, record.data ≠ [] → record.sequence ≤ lastSequenceOf start group →
      record ∈ group) : Follows start group := by
  induction emitted generalizing start group with
  | nil =>
    obtain rfl := List.sublist_nil.mp hsub
    trivial
  | cons first emitted ih =>
    obtain ⟨hfirst, hrest⟩ := h
    cases hsub with
    | cons _ hsub =>
      by_cases hempty : group = []
      · rw [hempty]
        trivial
      · by_cases hnodata : first.data = []
        · -- An empty read takes no positions.
          have hsame : first.sequence = start := by simpa [hnodata] using hfirst
          rw [← hsame]
          apply ih hrest hsub hdata
          intro record hr
          rw [hsame]
          exact hall record (List.mem_cons_of_mem _ hr)
        · -- The first read comes before all of the group, so it belongs to it.
          exfalso
          have hlast : first.sequence ≤ lastSequenceOf start group := by
            have := hrest.dataBytes_le hsub
            rw [lastSequenceOf_nonempty hempty first.sequence start] at this
            omega
          have hmem := hsub.subset (hall first List.mem_cons_self hnodata hlast)
          have := hrest.le_of_mem hmem
          have := List.length_pos_of_ne_nil hnodata
          omega
    | cons_cons _ hsub =>
      rename_i rest
      refine ⟨hfirst, ih hrest hsub (fun r hr => hdata r (List.mem_cons_of_mem _ hr)) ?_⟩
      intro record hr hnonempty hle
      have hmem := hall record (List.mem_cons_of_mem _ hr) hnonempty (by rwa [lastSequenceOf_cons])
      obtain rfl | hmem := List.mem_cons.mp hmem
      · have := hrest.le_of_mem hr
        have := List.length_pos_of_ne_nil hnonempty
        omega
      · exact hmem

/-- The same for reads from the middle: from the first of them on none is missing. -/
theorem Follows.of_present_from (h : Follows start emitted) {first : HistoryRecord}
    (hsub : (first :: group).Sublist emitted) (hdata : ∀ record ∈ group, record.data ≠ [])
    (hall : ∀ record ∈ emitted, record.data ≠ [] → first.sequence ≤ record.sequence →
      record.sequence ≤ lastSequenceOf first.sequence group → record ∈ first :: group) :
    Follows first.sequence group := by
  induction emitted generalizing start with
  | nil => cases hsub
  | cons read emitted ih =>
    obtain ⟨hread, hrest⟩ := h
    cases hsub with
    | cons _ hsub =>
      exact ih hrest hsub fun record hr => hall record (List.mem_cons_of_mem _ hr)
    | cons_cons _ hsub =>
      apply hrest.of_present hsub hdata
      intro record hr hnonempty hle
      have hlater := hrest.le_of_mem hr
      have hmem := hall record (List.mem_cons_of_mem _ hr) hnonempty (by omega) hle
      obtain rfl | hmem := List.mem_cons.mp hmem
      · have := List.length_pos_of_ne_nil hnonempty
        omega
      · exact hmem

/-! ### The frames of a page -/

/-- The frames of consecutive records carry their sequences. -/
theorem followingFrames_of_follows (h : Follows start group)
    (hlast : lastSequenceOf start group < 2 ^ 64) :
    followingFrames start (group.map (·.data)) =
      group.map (fun record => ⟨record.sequence, record.data⟩) := by
  induction group generalizing start with
  | nil => rfl
  | cons record group ih =>
    obtain ⟨hrecord, hrest⟩ := h
    rw [lastSequenceOf_cons] at hlast
    have hle : record.sequence ≤ lastSequenceOf record.sequence group := by
      have := hrest.dataBytes_le (List.Sublist.refl group)
      omega
    have hnext : min (start + record.data.length) (2 ^ 64 - 1) = record.sequence := by omega
    simp only [List.map_cons, followingFrames, hnext]
    rw [ih hrest hlast]

/-- The client finds no gap: the frames are numbered so that there is none. -/
theorem followingFrames_accepted {chunks : List Bytes} {pending : PendingHistory}
    (hlast : pending.lastSequence = start)
    (hbound : start + (chunks.map (·.length)).sum < 2 ^ 64) :
    ((followingFrames start chunks).foldlM PendingHistory.receive pending).isSome = true := by
  induction chunks generalizing start pending with
  | nil => rfl
  | cons chunk chunks ih =>
    simp only [List.map_cons, List.sum_cons] at hbound
    have hnext : min (start + chunk.length) (2 ^ 64 - 1) = start + chunk.length := by omega
    have hcontiguous : ¬(pending.lastSequence ≠ 0 ∧
        ((start + chunk.length : ℕ) : ℤ) - chunk.length + 1 ≠ pending.lastSequence + 1) := by
      rintro ⟨-, hne⟩
      apply hne
      omega
    simp only [followingFrames, hnext, List.foldlM_cons, PendingHistory.receive, if_neg hcontiguous,
      Option.bind_eq_bind, Option.bind_some]
    apply ih rfl
    change start + chunk.length + _ < _
    omega

theorem scrollbackFrames_accepted {page : TerminalHistoryPage} {first : HistoryRecord}
    (hpage : Carries page (first :: group))
    (hbound : first.sequence + dataBytes group < 2 ^ 64) : ¬reportsGap (scrollbackFrames page) := by
  have hfirst : page.firstSequence = first.sequence := hpage.first
  simp only [reportsGap, scrollbackFrames, hpage.chunks, List.map_cons, hfirst, List.foldlM_cons,
    PendingHistory.receive, ne_eq, not_true_eq_false, false_and, if_false, Option.bind_eq_bind,
    Option.bind_some]
  apply Option.isSome_iff_ne_none.mp
  apply followingFrames_accepted rfl
  simpa [dataBytes, Function.comp_def] using hbound

/-- The frames of a page are true exactly when no read of the range is missing from it. -/
theorem trueFrames_iff {page : TerminalHistoryPage} (hfollows : Follows 0 emitted)
    (hsub : group.Sublist emitted) (hvalid : ∀ record ∈ group, record.Valid)
    (hpage : Carries page group) {first last : ℕ} (hfirst : first ≤ page.firstSequence)
    (hlast : group ≠ [] → page.lastSequence ≤ last) :
    TrueFrames page emitted group first last ↔ ¬MissingIn emitted group first last := by
  cases group with
  | nil =>
    have hnone : scrollbackFrames page = [] := by simp [scrollbackFrames, hpage.chunks]
    simp [TrueFrames, hnone, reportsGap]
  | cons record group =>
    have hrecord : page.firstSequence = record.sequence := hpage.first
    have hend : page.lastSequence = lastSequenceOf record.sequence group := by
      rw [hpage.last (by simp), lastSequenceOf_cons]
    have hbefore := hfollows.dataBytes_le_from hsub
    have hmax : lastSequenceOf record.sequence group < 2 ^ 64 := by
      obtain ⟨newest, hnewest, hsequence⟩ := lastSequenceOf_mem 0 record group
      rw [lastSequenceOf_cons] at hsequence
      rw [← hsequence]
      exact (hvalid newest hnewest).sequence
    have hnogap := scrollbackFrames_accepted hpage (hbefore.trans_lt hmax)
    constructor
    · rintro ⟨-, hgap⟩ hmissing
      exact hnogap (hgap.mpr hmissing)
    · intro hpresent
      refine ⟨?_, iff_of_false hnogap hpresent⟩
      have hconsecutive : Follows record.sequence group := by
        refine hfollows.of_present_from hsub
          (fun r hr => (hvalid r (List.mem_cons_of_mem _ hr)).nonempty) fun r hr hdata hle hge => ?_
        by_contra habsent
        have := hlast (by simp)
        exact hpresent ⟨r, hr, hdata, by omega, by omega, habsent⟩
      simp only [scrollbackFrames, hpage.chunks, List.map_cons, hrecord,
        followingFrames_of_follows hconsecutive hmax]

/-! ### Every run -/

/-- The invariant of a terminal with its history. -/
structure Recorder.Kept (codec : BlockCodec) (terminalId : String) (recorder : Recorder) : Prop where
  archive : ∃ evicted records, Recorded codec terminalId recorder.archive evicted records
  follows : Follows 0 recorder.emitted
  sequence : lastSequenceOf 0 recorder.emitted = recorder.sequence
  appended : recorder.archive.appended.Sublist recorder.emitted

/-- Only an append adds to what was appended, and it adds its record or nothing. -/
theorem Archive.step_appended {archive next : Archive} {label : ArchiveStep}
    (h : archive.step codec blockBytes terminalId label = some next) :
    next.appended = archive.appended ∨ ∃ command outcomes, label = .append command outcomes ∧
      next.appended = archive.appended ++ [command.record] := by
  cases label with
  | load outcomes =>
    simp only [step] at h
    split at h
    · obtain rfl := Option.some.inj h
      exact .inl rfl
    · cases h
  | append command outcomes =>
    simp only [step, Option.map_eq_some_iff] at h
    obtain ⟨state, -, rfl⟩ := h
    simp only [append]
    split
    · exact .inr ⟨command, outcomes, rfl, rfl⟩
    · exact .inl rfl
  | flush outcomes =>
    simp only [step, Option.map_eq_some_iff] at h
    obtain ⟨state, -, rfl⟩ := h
    exact .inl rfl
  | finalize now outcomes =>
    simp only [step] at h
    split at h <;>
    · obtain rfl := Option.some.inj h
      exact .inl rfl
  | stop =>
    obtain rfl := Option.some.inj h
    exact .inl rfl

namespace Recorder.Kept
variable {recorder next : Recorder}

theorem emit (h : recorder.Kept codec terminalId) {data : Bytes} {taken : Option (List Outcome)}
    (hclean : ∀ outcomes, taken = some outcomes → .failed ∉ outcomes)
    (hstep : recorder.emit codec blockBytes terminalId data taken = some next) :
    next.Kept codec terminalId := by
  simp only [Recorder.emit] at hstep
  split at hstep
  · obtain ⟨archive, happend, rfl⟩ := Option.map_eq_some_iff.mp hstep
    have hfollows : Follows 0 (recorder.emitted ++ [⟨recorder.sequence + data.length, data⟩]) :=
      h.follows.append (by rw [h.sequence])
    have hskip : recorder.archive.appended.Sublist
        (recorder.emitted ++ [⟨recorder.sequence + data.length, data⟩]) :=
      h.appended.trans (List.sublist_append_left ..)
    obtain ⟨evicted, records, hrecorded⟩ := h.archive
    have hsame : archive = recorder.archive → Recorder.Kept codec terminalId
        { archive := archive
          sequence := recorder.sequence + data.length
          emitted := recorder.emitted ++ [⟨recorder.sequence + data.length, data⟩] } := by
      rintro rfl
      exact ⟨⟨evicted, records, hrecorded⟩, hfollows, by simp, hskip⟩
    cases taken with
    | none => exact hsame (Option.some.inj happend).symm
    | some outcomes =>
      simp only [Recorder.tryAppend] at happend
      split at happend
      · rename_i hvalid
        have hclean' : History.Clean recorder.archive (.append ⟨_, hvalid⟩ outcomes) :=
          ⟨hclean outcomes rfl, fun _ hload => by cases hload⟩
        refine ⟨hrecorded.step hclean' happend, hfollows, by simp, ?_⟩
        obtain hold | ⟨command, _, hlabel, hnew⟩ := Archive.step_appended happend
        · rw [hold]
          exact hskip
        · obtain ⟨rfl, -⟩ := ArchiveStep.append.inj hlabel
          rw [hnew]
          exact h.appended.append (List.Sublist.refl _)
      · exact hsame (Option.some.inj happend).symm
  · cases hstep

theorem step (h : recorder.Kept codec terminalId) {label : RecorderStep}
    (hclean : recorder.Clean label)
    (hstep : recorder.step codec blockBytes terminalId label = some next) :
    next.Kept codec terminalId := by
  cases label with
  | emit data taken => exact h.emit hclean hstep
  | archive label =>
    have other : ∀ archive, recorder.archive.step codec blockBytes terminalId label = some archive →
        (∀ command outcomes, label ≠ .append command outcomes) →
        Recorder.Kept codec terminalId { recorder with archive := archive } := by
      intro archive harchive hlabel
      obtain ⟨evicted, records, hrecorded⟩ := h.archive
      refine ⟨hrecorded.step hclean harchive, h.follows, h.sequence, ?_⟩
      obtain hold | ⟨command, outcomes, heq, -⟩ := Archive.step_appended harchive
      · rw [hold]
        exact h.appended
      · exact absurd heq (hlabel command outcomes)
    cases label with
    | append command outcomes => cases hstep
    | load | flush | finalize | stop =>
      simp only [Recorder.step, Option.map_eq_some_iff] at hstep
      obtain ⟨archive, harchive, rfl⟩ := hstep
      exact other archive harchive (by simp)

theorem run {steps : List RecorderStep}
    (hrun : Machine.Path (Recorder.machine codec blockBytes terminalId) Recorder.Clean
      Recorder.initial steps recorder) : recorder.Kept codec terminalId := by
  apply hrun.invariant (I := Recorder.Kept codec terminalId)
  · intro recorder label next h hclean hstep
    exact h.step hclean hstep
  · exact ⟨⟨[], [], Recorded.initial⟩, trivial, rfl, List.Sublist.refl _⟩

end Recorder.Kept

/-- Both directions of paging read a page of the archive. -/
def ReadsPage (codec : BlockCodec) (pageBytes : ℕ) (d : Directory) (state : ArchiveState)
    (cursor : ℕ) (maxBytes : Option ℕ) (page : TerminalHistoryPage) : Prop :=
  readPage codec pageBytes d (readSnapshot state cursor) cursor maxBytes = .ok page ∨
    readPageReverse codec pageBytes d (readSnapshot state 0) cursor maxBytes = .ok page

/-- The records up to a ceiling are the first ones. -/
theorem Ordered.upTo_prefix (h : Ordered start records) (ceiling : ℕ) :
    upTo ceiling records <+: records := by
  obtain ⟨hpast, older, hrecords, holder⟩ := h.past ceiling
  refine ⟨History.past ceiling records, ?_⟩
  conv_rhs => rw [hrecords]
  congr 1
  rw [hrecords, upTo_append, upTo_eq_self holder, upTo_eq_nil fun _ hr => hpast.lt_of_mem hr,
    List.append_nil]

/-- A page carries consecutive records of the archive. -/
theorem ReadsPage.carries {d : Directory} {state : ArchiveState}
    (h : Readable codec d state records) {pageBytes cursor : ℕ} {maxBytes : Option ℕ}
    {page : TerminalHistoryPage} (hpage : ReadsPage codec pageBytes d state cursor maxBytes page) :
    ∃ group, group <:+: records ∧ Carries page group := by
  obtain hpage | hpage := hpage
  · obtain ⟨page', taken, rest, hread, hsplit, -, hcarries, -⟩ :=
      readPage_spec h pageBytes cursor maxBytes
    obtain rfl := Except.ok.inj (hread.symm.trans hpage)
    obtain ⟨-, older, hrecords, -⟩ := h.ordered.past cursor
    refine ⟨taken, ⟨older, rest, ?_⟩, hcarries⟩
    rw [List.append_assoc, ← hsplit, ← hrecords]
  · have hbefore : upTo (readCeiling cursor (state.newest 0)) records =
        upTo (readCeiling cursor (state.newest 0)) records := rfl
    obtain ⟨page', taken, rest, hread, hsplit, -, hcarries, -⟩ :=
      readPageReverse_spec h pageBytes maxBytes hbefore
    obtain rfl := Except.ok.inj (hread.symm.trans hpage)
    obtain ⟨newer, hrecords⟩ := h.ordered.upTo_prefix (readCeiling cursor (state.newest 0))
    rw [hsplit] at hrecords
    exact ⟨taken, ⟨rest, newer, hrecords⟩, hcarries⟩

/-- In every run, the frames of a page carry the sequences of its records, and the client reports a
gap exactly if a read of the range is missing, exactly when none is missing. -/
theorem page_frames_true_iff {steps : List RecorderStep} {recorder : Recorder}
    (hrun : Machine.Path (Recorder.machine codec blockBytes terminalId) Recorder.Clean
      Recorder.initial steps recorder) {state : ArchiveState}
    (hmemory : recorder.archive.memory = some state) {pageBytes cursor : ℕ} {maxBytes : Option ℕ}
    {page : TerminalHistoryPage}
    (hpage : ReadsPage codec pageBytes recorder.archive.disk state cursor maxBytes page)
    {first last : ℕ} (hfirst : first ≤ page.firstSequence) (hlast : page.lastSequence ≤ last) :
    ∃ group, group <:+: past recorder.archive.evictedThrough recorder.archive.appended ∧
      Carries page group ∧
      (TrueFrames page recorder.emitted group first last ↔
        ¬MissingIn recorder.emitted group first last) := by
  obtain ⟨⟨evicted, records, hrecorded⟩, hfollows, -, happended⟩ := Recorder.Kept.run hrun
  have hloaded := hrecorded.held
  rw [hmemory] at hloaded
  have hreadable : Readable codec recorder.archive.disk state records := hloaded.readable
  obtain ⟨group, hgroup, hcarries⟩ := hpage.carries hreadable
  have hstored := hrecorded.past_eq
  have hsub : group.Sublist recorder.emitted := by
    refine (hgroup.sublist.trans ?_).trans happended
    rw [← hstored]
    exact List.filter_sublist
  refine ⟨group, hstored ▸ hgroup, hcarries, ?_⟩
  exact trueFrames_iff hfollows hsub (fun record hr => hreadable.ordered.valid (hgroup.subset hr))
    hcarries hfirst fun _ => hlast

/-- Three reads of a terminal, the second of which the history may not take. -/
def threeReads (taken : Option (List Outcome)) : List RecorderStep :=
  [.archive (.load []), .emit [104] (some []), .emit [105] taken, .emit [33] (some [])]

theorem page_frames_true_of_three_reads : ∃ recorder page group,
    Machine.Path (Recorder.machine storedCodec 524288 "terminal-1") Recorder.Clean
      Recorder.initial (threeReads (some [])) recorder ∧
    group <:+: past recorder.archive.evictedThrough recorder.archive.appended ∧
    TrueFrames page recorder.emitted group 1 3 := by
  obtain ⟨recorder, state, page, hrun, hmemory, hpage, hfirst, hlast, hchunks, hemitted, hstored⟩ :
      ∃ recorder state page, Machine.Path (Recorder.machine storedCodec 524288 "terminal-1")
        Recorder.Clean Recorder.initial (threeReads (some [])) recorder ∧
      recorder.archive.memory = some state ∧
      ReadsPage storedCodec 524288 recorder.archive.disk state 0 none page ∧
      page.firstSequence = 1 ∧ page.lastSequence = 3 ∧ page.chunks.length = 3 ∧
      recorder.emitted = [⟨1, [104]⟩, ⟨2, [105]⟩, ⟨3, [33]⟩] ∧
      past recorder.archive.evictedThrough recorder.archive.appended =
        [⟨1, [104]⟩, ⟨2, [105]⟩, ⟨3, [33]⟩] := by
    have hclean : ∀ recorder : Recorder, ∀ data, recorder.Clean (.emit data (some [])) := by
      simp [Recorder.Clean]
    refine ⟨_, _, _, .cons ⟨by decide, ?_⟩ rfl (.cons (hclean _ _) rfl (.cons (hclean _ _) rfl
      (.cons (hclean _ _) rfl (.nil _)))), rfl, .inl rfl, rfl, rfl, rfl, rfl, rfl⟩
    rintro _ - ⟨manifest, hm, -⟩
    cases hm
  obtain ⟨group, hgroup, hcarries, htrue⟩ :=
    page_frames_true_iff hrun hmemory hpage hfirst.ge hlast.le
  refine ⟨recorder, page, group, hrun, hgroup, htrue.mpr ?_⟩
  have hlength : group.length = 3 := by
    rw [← hchunks, hcarries.chunks, List.length_map]
  rw [hstored] at hgroup
  rw [hgroup.eq_of_length hlength, hemitted]
  rintro ⟨record, hr, -, -, -, habsent⟩
  exact habsent hr

/-- When the history does not take the second read, the third one's frame carries the second one's
sequence, and the client sees no gap. -/
theorem page_frames_false_of_dropped_read : ∃ recorder state page,
    Machine.Path (Recorder.machine storedCodec 524288 "terminal-1") Recorder.Clean
      Recorder.initial (threeReads none) recorder ∧
    recorder.archive.memory = some state ∧
    ReadsPage storedCodec 524288 recorder.archive.disk state 0 none page ∧
    scrollbackFrames page = [⟨1, [104]⟩, ⟨2, [33]⟩] ∧ ¬reportsGap (scrollbackFrames page) ∧
    past recorder.archive.evictedThrough recorder.archive.appended = [⟨1, [104]⟩, ⟨3, [33]⟩] ∧
    ∀ group, group <:+: past recorder.archive.evictedThrough recorder.archive.appended →
      ¬TrueFrames page recorder.emitted group 1 3 := by
  obtain ⟨recorder, state, page, hrun, hmemory, hpage, hframes, hstored⟩ :
      ∃ recorder state page, Machine.Path (Recorder.machine storedCodec 524288 "terminal-1")
        Recorder.Clean Recorder.initial (threeReads none) recorder ∧
      recorder.archive.memory = some state ∧
      ReadsPage storedCodec 524288 recorder.archive.disk state 0 none page ∧
      scrollbackFrames page = [⟨1, [104]⟩, ⟨2, [33]⟩] ∧
      past recorder.archive.evictedThrough recorder.archive.appended =
        [⟨1, [104]⟩, ⟨3, [33]⟩] := by
    have hclean : ∀ (recorder : Recorder) (data : Bytes), recorder.Clean (.emit data (some [])) := by
      simp [Recorder.Clean]
    refine ⟨_, _, _, .cons ⟨by decide, ?_⟩ rfl (.cons (hclean _ _) rfl (.cons ?_ rfl
      (.cons (hclean _ _) rfl (.nil _)))), rfl, .inl rfl, rfl, rfl⟩
    · rintro _ - ⟨manifest, hm, -⟩
      cases hm
    · simp [Recorder.Clean]
  refine ⟨recorder, state, page, hrun, hmemory, hpage, hframes, ?_, hstored, ?_⟩
  · rw [hframes]
    decide
  · rintro group hgroup ⟨hall, -⟩
    rw [hframes] at hall
    have hthird : (⟨2, [33]⟩ : ScrollbackFrame) ∈
        group.map (fun record => ⟨record.sequence, record.data⟩) := by
      rw [← hall]
      exact List.mem_cons_of_mem _ List.mem_cons_self
    obtain ⟨record, hr, heq⟩ := List.mem_map.mp hthird
    have hrecord := hgroup.subset hr
    rw [hstored] at hrecord
    obtain ⟨hsequence, -⟩ := ScrollbackFrame.mk.inj heq
    simp only [List.mem_cons, List.not_mem_nil, or_false] at hrecord
    obtain rfl | rfl := hrecord <;> simp at hsequence

end PiDeck.History
