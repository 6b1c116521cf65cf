import Mathlib
import PiDeck.History.Catalog

/-! Reading an archive page by page, forward from a cursor and backward from the end. A page is a
run of consecutive records; what the pages before and after it hold is exactly the rest. -/
namespace PiDeck.History
open PiDeck.Storage

structure TerminalHistoryPage where
  chunks : List Bytes
  firstSequence : ℕ
  lastSequence : ℕ
  nextSequence : ℕ
  complete : Bool
  deriving DecidableEq

structure HistoryReadSnapshot where
  blocks : List ArchiveBlock
  pending : List HistoryRecord
  newest : ℕ

def readSnapshot (state : ArchiveState) (fallbackSequence : ℕ) : HistoryReadSnapshot :=
  { blocks := state.manifest.blocks
    pending := state.pending
    newest := state.newest fallbackSequence }

def pageLimit (pageBytes : ℕ) (maxBytes : Option ℕ) : ℕ :=
  max 1 (min (maxBytes.getD pageBytes) pageBytes)

variable (codec : BlockCodec)

/-- The records of the blocks that end past the cursor. -/
def readSelected (d : Directory) (afterSequence : ℕ) :
    List ArchiveBlock → Except HistoryError (List HistoryRecord)
  | [] => .ok []
  | block :: blocks =>
    if afterSequence < block.lastSequence then
      match readBlock codec d block.file with
      | .error e => .error e
      | .ok records =>
        match readSelected d afterSequence blocks with
        | .error e => .error e
        | .ok rest => .ok (records ++ rest)
    else readSelected d afterSequence blocks

/-- The loop of `read_page` over the selected records. -/
def fillPage (afterSequence limit newest : ℕ) :
    List HistoryRecord → List Bytes → ℕ → ℕ → ℕ → TerminalHistoryPage
  | [], chunks, _, firstSequence, lastSequence =>
    { chunks := chunks
      firstSequence := firstSequence
      lastSequence := lastSequence
      nextSequence := lastSequence
      complete := decide (newest ≤ lastSequence) }
  | record :: records, chunks, bytes, firstSequence, lastSequence =>
    if record.sequence ≤ afterSequence then
      fillPage afterSequence limit newest records chunks bytes firstSequence lastSequence
    else if chunks ≠ [] ∧ limit < bytes + record.data.length then
      { chunks := chunks
        firstSequence := firstSequence
        lastSequence := lastSequence
        nextSequence := lastSequence
        complete := false }
    else
      fillPage afterSequence limit newest records (chunks ++ [record.data])
        (bytes + record.data.length)
        (if firstSequence = 0 then record.sequence else firstSequence) record.sequence

def readPage (pageBytes : ℕ) (d : Directory) (snapshot : HistoryReadSnapshot)
    (afterSequence : ℕ) (maxBytes : Option ℕ) : Except HistoryError TerminalHistoryPage :=
  match readSelected codec d afterSequence snapshot.blocks with
  | .error e => .error e
  | .ok selected =>
    .ok (fillPage afterSequence (pageLimit pageBytes maxBytes) snapshot.newest
      (selected ++ snapshot.pending) [] 0 0 afterSequence)

/-- What the backward loop has selected, oldest record first, and its bytes. -/
structure BackwardPage where
  selected : List HistoryRecord
  bytes : ℕ

/-- The backward loop over records given newest first. It tells whether the page is still open. -/
def takeBackward (ceiling limit : ℕ) : List HistoryRecord → BackwardPage → BackwardPage × Bool
  | [], page => (page, true)
  | record :: records, page =>
    if ceiling < record.sequence then takeBackward ceiling limit records page
    else if page.selected ≠ [] ∧ limit < page.bytes + record.data.length then (page, false)
    else
      takeBackward ceiling limit records
        ⟨record :: page.selected, page.bytes + record.data.length⟩

/-- The backward loop over blocks given newest first. A block is read only when it is reached. -/
def takeBlocksBackward (d : Directory) (ceiling limit : ℕ) :
    List ArchiveBlock → BackwardPage → Except HistoryError (BackwardPage × Bool)
  | [], page => .ok (page, true)
  | block :: blocks, page =>
    if ceiling < block.firstSequence then takeBlocksBackward d ceiling limit blocks page
    else
      match readBlock codec d block.file with
      | .error e => .error e
      | .ok records =>
        let taken := takeBackward ceiling limit records.reverse page
        if taken.2 then takeBlocksBackward d ceiling limit blocks taken.1 else .ok taken

def backwardPage (taken : BackwardPage × Bool) : TerminalHistoryPage :=
  { chunks := taken.1.selected.map (·.data)
    firstSequence := firstSequenceOf taken.1.selected
    lastSequence := lastSequenceOf 0 taken.1.selected
    nextSequence := firstSequenceOf taken.1.selected
    complete := taken.2 }

def readCeiling (beforeSequence newest : ℕ) : ℕ :=
  if beforeSequence = 0 then newest else min (beforeSequence - 1) newest

def readPageReverse (pageBytes : ℕ) (d : Directory) (snapshot : HistoryReadSnapshot)
    (beforeSequence : ℕ) (maxBytes : Option ℕ) : Except HistoryError TerminalHistoryPage :=
  let ceiling := readCeiling beforeSequence snapshot.newest
  let limit := pageLimit pageBytes maxBytes
  let taken := takeBackward ceiling limit snapshot.pending.reverse ⟨[], 0⟩
  if taken.2 then
    match takeBlocksBackward codec d ceiling limit snapshot.blocks.reverse taken.1 with
    | .error e => .error e
    | .ok taken => .ok (backwardPage taken)
  else .ok (backwardPage taken)

/-! ### Records past a cursor -/

/-- The records past a sequence. -/
def past (sequence : ℕ) (records : List HistoryRecord) : List HistoryRecord :=
  records.filter fun record => decide (sequence < record.sequence)

/-- The records up to a sequence. -/
def upTo (sequence : ℕ) (records : List HistoryRecord) : List HistoryRecord :=
  records.filter fun record => decide (record.sequence ≤ sequence)

theorem past_append (sequence : ℕ) (xs ys : List HistoryRecord) :
    past sequence (xs ++ ys) = past sequence xs ++ past sequence ys := List.filter_append ..

theorem upTo_append (sequence : ℕ) (xs ys : List HistoryRecord) :
    upTo sequence (xs ++ ys) = upTo sequence xs ++ upTo sequence ys := List.filter_append ..

theorem past_eq_nil {sequence : ℕ} {records : List HistoryRecord}
    (h : ∀ record ∈ records, record.sequence ≤ sequence) : past sequence records = [] := by
  refine List.filter_eq_nil_iff.mpr fun record hr => ?_
  simpa using h record hr

theorem past_eq_self {sequence : ℕ} {records : List HistoryRecord}
    (h : ∀ record ∈ records, sequence < record.sequence) : past sequence records = records := by
  refine List.filter_eq_self.mpr fun record hr => ?_
  simpa using h record hr

theorem upTo_eq_nil {sequence : ℕ} {records : List HistoryRecord}
    (h : ∀ record ∈ records, sequence < record.sequence) : upTo sequence records = [] := by
  refine List.filter_eq_nil_iff.mpr fun record hr => ?_
  simpa using h record hr

theorem upTo_eq_self {sequence : ℕ} {records : List HistoryRecord}
    (h : ∀ record ∈ records, record.sequence ≤ sequence) : upTo sequence records = records := by
  refine List.filter_eq_self.mpr fun record hr => ?_
  simpa using h record hr

/-- The records past a cursor are the last ones, in order. -/
theorem Ordered.past {start : ℕ} {records : List HistoryRecord} (h : Ordered start records)
    (cursor : ℕ) : Ordered cursor (past cursor records) ∧
      ∃ older, records = older ++ History.past cursor records ∧
        ∀ record ∈ older, record.sequence ≤ cursor := by
  induction records generalizing start with
  | nil => exact ⟨trivial, [], rfl, by simp⟩
  | cons record records ih =>
    obtain ⟨hlt, hvalid, hrest⟩ := h
    by_cases hpast : cursor < record.sequence
    · have hall : History.past cursor (record :: records) = record :: records := by
        refine past_eq_self fun r hr => ?_
        obtain rfl | hr := List.mem_cons.mp hr
        · exact hpast
        · exact hpast.trans (hrest.lt_of_mem hr)
      rw [hall]
      exact ⟨⟨hpast, hvalid, hrest⟩, [], rfl, by simp⟩
    · obtain ⟨hord, older, hsplit, holder⟩ := ih hrest
      have hskip : History.past cursor (record :: records) = History.past cursor records :=
        List.filter_cons_of_neg (by simpa using hpast)
      rw [hskip]
      refine ⟨hord, record :: older, by rw [List.cons_append, ← hsplit], ?_⟩
      intro r hr
      obtain rfl | hr := List.mem_cons.mp hr
      · exact not_lt.mp hpast
      · exact holder r hr

/-- After a run of records has been taken from the front, the cursor is at its end. -/
theorem Ordered.past_taken {cursor : ℕ} {taken rest : List HistoryRecord}
    (h : Ordered cursor (taken ++ rest)) :
    History.past (lastSequenceOf cursor taken) (taken ++ rest) = rest :=
  h.filter_append rfl

theorem lastSequenceOf_past {start cursor : ℕ} {records : List HistoryRecord}
    (h : Ordered start records) (hne : past cursor records ≠ []) (a : ℕ) :
    lastSequenceOf a records = lastSequenceOf cursor (past cursor records) := by
  obtain ⟨-, older, hsplit, -⟩ := h.past cursor
  conv_lhs => rw [hsplit]
  rw [lastSequenceOf_append]
  exact lastSequenceOf_nonempty hne _ _

/-! ### One page forward -/

/-- A page that carries the records `group`. -/
structure Carries (page : TerminalHistoryPage) (group : List HistoryRecord) : Prop where
  chunks : page.chunks = group.map (·.data)
  first : page.firstSequence = firstSequenceOf group
  last : group ≠ [] → page.lastSequence = lastSequenceOf 0 group

theorem firstSequenceOf_append {xs ys : List HistoryRecord} (h : xs ≠ []) :
    firstSequenceOf (xs ++ ys) = firstSequenceOf xs := by
  cases xs with
  | nil => exact absurd rfl h
  | cons x xs => rfl

/-- The forward loop, with `taken` already on the page. -/
theorem fillPage_spec (afterSequence limit newest bytes : ℕ) {first last : ℕ}
    {records taken : List HistoryRecord} {chunks : List Bytes}
    (hchunks : chunks = taken.map (·.data)) (hfirst : first = firstSequenceOf taken)
    (hlast : last = lastSequenceOf afterSequence taken)
    (hpos : ∀ record ∈ taken, 0 < record.sequence)
    (hnewest : newest ≤ lastSequenceOf afterSequence (taken ++ past afterSequence records)) :
    ∃ more rest, past afterSequence records = more ++ rest ∧
      (taken ++ more = [] → rest = []) ∧
      (fillPage afterSequence limit newest records chunks bytes first last).chunks =
        (taken ++ more).map (·.data) ∧
      (fillPage afterSequence limit newest records chunks bytes first last).firstSequence =
        firstSequenceOf (taken ++ more) ∧
      (fillPage afterSequence limit newest records chunks bytes first last).lastSequence =
        lastSequenceOf afterSequence (taken ++ more) ∧
      (fillPage afterSequence limit newest records chunks bytes first last).nextSequence =
        lastSequenceOf afterSequence (taken ++ more) ∧
      ((fillPage afterSequence limit newest records chunks bytes first last).complete = true ↔
        rest = []) := by
  induction records generalizing chunks bytes first last taken with
  | nil =>
    refine ⟨[], [], rfl, fun _ => rfl, by simp [fillPage, hchunks], by simp [fillPage, hfirst],
      by simp [fillPage, hlast], by simp [fillPage, hlast], ?_⟩
    simpa [fillPage, hlast, past] using hnewest
  | cons record records ih =>
    by_cases hskip : record.sequence ≤ afterSequence
    · have hpast : past afterSequence (record :: records) = past afterSequence records :=
        List.filter_cons_of_neg (by simpa using hskip)
      rw [hpast] at hnewest ⊢
      simp only [fillPage, if_pos hskip]
      exact ih bytes hchunks hfirst hlast hpos hnewest
    · have hpast : past afterSequence (record :: records) =
          record :: past afterSequence records :=
        List.filter_cons_of_pos (by simpa using hskip)
      rw [hpast] at hnewest ⊢
      simp only [fillPage, if_neg hskip]
      by_cases hfull : chunks ≠ [] ∧ limit < bytes + record.data.length
      · have htaken : taken ≠ [] := by
          rintro rfl
          exact hfull.1 hchunks
        rw [if_pos hfull]
        refine ⟨[], record :: past afterSequence records, rfl, ?_, by simp [hchunks],
          by simp [hfirst], by simp [hlast], by simp [hlast], by simp⟩
        intro hnil
        simp [htaken] at hnil
      · rw [if_neg hfull]
        have hsequence : 0 < record.sequence := by omega
        have hfirst' : (if first = 0 then record.sequence else first) =
            firstSequenceOf (taken ++ [record]) := by
          cases taken with
          | nil => simp [hfirst, firstSequenceOf]
          | cons r taken =>
            have := hpos r List.mem_cons_self
            have hne : first ≠ 0 := by
              simp only [hfirst, firstSequenceOf, List.head?_cons, Option.map_some,
                Option.getD_some]
              omega
            rw [if_neg hne, hfirst, firstSequenceOf_append (by simp)]
        obtain ⟨more, rest, hsplit, hempty, hpage⟩ := @ih
          (bytes + record.data.length) _ record.sequence (taken ++ [record])
          (chunks ++ [record.data]) (by simp [hchunks]) hfirst' (by simp)
          (by
            intro r hr
            obtain hr | hr := List.mem_append.mp hr
            · exact hpos r hr
            · obtain rfl := List.mem_singleton.mp hr
              exact hsequence)
          (by simpa using hnewest)
        refine ⟨record :: more, rest, by rw [hsplit, List.cons_append], fun hnil => by simp at hnil,
          ?_⟩
        simpa using hpage

/-- An archive whose blocks can be read and whose records are in order. -/
structure Readable (codec : BlockCodec) (d : Directory) (state : ArchiveState)
    (records : List HistoryRecord) : Prop where
  ordered : Ordered 0 records
  split : ∃ stored, HoldsBlocks codec d.files 0 state.manifest.blocks stored ∧
    records = stored ++ state.pending

section Readable
variable {codec} {d : Directory} {state : ArchiveState} {records : List HistoryRecord}

theorem Readable.contents (h : Readable codec d state records) :
    contents codec d state = .ok records := by
  obtain ⟨stored, hstored, rfl⟩ := h.split
  simp only [History.contents, hstored.read]

theorem HoldsBlocks.lastOfBlocks_eq {files : BlockFiles} {start : ℕ} {blocks : List ArchiveBlock}
    {stored : List HistoryRecord} (h : HoldsBlocks codec files start blocks stored) (a : ℕ) :
    lastOfBlocks a blocks = lastSequenceOf a stored := by
  cases blocks with
  | nil =>
    obtain rfl := h
    rfl
  | cons block blocks =>
    have hlast := h.ordered.2
    obtain ⟨own, rest, rfl, hown, -⟩ := h
    rw [lastOfBlocks_cons] at hlast ⊢
    rw [← hlast]
    exact lastSequenceOf_nonempty (by simp [hown.nonempty]) _ _

theorem Readable.newest (h : Readable codec d state records) (fallback : ℕ) :
    state.newest fallback = lastSequenceOf fallback records := by
  obtain ⟨stored, hstored, rfl⟩ := h.split
  rw [ArchiveState.newest, ArchiveManifest.lastSequence_eq, hstored.lastOfBlocks_eq,
    lastSequenceOf_append]

/-- The blocks that are not read hold nothing past the cursor. -/
theorem readSelected_past {start : ℕ} {blocks : List ArchiveBlock}
    {stored : List HistoryRecord} (h : HoldsBlocks codec d.files start blocks stored)
    (afterSequence : ℕ) : ∃ selected, readSelected codec d afterSequence blocks = .ok selected ∧
      past afterSequence selected = past afterSequence stored := by
  induction blocks generalizing start stored with
  | nil =>
    obtain rfl := h
    exact ⟨[], rfl, rfl⟩
  | cons block blocks ih =>
    obtain ⟨own, rest, rfl, hown, hrest⟩ := h
    obtain ⟨selected, hread, hpast⟩ := ih hrest
    by_cases hselect : afterSequence < block.lastSequence
    · refine ⟨own ++ selected, ?_, by rw [past_append, past_append, hpast]⟩
      simp only [readSelected, if_pos hselect, hown.read, hread]
    · have hnone : past afterSequence own = [] := by
        refine past_eq_nil fun record hr => ?_
        have := (hown.ordered.weaken (Nat.zero_le _)).le_last hr
        rw [← hown.last] at this
        omega
      refine ⟨selected, by simp only [readSelected, if_neg hselect, hread], ?_⟩
      rw [past_append, hpast, hnone, List.nil_append]

theorem Ordered.newest_le {start cursor : ℕ} {records : List HistoryRecord}
    (h : Ordered start records) :
    lastSequenceOf cursor records ≤ lastSequenceOf cursor (History.past cursor records) := by
  by_cases hne : History.past cursor records = []
  · obtain ⟨-, older, hsplit, holder⟩ := h.past cursor
    rw [hne, List.append_nil] at hsplit
    rw [hne, lastSequenceOf_nil]
    cases records using List.reverseRecOn with
    | nil => exact le_refl _
    | append_singleton records record =>
      rw [lastSequenceOf_append]
      exact holder record (by rw [← hsplit]; simp)
  · exact (lastSequenceOf_past h hne cursor).le

/-- A page holds the records right after the cursor, at least one if there are any, and the next
cursor is its last record. It says that it is complete exactly when no more follow. -/
theorem readPage_spec (h : Readable codec d state records) (pageBytes afterSequence : ℕ)
    (maxBytes : Option ℕ) : ∃ page taken rest,
      readPage codec pageBytes d (readSnapshot state afterSequence) afterSequence maxBytes =
        .ok page ∧
      past afterSequence records = taken ++ rest ∧ (taken = [] → rest = []) ∧
      Carries page taken ∧ page.nextSequence = lastSequenceOf afterSequence taken ∧
      (page.complete = true ↔ rest = []) := by
  obtain ⟨stored, hstored, hrecords⟩ := h.split
  obtain ⟨selected, hread, hpast⟩ := readSelected_past hstored afterSequence
  have hall : past afterSequence (selected ++ state.pending) = past afterSequence records := by
    rw [hrecords, past_append, past_append, hpast]
  have hnewest : state.newest afterSequence ≤
      lastSequenceOf afterSequence ([] ++ past afterSequence (selected ++ state.pending)) := by
    rw [List.nil_append, hall, h.newest]
    exact h.ordered.newest_le
  obtain ⟨taken, rest, hsplit, hempty, hchunks, hfirst, hlast, hnext, hcomplete⟩ :=
    fillPage_spec afterSequence (pageLimit pageBytes maxBytes) _ 0 List.map_nil.symm rfl rfl
      (by simp) hnewest
  rw [hall] at hsplit
  refine ⟨_, taken, rest, ?_, hsplit, hempty, ⟨hchunks, hfirst, fun hne => ?_⟩, hnext, hcomplete⟩
  · simp only [readPage, readSnapshot, hread]
    rfl
  · rw [hlast]
    exact lastSequenceOf_nonempty hne _ _

/-- Iterate `read_page` from a cursor until it reports that it is complete, the page of each
number with its own byte limit; nothing when the fuel runs out first. -/
def readForward (codec : BlockCodec) (pageBytes : ℕ) (d : Directory) (state : ArchiveState)
    (limits : ℕ → Option ℕ) :
    ℕ → ℕ → ℕ → Except HistoryError (Option (List TerminalHistoryPage))
  | 0, _, _ => .ok none
  | fuel + 1, number, cursor =>
    match readPage codec pageBytes d (readSnapshot state cursor) cursor (limits number) with
    | .error e => .error e
    | .ok page =>
      if page.complete then .ok (some [page])
      else
        match readForward codec pageBytes d state limits fuel (number + 1) page.nextSequence with
        | .error e => .error e
        | .ok pages => .ok (pages.map (page :: ·))

/-- What is left past the end of a page. -/
theorem past_next {start cursor : ℕ} {taken rest : List HistoryRecord}
    (h : Ordered start records) (hsplit : past cursor records = taken ++ rest) :
    past (lastSequenceOf cursor taken) records = rest := by
  obtain ⟨hord, older, hrecords, holder⟩ := h.past cursor
  rw [hsplit] at hord hrecords
  have hle : cursor ≤ lastSequenceOf cursor taken := (ordered_append.mp hord).1.start_le
  rw [hrecords, past_append, hord.past_taken, past_eq_nil, List.nil_append]
  exact fun record hr => (holder record hr).trans hle

/-- Forward iteration ends, and its pages carry the records past the cursor, each once and in
order. -/
theorem readForward_spec (h : Readable codec d state records) (pageBytes : ℕ)
    (limits : ℕ → Option ℕ) {fuel : ℕ} (number cursor : ℕ)
    (hfuel : (past cursor records).length < fuel) : ∃ pages groups,
      readForward codec pageBytes d state limits fuel number cursor = .ok (some pages) ∧
      groups.flatten = past cursor records ∧ List.Forall₂ Carries pages groups := by
  induction fuel generalizing number cursor with
  | zero => exact absurd hfuel (Nat.not_lt_zero _)
  | succ fuel ih =>
    obtain ⟨page, taken, rest, hread, hsplit, hempty, hcarries, hnext, hcomplete⟩ :=
      readPage_spec h pageBytes cursor (limits number)
    by_cases hrest : rest = []
    · refine ⟨[page], [taken], ?_, by simp [hsplit, hrest], .cons hcarries .nil⟩
      simp only [readForward, hread, hcomplete.mpr hrest, if_true]
    · -- The page took at least one record, so less is left than before.
      have htaken : taken ≠ [] := fun hnil => hrest (hempty hnil)
      have hleft := past_next h.ordered hsplit
      have hshorter : (past page.nextSequence records).length < fuel := by
        rw [hnext, hleft]
        rw [hsplit, List.length_append] at hfuel
        have := List.length_pos_of_ne_nil htaken
        omega
      obtain ⟨pages, groups, hpages, hgroups, hall⟩ := ih (number + 1) page.nextSequence hshorter
      have hopen : page.complete = false := by
        simpa using fun hc => hrest (hcomplete.mp hc)
      refine ⟨page :: pages, taken :: groups, ?_, ?_, .cons hcarries hall⟩
      · simp only [readForward, hread, hopen, Bool.false_eq_true, if_false, hpages]
        rfl
      · rw [List.flatten_cons, hgroups, hnext, hleft, hsplit]

/-! ### One page backward -/

/-- The backward loop takes the newest records below the ceiling, newest first. -/
theorem takeBackward_spec (ceiling limit : ℕ) (records : List HistoryRecord) (page : BackwardPage) :
    ∃ taken rest, upTo ceiling records = taken ++ rest ∧
      (takeBackward ceiling limit records page).1.selected = taken.reverse ++ page.selected ∧
      ((takeBackward ceiling limit records page).2 = true ↔ rest = []) ∧
      (rest ≠ [] → taken.reverse ++ page.selected ≠ []) := by
  induction records generalizing page with
  | nil => exact ⟨[], [], rfl, rfl, by simp [takeBackward], by simp⟩
  | cons record records ih =>
    by_cases hskip : ceiling < record.sequence
    · have hup : upTo ceiling (record :: records) = upTo ceiling records :=
        List.filter_cons_of_neg (by simpa using hskip)
      rw [hup]
      simpa only [takeBackward, if_pos hskip] using ih page
    · have hup : upTo ceiling (record :: records) = record :: upTo ceiling records :=
        List.filter_cons_of_pos (by simpa using hskip)
      rw [hup]
      by_cases hfull : page.selected ≠ [] ∧ limit < page.bytes + record.data.length
      · refine ⟨[], record :: upTo ceiling records, rfl, ?_, ?_, fun _ => by simpa using hfull.1⟩
        · simp only [takeBackward, if_neg hskip, if_pos hfull, List.reverse_nil, List.nil_append]
        · simp only [takeBackward, if_neg hskip, if_pos hfull]
          simp
      · obtain ⟨taken, rest, hsplit, hselected, hopen, hsome⟩ :=
          ih ⟨record :: page.selected, page.bytes + record.data.length⟩
        refine ⟨record :: taken, rest, by rw [hsplit, List.cons_append], ?_, ?_, ?_⟩
        · simp only [takeBackward, if_neg hskip, if_neg hfull, hselected]
          simp
        · simp only [takeBackward, if_neg hskip, if_neg hfull]
          exact hopen
        · simp

theorem upTo_reverse (ceiling : ℕ) (records : List HistoryRecord) :
    upTo ceiling records.reverse = (upTo ceiling records).reverse := List.filter_reverse ..

/-- The backward loop over records given in order: what it takes is the end of what is below the
ceiling. -/
theorem takeBackward_reverse (ceiling limit : ℕ) (records : List HistoryRecord)
    (page : BackwardPage) : ∃ taken rest, upTo ceiling records = rest ++ taken ∧
      (takeBackward ceiling limit records.reverse page).1.selected = taken ++ page.selected ∧
      ((takeBackward ceiling limit records.reverse page).2 = true ↔ rest = []) ∧
      (rest ≠ [] → taken ++ page.selected ≠ []) := by
  obtain ⟨taken, rest, hsplit, hselected, hopen, hsome⟩ :=
    takeBackward_spec ceiling limit records.reverse page
  refine ⟨taken.reverse, rest.reverse, ?_, hselected, by simpa using hopen, by simpa using hsome⟩
  rw [upTo_reverse] at hsplit
  rw [← List.reverse_append, ← hsplit, List.reverse_reverse]

theorem HoldsBlocks.append_inv {files : BlockFiles} {start : ℕ} {blocks : List ArchiveBlock}
    {block : ArchiveBlock} {stored : List HistoryRecord}
    (h : HoldsBlocks codec files start (blocks ++ [block]) stored) : ∃ older own,
      stored = older ++ own ∧ HoldsBlocks codec files start blocks older ∧
      HoldsBlock codec files (lastOfBlocks start blocks) block own := by
  induction blocks generalizing start stored with
  | nil =>
    obtain ⟨own, rest, rfl, hown, rfl⟩ := h
    exact ⟨[], own, by simp, rfl, hown⟩
  | cons first blocks ih =>
    obtain ⟨own, rest, rfl, hown, hrest⟩ := h
    obtain ⟨older, own', rfl, holder, hown'⟩ := ih hrest
    exact ⟨own ++ older, own', by simp, ⟨own, older, rfl, hown, holder⟩, by
      rwa [lastOfBlocks_cons]⟩

theorem takeBlocksBackward_spec (ceiling limit : ℕ) {start : ℕ} {blocks : List ArchiveBlock}
    {stored : List HistoryRecord} (h : HoldsBlocks codec d.files start blocks stored)
    (page : BackwardPage) : ∃ result taken rest,
      takeBlocksBackward codec d ceiling limit blocks.reverse page = .ok result ∧
      upTo ceiling stored = rest ++ taken ∧ result.1.selected = taken ++ page.selected ∧
      (result.2 = true ↔ rest = []) ∧ (rest ≠ [] → taken ++ page.selected ≠ []) := by
  induction blocks using List.reverseRecOn generalizing stored page with
  | nil =>
    obtain rfl := h
    exact ⟨_, [], [], rfl, rfl, rfl, by simp, by simp⟩
  | append_singleton blocks block ih =>
    obtain ⟨older, own, rfl, holder, hown⟩ := h.append_inv
    rw [List.reverse_append, List.reverse_singleton, List.singleton_append, upTo_append]
    by_cases hskip : ceiling < block.firstSequence
    · have hnone : upTo ceiling own = [] := by
        refine upTo_eq_nil fun record hr => hskip.trans_le ?_
        rw [hown.first]
        exact hown.ordered.first_le hr
      obtain ⟨result, taken, rest, hread, hsplit, hresult⟩ := ih holder page
      refine ⟨result, taken, rest, ?_, by rw [hnone, List.append_nil, hsplit], hresult⟩
      simp only [takeBlocksBackward, if_pos hskip, hread]
    · obtain ⟨taken, rest, hsplit, hselected, hopen, hsome⟩ :=
        takeBackward_reverse ceiling limit own page
      by_cases hrest : rest = []
      · -- The whole block is on the page; go on with the older ones.
        obtain ⟨result, taken', rest', hread, hsplit', hresult, hopen', hsome'⟩ :=
          ih holder (takeBackward ceiling limit own.reverse page).1
        rw [hselected] at hresult hsome'
        refine ⟨result, taken' ++ taken, rest', ?_, ?_, by simpa using hresult, hopen', by
          simpa using hsome'⟩
        · simp only [takeBlocksBackward, if_neg hskip, hown.read, hopen.mpr hrest, if_true, hread]
        · rw [hsplit', hsplit, hrest, List.nil_append, List.append_assoc]
      · have hclosed : (takeBackward ceiling limit own.reverse page).2 = false := by
          simpa using fun hc => hrest (hopen.mp hc)
        refine ⟨takeBackward ceiling limit own.reverse page, taken, upTo ceiling older ++ rest, ?_,
          by rw [hsplit, List.append_assoc], hselected, ?_, fun _ => hsome hrest⟩
        · simp only [takeBlocksBackward, if_neg hskip, hown.read, hclosed, Bool.false_eq_true,
            if_false]
        · simp [hclosed, hrest]

/-- A page backward holds the records right below the ceiling. -/
theorem readPageReverse_spec (h : Readable codec d state records) (pageBytes : ℕ)
    (maxBytes : Option ℕ) {beforeSequence : ℕ} {older : List HistoryRecord}
    (hbefore : upTo (readCeiling beforeSequence (state.newest 0)) records = older) :
    ∃ page taken rest,
      readPageReverse codec pageBytes d (readSnapshot state 0) beforeSequence maxBytes = .ok page ∧
      older = rest ++ taken ∧ (taken = [] → rest = []) ∧ Carries page taken ∧
      page.nextSequence = firstSequenceOf taken ∧ (page.complete = true ↔ rest = []) := by
  obtain ⟨stored, hstored, hrecords⟩ := h.split
  obtain ⟨taken, rest, hsplit, hselected, hopen, hsome⟩ :=
    takeBackward_reverse (readCeiling beforeSequence (state.newest 0))
      (pageLimit pageBytes maxBytes) state.pending ⟨[], 0⟩
  rw [List.append_nil] at hselected hsome
  rw [hrecords, upTo_append] at hbefore
  have carries : ∀ {result : BackwardPage × Bool} {group : List HistoryRecord},
      result.1.selected = group → Carries (backwardPage result) group := by
    rintro result group rfl
    exact ⟨rfl, rfl, fun _ => rfl⟩
  by_cases hrest : rest = []
  · obtain ⟨result, taken', rest', hread, hsplit', hresult, hopen', hsome'⟩ :=
      takeBlocksBackward_spec (readCeiling beforeSequence (state.newest 0))
        (pageLimit pageBytes maxBytes) hstored (takeBackward
          (readCeiling beforeSequence (state.newest 0)) (pageLimit pageBytes maxBytes)
          state.pending.reverse ⟨[], 0⟩).1
    rw [hselected] at hresult hsome'
    refine ⟨backwardPage result, taken' ++ taken, rest', ?_, ?_, ?_, carries hresult, ?_, hopen'⟩
    · simp only [readPageReverse, readSnapshot, hopen.mpr hrest, if_true, hread]
    · rw [← hbefore, hsplit', hsplit, hrest, List.nil_append, List.append_assoc]
    · intro hnil
      by_contra hne
      exact hsome' hne hnil
    · simp only [backwardPage, hresult]
  · have hclosed : (takeBackward (readCeiling beforeSequence (state.newest 0))
        (pageLimit pageBytes maxBytes) state.pending.reverse ⟨[], 0⟩).2 = false := by
      simpa using fun hc => hrest (hopen.mp hc)
    refine ⟨_, taken, upTo (readCeiling beforeSequence (state.newest 0)) stored ++ rest, ?_, ?_, ?_,
      carries hselected, by simp only [backwardPage, hselected], ?_⟩
    · simp only [readPageReverse, readSnapshot, hclosed, Bool.false_eq_true, if_false]
    · rw [← hbefore, hsplit, List.append_assoc]
    · intro hnil
      exact absurd hnil (hsome hrest)
    · simp [backwardPage, hclosed, hrest]

/-- Iterate `read_page_reverse` until it reports that it is complete. -/
def readBackward (codec : BlockCodec) (pageBytes : ℕ) (d : Directory) (state : ArchiveState)
    (limits : ℕ → Option ℕ) :
    ℕ → ℕ → ℕ → Except HistoryError (Option (List TerminalHistoryPage))
  | 0, _, _ => .ok none
  | fuel + 1, number, before' =>
    match readPageReverse codec pageBytes d (readSnapshot state 0) before' (limits number) with
    | .error e => .error e
    | .ok page =>
      if page.complete then .ok (some [page])
      else
        match readBackward codec pageBytes d state limits fuel (number + 1) page.nextSequence with
        | .error e => .error e
        | .ok pages => .ok (pages.map (page :: ·))

/-- What is left below the start of a page. -/
theorem upTo_next (h : Readable codec d state records) {rest taken newer : List HistoryRecord}
    (hrecords : records = rest ++ taken ++ newer) (htaken : taken ≠ []) :
    upTo (readCeiling (firstSequenceOf taken) (state.newest 0)) records = rest := by
  obtain ⟨first, hfirst, hsequence⟩ := firstSequenceOf_mem htaken
  have hord := h.ordered
  rw [h.newest, readCeiling]
  rw [hrecords, List.append_assoc] at hord
  obtain ⟨hrest, htail⟩ := ordered_append.mp hord
  have hpos : lastSequenceOf 0 rest < firstSequenceOf taken := by
    rw [← hsequence]
    exact htail.lt_of_mem (List.mem_append_left _ hfirst)
  rw [if_neg (by omega), hrecords, List.append_assoc, upTo_append, upTo_eq_self, upTo_eq_nil,
    List.append_nil]
  · intro record hr
    have hge := htail.first_le hr
    rw [firstSequenceOf_append htaken] at hge
    omega
  · intro record hr
    have hle := hrest.le_last hr
    have hnewest := hord.le_last (List.mem_append_left _ hr)
    omega

/-- Backward iteration ends, and its pages carry the records below the ceiling, newest page
first. -/
theorem readBackward_spec (h : Readable codec d state records) (pageBytes : ℕ)
    (limits : ℕ → Option ℕ) {fuel : ℕ} (number : ℕ) {beforeSequence : ℕ}
    {older newer : List HistoryRecord} (hrecords : records = older ++ newer)
    (hbefore : upTo (readCeiling beforeSequence (state.newest 0)) records = older)
    (hfuel : older.length < fuel) : ∃ pages groups,
      readBackward codec pageBytes d state limits fuel number beforeSequence = .ok (some pages) ∧
      groups.reverse.flatten = older ∧ List.Forall₂ Carries pages groups := by
  induction fuel generalizing number beforeSequence older newer with
  | zero => exact absurd hfuel (Nat.not_lt_zero _)
  | succ fuel ih =>
    obtain ⟨page, taken, rest, hread, rfl, hempty, hcarries, hnext, hcomplete⟩ :=
      readPageReverse_spec h pageBytes (limits number) hbefore
    by_cases hrest : rest = []
    · refine ⟨[page], [taken], ?_, by simp [hrest], .cons hcarries .nil⟩
      simp only [readBackward, hread, hcomplete.mpr hrest, if_true]
    · have htaken : taken ≠ [] := fun hnil => hrest (hempty hnil)
      have hleft := upTo_next h hrecords htaken
      have hshorter : rest.length < fuel := by
        rw [List.length_append] at hfuel
        have := List.length_pos_of_ne_nil htaken
        omega
      rw [← hnext] at hleft
      obtain ⟨pages, groups, hpages, hgroups, hall⟩ :=
        ih (number + 1) (hrecords.trans (List.append_assoc ..)) hleft hshorter
      have hopen : page.complete = false := by
        simpa using fun hc => hrest (hcomplete.mp hc)
      refine ⟨page :: pages, taken :: groups, ?_, ?_, .cons hcarries hall⟩
      · simp only [readBackward, hread, hopen, Bool.false_eq_true, if_false, hpages]
        rfl
      · simp [List.flatten_append, hgroups]

theorem upTo_newest (h : Readable codec d state records) :
    upTo (readCeiling 0 (state.newest 0)) records = records := by
  refine upTo_eq_self fun record hr => ?_
  rw [readCeiling, if_pos rfl, h.newest]
  exact h.ordered.le_last hr

theorem chunks_of_carries {pages : List TerminalHistoryPage} {groups : List (List HistoryRecord)}
    (h : List.Forall₂ Carries pages groups) :
    pages.flatMap (·.chunks) = groups.flatten.map (·.data) := by
  induction h with
  | nil => rfl
  | cons hpage _ ih => simp [hpage.chunks, ih]

end Readable

end PiDeck.History
