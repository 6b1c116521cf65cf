import Mathlib
import PiDeck.Links.Viewport

/-! When the link of the viewport is the link of the whole line. The rows of the viewport give the
first segments of the line, the last of them perhaps without its spaces. -/
namespace PiDeck.Links
open PiDeck.Collections

def Segment.down (segment : Segment) (top : ℕ) : Segment :=
  { segment with row := segment.row + top }

/-! ### The segments of the viewport -/

/-- The segments of some rows, and those of the rows with what follows: the last one may have lost its
spaces, and only a row that wraps is followed by more. -/
structure Begins (top : ℕ) (segments full : List Segment) (whole : List Segment) (last : Segment)
    (row : Row) (fullText : Text) (more : List Segment) : Prop where
  segments_eq : segments = whole ++ [last]
  full_eq : full = whole.map (Segment.down · top) ++ ⟨last.row + top, fullText, last.startIndex⟩ :: more
  complete : row.wrapsToNext = false → fullText = last.text ∧ more = []
  trimmed : row.wrapsToNext = true → last.text = trimSpaces fullText

variable {rows rest : List Row} {index startIndex top : ℕ}

variable (index startIndex top) in
theorem segmentsFrom_begins (hne : rows ≠ [])
    (hwraps : (rows ++ rest).IsChain (fun row next => row.wrapsToNext = next.isWrapContinuation))
    (hlast : ∀ row ∈ (rows ++ rest).getLast?, row.wrapsToNext = false) :
    ∃ whole last row fullText more,
      Begins top (segmentsFrom rows index startIndex)
        (segmentsFrom (rows ++ rest) (index + top) startIndex) whole last row fullText more ∧
      index ≤ last.row ∧ rows[last.row - index]? = some row := by
  induction rows generalizing index startIndex with
  | nil => exact absurd rfl hne
  | cons row below ih =>
    obtain ⟨hnext, hchain⟩ := List.isChain_cons.mp hwraps
    cases below with
    | nil =>
      cases rest with
      | nil =>
        have hwhole := hlast row rfl
        exact ⟨[], _, row, _, [], ⟨rfl, rfl, fun _ => ⟨rfl, rfl⟩, by simp [hwhole]⟩, le_rfl, by simp⟩
      | cons next rest =>
        have hwrap := hnext next rfl
        cases hcontinues : next.isWrapContinuation with
        | true =>
          rw [hcontinues] at hwrap
          refine ⟨[], ⟨index, terminalRowText row true, startIndex⟩, row, terminalRowText row false,
            segmentsFrom (next :: rest) (index + top + 1)
              (startIndex + (terminalRowText row false).length), ⟨rfl, ?_, by simp [hwrap],
              fun _ => rfl⟩, le_rfl, by simp⟩
          rw [List.singleton_append, segmentsFrom]
          simp [hcontinues]
        | false =>
          rw [hcontinues] at hwrap
          refine ⟨[], ⟨index, terminalRowText row true, startIndex⟩, row, terminalRowText row true,
            [], ⟨rfl, ?_, fun _ => ⟨rfl, rfl⟩, by simp [hwrap]⟩, le_rfl, by simp⟩
          rw [List.singleton_append, segmentsFrom]
          simp [hcontinues]
    | cons next below =>
      have hwrap := hnext next rfl
      cases hcontinues : next.isWrapContinuation with
      | true =>
        obtain ⟨whole, last, found, fullText, more, hbegins, hindex, hfound⟩ :=
          ih (index + 1) (startIndex + (terminalRowText row false).length)
            (List.cons_ne_nil _ _) hchain (fun found hmem => hlast found (by simpa using hmem))
        refine ⟨⟨index, terminalRowText row false, startIndex⟩ :: whole, last, found, fullText, more,
          ⟨?_, ?_, hbegins.complete, hbegins.trimmed⟩, by omega, ?_⟩
        · rw [segmentsFrom, List.cons_append, ← hbegins.segments_eq]
          simp [hcontinues]
        · have hfull := hbegins.full_eq
          rw [Nat.add_right_comm] at hfull
          simp only [List.cons_append, List.map_cons] at hfull ⊢
          rw [← hfull, segmentsFrom]
          simp [hcontinues, Segment.down]
        · have hrow : last.row - index = last.row - (index + 1) + 1 := by omega
          rw [hrow, List.getElem?_cons_succ, hfound]
      | false =>
        rw [hcontinues] at hwrap
        refine ⟨[], ⟨index, terminalRowText row true, startIndex⟩, row, terminalRowText row true, [],
          ⟨?_, ?_, fun _ => ⟨rfl, rfl⟩, by simp [hwrap]⟩, le_rfl, by simp⟩
        · rw [segmentsFrom]
          simp [hcontinues]
        · rw [List.cons_append, segmentsFrom]
          simp [hcontinues]

variable (index) in
/-- Every offset of a line has a segment, which is one of its rows. -/
theorem exists_segmentAt {offset : ℕ} (hstart : startIndex ≤ offset)
    (hoffset : offset < startIndex + (lineText (segmentsFrom rows index startIndex)).length) :
    ∃ segment row, segmentAt (segmentsFrom rows index startIndex) offset = some segment ∧
      index ≤ segment.row ∧ rows[segment.row - index]? = some row := by
  induction rows generalizing index startIndex with
  | nil =>
    simp only [segmentsFrom, lineText, List.flatMap_nil, List.length_nil, add_zero] at hoffset
    omega
  | cons row below ih =>
    rw [segmentsFrom] at hoffset ⊢
    simp only [lineText, List.flatMap_cons, List.length_append] at hoffset
    generalize hcontinues : below.head?.any Row.isWrapContinuation = continues at hoffset ⊢
    by_cases hhere : offset < startIndex + (terminalRowText row !continues).length
    · exact ⟨_, row, by rw [segmentAt, List.find?_cons_of_pos]; simpa using ⟨hstart, hhere⟩,
        le_rfl, by simp⟩
    · cases continues with
      | false => simp at hoffset hhere; omega
      | true =>
        simp only [Bool.not_true, if_true] at hoffset hhere ⊢
        obtain ⟨segment, found, hsegment, hindex, hfound⟩ := ih (index + 1)
          (Nat.le_of_not_lt hhere) (by simpa [lineText, add_assoc] using hoffset)
        refine ⟨segment, found, ?_, by omega, ?_⟩
        · rw [segmentAt, List.find?_cons_of_neg]
          · exact hsegment
          · simp; omega
        · have hrow : segment.row - index = segment.row - (index + 1) + 1 := by omega
          rw [hrow, List.getElem?_cons_succ, hfound]

section Beginning
variable {segments full whole more : List Segment} {last : Segment} {row : Row} {fullText : Text}
  {offset : ℕ}

theorem trimSpaces_prefix (text : Text) : trimSpaces text <+: text :=
  List.rdropWhile_prefix _ _

theorem Begins.last_prefix (h : Begins top segments full whole last row fullText more) :
    last.text <+: fullText := by
  cases hwraps : row.wrapsToNext with
  | true =>
    rw [h.trimmed hwraps]
    exact trimSpaces_prefix _
  | false => rw [(h.complete hwraps).1]

theorem Begins.text_prefix (h : Begins top segments full whole last row fullText more) :
    lineText segments <+: lineText full := by
  rw [h.segments_eq, h.full_eq, lineText, lineText, List.flatMap_append, List.flatMap_append,
    List.flatMap_map, List.flatMap_singleton, List.flatMap_cons]
  exact List.prefix_append_right_inj _ |>.mpr (h.last_prefix.trans (List.prefix_append _ _))

/-- What is found among the first segments is found there in the whole line. -/
theorem Begins.find (h : Begins top segments full whole last row fullText more)
    {p q : Segment → Bool} (hwhole : ∀ segment, q (segment.down top) = p segment)
    (hlast : p last = true → q ⟨last.row + top, fullText, last.startIndex⟩ = true)
    {segment : Segment} (hfound : segments.find? p = some segment) :
    ∃ text, full.find? q = some ⟨segment.row + top, text, segment.startIndex⟩ := by
  rw [h.segments_eq, List.find?_append] at hfound
  have hfind : (whole.map (Segment.down · top)).find? q =
      (whole.find? p).map (Segment.down · top) := by
    rw [List.find?_map]
    congr 2
    funext segment
    exact hwhole segment
  rw [h.full_eq, List.find?_append, hfind]
  cases hfirst : whole.find? p with
  | some first =>
    rw [hfirst, Option.some_or] at hfound
    obtain rfl := Option.some.inj hfound
    exact ⟨first.text, rfl⟩
  | none =>
    rw [hfirst, Option.none_or] at hfound
    have hsegment := List.find?_some hfound
    obtain rfl := List.mem_singleton.mp (List.mem_of_find?_eq_some hfound)
    exact ⟨fullText, by rw [Option.map_none, Option.none_or, List.find?_cons_of_pos (hlast hsegment)]⟩

end Beginning

section Viewports
variable {content : Content} {top height rowIndex column : ℕ}

theorem viewport_getElem? (content : Content) (top height index : ℕ) :
    (viewport content top height)[index]? =
      if index < height then content.rows[top + index]? else none := by
  rw [viewport, List.getElem?_take, List.getElem?_drop]

theorem viewport_getElem_of_some {row : Row} {index : ℕ}
    (h : (viewport content top height)[index]? = some row) :
    content.rows[top + index]? = some row := by
  rw [viewport_getElem?] at h
  split at h
  · exact h
  · cases h

theorem lineStart_le (rows : List Row) (index : ℕ) : lineStart rows index ≤ index := by
  induction index with
  | zero => exact le_rfl
  | succ index ih =>
    rw [lineStart]
    split
    · exact ih.trans (Nat.le_succ _)
    · exact le_rfl

theorem lineStart_of_not {rows : List Row} {index : ℕ}
    (h : (rows[index]?).any Row.isWrapContinuation = false) : lineStart rows index = index := by
  cases index with
  | zero => rfl
  | succ index => rw [lineStart, if_neg (by simp [h])]

/-- A line that begins in the viewport begins there in the whole content. -/
theorem lineStart_viewport (hindex : rowIndex < (viewport content top height).length)
    (h : ((viewport content top height)[lineStart (viewport content top height) rowIndex]?).any
      Row.isWrapContinuation = false) :
    lineStart content.rows (top + rowIndex) =
      top + lineStart (viewport content top height) rowIndex := by
  have hheight : rowIndex < height := by
    rw [viewport, List.length_take] at hindex
    omega
  have hsame {index : ℕ} (hle : index ≤ rowIndex) :
      (viewport content top height)[index]? = content.rows[top + index]? := by
    rw [viewport_getElem?, if_pos (by omega)]
  clear hindex
  induction rowIndex with
  | zero =>
    rw [lineStart, hsame le_rfl] at h
    rw [lineStart, lineStart_of_not h]
  | succ index ih =>
    rw [← Nat.add_assoc, lineStart, lineStart, Nat.add_assoc, ← hsame le_rfl]
    rw [lineStart] at h
    split
    · rename_i hcontinues
      rw [if_pos hcontinues] at h
      exact ih h (by omega) (fun hle => hsame (by omega))
    · rfl

theorem viewport_begins (hindex : rowIndex < (viewport content top height).length)
    (h : ((viewport content top height)[lineStart (viewport content top height) rowIndex]?).any
      Row.isWrapContinuation = false) :
    ∃ whole last row fullText more,
      Begins top (collectWrappedTerminalLinkLine (viewport content top height) rowIndex)
        (collectWrappedTerminalLinkLine content.rows (top + rowIndex)) whole last row fullText more ∧
      (viewport content top height)[last.row]? = some row := by
  have hstart := lineStart_le (viewport content top height) rowIndex
  rw [collectWrappedTerminalLinkLine, collectWrappedTerminalLinkLine, lineStart_viewport hindex h]
  generalize lineStart (viewport content top height) rowIndex = first at hstart
  have hheight : first ≤ height := by
    rw [viewport, List.length_take] at hindex
    omega
  have hsplit : content.rows.drop (top + first) =
      (viewport content top height).drop first ++ content.rows.drop (top + height) := by
    rw [viewport, List.drop_take, List.drop_drop]
    conv_lhs => rw [← List.take_append_drop (height - first) (content.rows.drop (top + first))]
    rw [List.drop_drop]
    congr 2
    omega
  have hne : (viewport content top height).drop first ≠ [] := by
    rw [ne_eq, List.drop_eq_nil_iff]
    omega
  have hlast : ∀ row ∈ (content.rows.drop (top + first)).getLast?, row.wrapsToNext = false := by
    intro row hrow
    rw [List.getLast?_drop] at hrow
    split at hrow
    · cases hrow
    · exact content.last row hrow
  have hwraps := content.wraps.drop (top + first)
  rw [hsplit] at hwraps hlast
  obtain ⟨whole, last, row, fullText, more, hbegins, hle, hrow⟩ :=
    segmentsFrom_begins first 0 top hne hwraps hlast
  rw [hsplit, Nat.add_comm top first]
  refine ⟨whole, last, row, fullText, more, hbegins, ?_⟩
  rw [List.getElem?_drop, Nat.add_sub_cancel' hle] at hrow
  exact hrow

/-! ### The links of the line -/

/-- Two URLs of a line that share an offset are one. -/
theorem urlPattern_unique {line : Text} {one other : RawMatch} {offset : ℕ}
    (hone : one ∈ (urlPattern line).found) (hother : other ∈ (urlPattern line).found)
    (hstart : one.start ≤ offset) (hstop : offset < one.start + one.raw.length)
    (hstart' : other.start ≤ offset) (hstop' : offset < other.start + other.raw.length) :
    one = other := by
  by_contra hne
  have hapart : (urlPattern line).found.Pairwise (fun one next =>
      one.start + one.raw.length ≤ next.start ∨ next.start + next.raw.length ≤ one.start) :=
    (urlPattern line).ordered.imp Or.inl
  have hsymm : Std.Symm (fun one next : RawMatch =>
      one.start + one.raw.length ≤ next.start ∨ next.start + next.raw.length ≤ one.start) :=
    ⟨fun _ _ h => h.symm⟩
  obtain h | h := hapart.forall hone hother hne <;> omega

theorem linkAt_eq_some_iff {line : Text} {offset : ℕ} {link : LinkMatch} :
    linkAt line offset = some link ↔ ∃ one ∈ (urlPattern line).found,
      candidate .url one = link ∧ one.start ≤ offset ∧
        offset < one.start + (trimClosingDelimiters one.raw).length := by
  have hlinks {link : LinkMatch} (h : linkAt line offset = some link) :
      ∃ one ∈ (urlPattern line).found, candidate .url one = link ∧ one.start ≤ offset ∧
        offset < one.start + (trimClosingDelimiters one.raw).length := by
    have hmem := List.mem_of_find?_eq_some h
    have hcontains : decide (link.start ≤ offset ∧ offset < link.stop) = true :=
      List.find?_some (p := fun link : LinkMatch =>
        decide (link.start ≤ offset ∧ offset < link.stop)) h
    rw [matchTerminalUrls_eq] at hmem
    obtain ⟨one, hone, -, rfl⟩ := mem_urlMatches.mp hmem
    exact ⟨one, hone, rfl, of_decide_eq_true hcontains⟩
  refine ⟨hlinks, ?_⟩
  rintro ⟨one, hone, rfl, hstart, hstop⟩
  have hstops {one : RawMatch} (h : offset < one.start + (trimClosingDelimiters one.raw).length) :
      offset < one.start + one.raw.length :=
    h.trans_le (Nat.add_le_add_left (length_trim_le _) _)
  cases hfound : linkAt line offset with
  | some link =>
    obtain ⟨other, hother, rfl, hstart', hstop'⟩ := hlinks hfound
    rw [urlPattern_unique hone hother hstart (hstops hstop) hstart' (hstops hstop')]
  | none =>
    rw [linkAt, List.find?_eq_none] at hfound
    have hskip : skipped .url one = false := by
      cases htrim : trimClosingDelimiters one.raw with
      | nil =>
        rw [htrim, List.length_nil] at hstop
        omega
      | cons first text =>
        have hraw : one.raw ≠ [] := by
          intro hnil
          rw [hnil] at htrim
          cases htrim
        simp [skipped, htrim, hraw]
    have hmem : candidate .url one ∈ matchTerminalUrls (urlPattern line) := by
      rw [matchTerminalUrls_eq]
      exact mem_urlMatches.mpr ⟨one, hone, hskip, rfl⟩
    exact absurd (decide_eq_true ⟨hstart, hstop⟩) (hfound _ hmem)

/-- A link of a text stays the link of every longer one, unless its URL goes on there and is trimmed
elsewhere. -/
theorem linkAt_append {line rest : Text} {one : RawMatch} {offset : ℕ}
    (hone : one ∈ (urlPattern line).found) (hstart : one.start ≤ offset)
    (hstop : offset < one.start + (trimClosingDelimiters one.raw).length)
    (h : one.start + one.raw.length = line.length →
      trimClosingDelimiters (one.raw ++ rest.takeWhile inUrl) = trimClosingDelimiters one.raw) :
    linkAt (line ++ rest) offset = some (candidate .url one) := by
  rw [linkAt_eq_some_iff]
  obtain ⟨-, hmem⟩ | ⟨hend, hmem⟩ := mem_scan_append rest hone
  · exact ⟨one, hmem, rfl, hstart, hstop⟩
  · rw [Nat.zero_add] at hend
    refine ⟨_, hmem, ?_, hstart, ?_⟩
    · simp only [candidate, h hend]
    · simpa only [h hend] using hstop

theorem trim_append_of_linkAt {line rest : Text} {one : RawMatch} {offset : ℕ} {link : LinkMatch}
    (hone : one ∈ (urlPattern line).found) (hstart : one.start ≤ offset)
    (hstop : offset < one.start + (trimClosingDelimiters one.raw).length)
    (hend : one.start + one.raw.length = line.length)
    (hlink : linkAt (line ++ rest) offset = some link) :
    link.text = trimClosingDelimiters (one.raw ++ rest.takeWhile inUrl) := by
  obtain ⟨other, hother, rfl, hstart', hstop'⟩ := linkAt_eq_some_iff.mp hlink
  obtain ⟨hbefore, -⟩ | ⟨-, hmem⟩ := mem_scan_append rest hone
  · omega
  · have hlength := length_trim_le one.raw
    have hlength' := length_trim_le other.raw
    have hmem' : ⟨one.start, one.raw ++ rest.takeWhile inUrl⟩ ∈
        (urlPattern (line ++ rest)).found := hmem
    have hsame := urlPattern_unique hmem' hother hstart
      (by simp only [List.length_append]; omega) hstart' (by omega)
    rw [← hsame]
    rfl

section Lookup
variable {whole more : List Segment} {last : Segment} {row : Row} {fullText : Text}

theorem continuesBelow_eq (hbegins : Begins top
      (collectWrappedTerminalLinkLine (viewport content top height) rowIndex)
      (collectWrappedTerminalLinkLine content.rows (top + rowIndex)) whole last row fullText more)
    (hrow : (viewport content top height)[last.row]? = some row) :
    continuesBelow (viewport content top height)
      (collectWrappedTerminalLinkLine (viewport content top height) rowIndex) =
        row.wrapsToNext := by
  rw [continuesBelow, hbegins.segments_eq]
  simp [hrow]

theorem offsetAt_viewport {offset : ℕ} (hbegins : Begins top
      (collectWrappedTerminalLinkLine (viewport content top height) rowIndex)
      (collectWrappedTerminalLinkLine content.rows (top + rowIndex)) whole last row fullText more)
    (h : offsetAt (viewport content top height)
      (collectWrappedTerminalLinkLine (viewport content top height) rowIndex) rowIndex column =
        some offset) :
    offsetAt content.rows (collectWrappedTerminalLinkLine content.rows (top + rowIndex))
      (top + rowIndex) column = some offset := by
  obtain ⟨segment, hsegment, h⟩ := Option.bind_eq_some_iff.mp h
  obtain ⟨found, hfound, rfl⟩ := Option.map_eq_some_iff.mp h
  have hdown (segment : Segment) : decide ((segment.down top).row = top + rowIndex) =
      decide (segment.row = rowIndex) := by
    simp [Segment.down, Nat.add_comm]
  obtain ⟨text, htext⟩ := hbegins.find (q := fun segment => decide (segment.row = top + rowIndex))
    hdown (fun hlast => (hdown last).trans hlast) hsegment
  rw [offsetAt, htext, Option.bind_some, viewport_getElem_of_some hfound]
  rfl

theorem cellAt_viewport {offset : ℕ} (hbegins : Begins top
      (collectWrappedTerminalLinkLine (viewport content top height) rowIndex)
      (collectWrappedTerminalLinkLine content.rows (top + rowIndex)) whole last row fullText more)
    (h : offset < (lineText
      (collectWrappedTerminalLinkLine (viewport content top height) rowIndex)).length) :
    ∃ cell, cellAt (viewport content top height)
        (collectWrappedTerminalLinkLine (viewport content top height) rowIndex) offset = some cell ∧
      cellAt content.rows (collectWrappedTerminalLinkLine content.rows (top + rowIndex)) offset =
        some (cell.1, cell.2 + top) := by
  obtain ⟨segment, found, hsegment, hindex, hfound⟩ :=
    exists_segmentAt _ (Nat.zero_le offset) (by simpa [collectWrappedTerminalLinkLine] using h)
  rw [List.getElem?_drop, Nat.add_sub_cancel' hindex] at hfound
  have hlength := hbegins.last_prefix.length_le
  have hlast (h : decide (last.startIndex ≤ offset ∧
      offset < last.startIndex + last.text.length) = true) :
      decide (last.startIndex ≤ offset ∧ offset < last.startIndex + fullText.length) = true := by
    simp only [decide_eq_true_eq] at h ⊢
    omega
  obtain ⟨text, htext⟩ := hbegins.find
    (q := fun segment => decide (segment.startIndex ≤ offset ∧
      offset < segment.startIndex + segment.text.length)) (fun _ => rfl) hlast hsegment
  refine ⟨(terminalColumnAtOffset found (offset - segment.startIndex), segment.row), ?_, ?_⟩
  · rw [cellAt, collectWrappedTerminalLinkLine, hsegment, Option.bind_some, hfound]
    rfl
  · rw [cellAt, segmentAt, htext, Option.bind_some, Nat.add_comm, viewport_getElem_of_some hfound]
    rfl

theorem rangeOf_viewport {link : LinkMatch} (hbegins : Begins top
      (collectWrappedTerminalLinkLine (viewport content top height) rowIndex)
      (collectWrappedTerminalLinkLine content.rows (top + rowIndex)) whole last row fullText more)
    (hlink : link.start < link.stop) (hstop : link.stop ≤ (lineText
      (collectWrappedTerminalLinkLine (viewport content top height) rowIndex)).length) :
    ∃ found, found.text = link.text ∧ rangeOf (viewport content top height)
        (collectWrappedTerminalLinkLine (viewport content top height) rowIndex) link =
          some found ∧
      rangeOf content.rows (collectWrappedTerminalLinkLine content.rows (top + rowIndex)) link =
        some (found.down top) := by
  obtain ⟨start, hstart, hstart'⟩ := cellAt_viewport hbegins (hlink.trans_le hstop)
  obtain ⟨stop, hcell, hcell'⟩ := cellAt_viewport hbegins
    (show link.stop - 1 < _ by omega)
  exact ⟨⟨link.text, start, stop⟩, rfl, by rw [rangeOf, hstart, hcell]; rfl,
    by rw [rangeOf, hstart', hcell']; rfl⟩

/-- A line that is whole in the viewport has nothing below it. -/
theorem text_of_complete (hbegins : Begins top
      (collectWrappedTerminalLinkLine (viewport content top height) rowIndex)
      (collectWrappedTerminalLinkLine content.rows (top + rowIndex)) whole last row fullText more)
    (hcomplete : row.wrapsToNext = false) : below content top height rowIndex = [] := by
  obtain ⟨rfl, rfl⟩ := hbegins.complete hcomplete
  rw [below, hbegins.segments_eq, hbegins.full_eq, List.drop_eq_nil_iff, lineText, lineText,
    List.flatMap_append, List.flatMap_append, List.flatMap_map]
  simp [Segment.down]

end Lookup

theorem rangeOf_text {rows : List Row} {segments : List Segment} {link : LinkMatch} {found : Link}
    (h : rangeOf rows segments link = some found) : found.text = link.text := by
  obtain ⟨start, -, h⟩ := Option.bind_eq_some_iff.mp h
  obtain ⟨stop, -, rfl⟩ := Option.map_eq_some_iff.mp h
  rfl

theorem offsetAt_row {rows : List Row} {segments : List Segment} {offset : ℕ}
    (h : offsetAt rows segments rowIndex column = some offset) : rowIndex < rows.length := by
  obtain ⟨_, -, h⟩ := Option.bind_eq_some_iff.mp h
  obtain ⟨row, hrow, -⟩ := Option.map_eq_some_iff.mp h
  exact (List.getElem?_eq_some_iff.mp hrow).1

theorem lookup_of_offset {rows : List Row} {offset : ℕ}
    (hhead : (rows[lineStart rows rowIndex]?).any Row.isWrapContinuation = false)
    (h : offsetAt rows (collectWrappedTerminalLinkLine rows rowIndex) rowIndex column =
      some offset) :
    terminalLinkAtPositionWithRange rows rowIndex column =
      (linkAt (lineText (collectWrappedTerminalLinkLine rows rowIndex)) offset).bind fun link =>
        if link.stop = (lineText (collectWrappedTerminalLinkLine rows rowIndex)).length ∧
          continuesBelow rows (collectWrappedTerminalLinkLine rows rowIndex) then none
        else rangeOf rows (collectWrappedTerminalLinkLine rows rowIndex) link := by
  rw [terminalLinkAtPositionWithRange, if_neg (Nat.not_le_of_lt (offsetAt_row h)),
    if_neg (by simp [hhead]), h]
  rfl

/-- The lookup gives no link unless its line begins in the viewport. -/
theorem lookup_eq_none {rows : List Row}
    (h : offsetAt rows (collectWrappedTerminalLinkLine rows rowIndex) rowIndex column = none ∨
      (rows[lineStart rows rowIndex]?).any Row.isWrapContinuation = true) :
    terminalLinkAtPositionWithRange rows rowIndex column = none := by
  rw [terminalLinkAtPositionWithRange]
  split
  · rfl
  · split
    · rfl
    · rename_i hhead
      rw [h.resolve_right hhead]
      rfl

theorem agrees_of_none
    (h : terminalLinkAtPositionWithRange (viewport content top height) rowIndex column = none) :
    Agrees content top height rowIndex column := by
  intro link hlink
  rw [h] at hlink
  cases hlink

/-- A link that the viewport gives is the link of the whole line, unless its URL was cut short. -/
theorem agrees_iff_not_cutShort :
    Agrees content top height rowIndex column ↔ ¬CutShort content top height rowIndex column := by
  cases hhead : ((viewport content top height)[lineStart (viewport content top height) rowIndex]?).any
    Row.isWrapContinuation with
  | true =>
    refine iff_of_true (agrees_of_none (lookup_eq_none (.inr hhead))) ?_
    rintro ⟨hnot, -⟩
    rw [hhead] at hnot
    cases hnot
  | false =>
  cases hoffset : offsetAt (viewport content top height)
    (collectWrappedTerminalLinkLine (viewport content top height) rowIndex) rowIndex column with
  | none =>
    refine iff_of_true (agrees_of_none (lookup_eq_none (.inl hoffset))) ?_
    rintro ⟨-, -, _, -, _, hnot, -⟩
    rw [hoffset] at hnot
    cases hnot
  | some offset =>
  have hindex := offsetAt_row hoffset
  obtain ⟨whole, last, row, fullText, more, hbegins, hrow⟩ := viewport_begins hindex hhead
  have hlookup := lookup_of_offset hhead hoffset
  have hfull := offsetAt_viewport hbegins hoffset
  have hline : lineLink content.rows (top + rowIndex) column =
      (linkAt (lineText (collectWrappedTerminalLinkLine content.rows (top + rowIndex))) offset).bind
        (rangeOf content.rows (collectWrappedTerminalLinkLine content.rows (top + rowIndex))) := by
    rw [lineLink, hfull]
    rfl
  have htext : lineText (collectWrappedTerminalLinkLine content.rows (top + rowIndex)) =
      lineText (collectWrappedTerminalLinkLine (viewport content top height) rowIndex) ++
        below content top height rowIndex :=
    (List.prefix_iff_eq_append.mp hbegins.text_prefix).symm
  rw [htext] at hline
  cases hlink : linkAt (lineText
      (collectWrappedTerminalLinkLine (viewport content top height) rowIndex)) offset with
  | none =>
    refine iff_of_true (agrees_of_none (by rw [hlookup, hlink]; rfl)) ?_
    rintro ⟨-, -, one, hone, other, hother, hstart, hstop, -⟩
    obtain rfl := Option.some.inj (hoffset.symm.trans hother)
    rw [linkAt_eq_some_iff.mpr ⟨one, hone, rfl, hstart, hstop⟩] at hlink
    cases hlink
  | some link =>
  obtain ⟨one, hone, rfl, hstart, hstop⟩ := linkAt_eq_some_iff.mp hlink
  -- The URL of the cell is the one that may be cut short.
  have honly {other : RawMatch} (hother : other ∈ (urlPattern (lineText
      (collectWrappedTerminalLinkLine (viewport content top height) rowIndex))).found)
      (hstart' : other.start ≤ offset)
      (hstop' : offset < other.start + (trimClosingDelimiters other.raw).length) : one = other :=
    urlPattern_unique hone hother hstart
      (hstop.trans_le (Nat.add_le_add_left (length_trim_le _) _)) hstart'
      (hstop'.trans_le (Nat.add_le_add_left (length_trim_le _) _))
  rw [hlink, Option.bind_some] at hlookup
  by_cases hcut : (candidate .url one).stop = (lineText
      (collectWrappedTerminalLinkLine (viewport content top height) rowIndex)).length ∧
    continuesBelow (viewport content top height)
      (collectWrappedTerminalLinkLine (viewport content top height) rowIndex) = true
  · rw [if_pos hcut] at hlookup
    refine iff_of_true (agrees_of_none hlookup) ?_
    rintro ⟨-, -, other, hmem, position, hposition, hstart', hstop', hend, htrim, -⟩
    obtain rfl := Option.some.inj (hoffset.symm.trans hposition)
    obtain rfl := honly hmem hstart' hstop'
    have hstop := hcut.1
    simp only [candidate] at hstop
    exact htrim ((trim_isPrefix one.raw).eq_of_length (by omega))
  rw [if_neg hcut] at hlookup
  have hwithin : (candidate .url one).stop ≤ (lineText
      (collectWrappedTerminalLinkLine (viewport content top height) rowIndex)).length := by
    have hlength := length_trim_le one.raw
    simp only [candidate]
    obtain ⟨hend, -⟩ | ⟨hend, -⟩ := mem_scan_append [] hone <;> omega
  obtain ⟨found, hfound, hrange, hdown⟩ := rangeOf_viewport hbegins
    (show (candidate .url one).start < (candidate .url one).stop by
      simp only [candidate]
      omega) hwithin
  rw [hrange] at hlookup
  by_cases hsame : one.start + one.raw.length = (lineText
      (collectWrappedTerminalLinkLine (viewport content top height) rowIndex)).length →
    trimClosingDelimiters (one.raw ++ (below content top height rowIndex).takeWhile inUrl) =
      trimClosingDelimiters one.raw
  · rw [linkAt_append hone hstart hstop hsame, Option.bind_some, hdown] at hline
    refine iff_of_true ?_ ?_
    · intro other hother
      obtain rfl := Option.some.inj (hlookup.symm.trans hother)
      exact hline
    · rintro ⟨-, -, other, hmem, position, hposition, hstart', hstop', hend, -, hdiffers⟩
      obtain rfl := Option.some.inj (hoffset.symm.trans hposition)
      obtain rfl := honly hmem hstart' hstop'
      exact hdiffers (hsame hend)
  · obtain ⟨hend, hdiffers⟩ := Classical.not_imp.mp hsame
    have hcontinues : continuesBelow (viewport content top height)
        (collectWrappedTerminalLinkLine (viewport content top height) rowIndex) = true := by
      rw [continuesBelow_eq hbegins hrow]
      by_contra hcomplete
      rw [text_of_complete hbegins (Bool.eq_false_iff.mpr hcomplete)] at hdiffers
      simp at hdiffers
    have htrimmed : trimClosingDelimiters one.raw ≠ one.raw := by
      intro hwhole
      refine hcut ⟨?_, hcontinues⟩
      simp only [candidate, hwhole, hend]
    refine iff_of_false ?_ (not_not.mpr ⟨hhead, hcontinues, one, hone, offset, hoffset, hstart,
      hstop, hend, htrimmed, hdiffers⟩)
    intro hagrees
    rw [hagrees found hlookup] at hline
    obtain ⟨link, hlink, hrange'⟩ := Option.bind_eq_some_iff.mp hline.symm
    have htext' := rangeOf_text hrange'
    rw [trim_append_of_linkAt hone hstart hstop hend hlink] at htext'
    exact hdiffers (htext'.symm.trans hfound)

end Viewports

section Example

def cells (text : String) : List Text := text.toList.map fun c => [unit c]

/-- A URL in two rows, the first of which ends in a full stop. -/
def sampleContent : Content where
  rows := [⟨cells "http://a/x.", false, true⟩, ⟨cells "html", true, false⟩]
  wraps := by decide
  first := by decide
  last := by decide

/-- Where only the first row is visible, its link is the URL without what follows the full stop. -/
theorem tail_cut_off : ¬Agrees sampleContent 0 1 0 8 := by
  have hlookup : terminalLinkAtPositionWithRange (viewport sampleContent 0 1) 0 8 =
      some ⟨"http://a/x".toList.map unit, (0, 0), (9, 0)⟩ := by decide +kernel
  have hline : lineLink sampleContent.rows (0 + 0) 8 =
      some ⟨"http://a/x.html".toList.map unit, (0, 0), (3, 1)⟩ := by decide +kernel
  intro h
  have hsame := h _ hlookup
  rw [hline] at hsame
  exact absurd hsame (by decide)

end Example

end PiDeck.Links
