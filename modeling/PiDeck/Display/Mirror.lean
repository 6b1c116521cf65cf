import Mathlib
import PiDeck.Display.Scene

/-! The copy that follows the plans of a retained scene. A change of rows that leads to ranges writes
to the copy what it writes to the scene, and that is the first change of each row, while the row
itself is what the last change says. -/
namespace PiDeck.Display
open PiDeck.Collections

variable {α : Type*} {floats : ℕ}

theorem Batch.eq_of_data (hpos : 0 < floats) {batch other : Batch α floats}
    (h : batch.data = other.data) : batch = other := by
  obtain ⟨count, data, hdata⟩ := batch
  obtain ⟨count', data', hdata'⟩ := other
  obtain rfl : data = data' := h
  obtain rfl : count = count' := Nat.eq_of_mul_eq_mul_right hpos (hdata.symm.trans hdata')
  rfl

theorem Batch.data_eq_nil {batch : Batch α floats} (h : batch.count * floats = 0) :
    batch.data = [] :=
  List.length_eq_zero_iff.mp (batch.length_data.trans h)

/-- What a plan does to the copy. -/
def ScenePrimitivePlan.apply (mirror : List α) : ScenePrimitivePlan α → List α
  | .none => mirror
  | .ranges parts => parts.foldl (fun mirror part => write mirror part.1 part.2) mirror
  | .full data => data

namespace PrimitiveScene
variable {select : RetainedRowBatches α → Batch α floats} {scene : PrimitiveScene α}
  {rows rows' : List (RetainedRowBatches α)} {changes sorted : List (RetainedRowChange α)}
  {change : RetainedRowChange α} {values mirror : List α} {start row : ℕ}

section Rows
variable (select)

/-- The data of the rows. -/
def dataOf (rows : List (RetainedRowBatches α)) : List (List α) :=
  rows.map fun row => (select row).data

def countOf (rows : List (RetainedRowBatches α)) : ℕ := (rows.map fun row => (select row).count).sum

/-- The scene is that of the rows. -/
structure Retains (scene : PrimitiveScene α) (rows : List (RetainedRowBatches α)) : Prop where
  ranges : scene.ranges = rangesFrom select 0 rows
  count : scene.count = countOf select rows
  values : Holds scene.values (dataOf select rows)

end Rows

theorem length_dataOf (rows : List (RetainedRowBatches α)) :
    (dataOf select rows).flatten.length = countOf select rows * floats := by
  induction rows with
  | nil => simp [dataOf, countOf]
  | cons row rows ih =>
    rw [dataOf, List.map_cons, List.flatten_cons, List.length_append, (select row).length_data,
      ← dataOf, ih, countOf, countOf, List.map_cons, List.sum_cons, Nat.add_mul]

theorem getElem?_rangesFrom (start row : ℕ) : (rangesFrom select start rows)[row]? =
    rows[row]?.map fun batches =>
      ⟨start + countOf select (rows.take row), (select batches).count⟩ := by
  induction rows generalizing start row with
  | nil => rfl
  | cons batches rows ih =>
    cases row with
    | zero => rfl
    | succ row =>
      rw [rangesFrom, List.getElem?_cons_succ, List.getElem?_cons_succ, ih, List.take_succ_cons,
        countOf, countOf, List.map_cons, List.sum_cons]
      simp only [Nat.add_assoc]

theorem rangesFrom_congr (h : rows.map (fun row => (select row).count) =
    rows'.map fun row => (select row).count) :
    rangesFrom select start rows = rangesFrom select start rows' := by
  induction rows generalizing rows' start with
  | nil =>
    cases rows' with
    | nil => rfl
    | cons row' rows' => cases h
  | cons row rows ih =>
    cases rows' with
    | nil => cases h
    | cons row' rows' =>
      rw [List.map_cons, List.map_cons, List.cons.injEq] at h
      rw [rangesFrom, rangesFrom, h.1, ih h.2]

/-- The rows that have been written follow what is before them. -/
theorem take_fill (h : (start + countOf select rows) * floats ≤ values.length) :
    (fill select (rangesFrom select start rows) rows values).take
        ((start + countOf select rows) * floats) =
      values.take (start * floats) ++ (dataOf select rows).flatten := by
  induction rows generalizing start values with
  | nil => simp [fill, rangesFrom, dataOf, countOf]
  | cons row rows ih =>
    have hwrite : (if (select row).count = 0 then values
        else write values (start * floats) (select row).data) =
        write values (start * floats) (select row).data := by
      split
      · rename_i hnone
        rw [Batch.data_eq_nil (by rw [hnone, Nat.zero_mul]), write_nil]
      · rfl
    have hcount : start + countOf select (row :: rows) =
        start + (select row).count + countOf select rows := by
      rw [countOf, List.map_cons, List.sum_cons, ← countOf, Nat.add_assoc]
    have hfits : start * floats + (select row).data.length ≤ values.length := by
      rw [(select row).length_data, ← Nat.add_mul]
      exact (Nat.mul_le_mul_right floats (by omega)).trans (hcount ▸ h)
    have hplace : (start + (select row).count) * floats =
        start * floats + (select row).data.length := by
      rw [(select row).length_data, Nat.add_mul]
    have hdata : (dataOf select (row :: rows)).flatten =
        (select row).data ++ (dataOf select rows).flatten := rfl
    rw [rangesFrom, fill, hwrite, hcount, ih, hplace, take_write (by omega), hdata,
      List.append_assoc]
    rw [length_write hfits]
    exact hcount ▸ h

section Rebuilding
variable [Zero α]

/-- All rows anew: the scene is that of the rows, and so is the plan. -/
theorem replaceAll_spec (scene : PrimitiveScene α) (rows : List (RetainedRowBatches α)) :
    Retains select (scene.replaceAll select rows).1 rows ∧
      (scene.replaceAll select rows).2 = .full (dataOf select rows).flatten := by
  rw [replaceAll]
  generalize hvalues : (if scene.values.length < _ then _ else _ : List α) = values
  have hfits : countOf select rows * floats ≤ values.length := by
    rw [← hvalues]
    split
    · rw [List.length_replicate]
      refine le_grown (lt_max_iff.mpr (.inl ?_))
      by_contra hzero
      simp_all
    · rename_i henough
      exact Nat.le_of_not_lt henough
  have hfill : (fill select (rangesFrom select 0 rows) rows values).take
      (countOf select rows * floats) = (dataOf select rows).flatten := by
    have htake : (0 + countOf select rows) * floats ≤ values.length →
        (fill select (rangesFrom select 0 rows) rows values).take
            ((0 + countOf select rows) * floats) =
          values.take (0 * floats) ++ (dataOf select rows).flatten := take_fill
    simpa using htake (by simpa using hfits)
  refine ⟨⟨rfl, rfl, ?_⟩, congrArg _ hfill⟩
  rw [Holds, ← hfill]
  exact List.take_prefix _ _

theorem trimCapacity_retains (h : Retains select scene rows) :
    Retains select (scene.trimCapacity floats) rows := by
  rw [trimCapacity]
  split
  · exact h
  · refine ⟨h.ranges, h.count, ?_⟩
    have hdata : scene.values.take (scene.count * floats) = (dataOf select rows).flatten := by
      rw [h.count, ← length_dataOf]
      exact (List.prefix_iff_eq_take.mp h.values).symm
    have htake : ∀ buffer data : List α, (write buffer 0 data).take data.length = data := by
      intro buffer data
      have hfirst : (write buffer 0 data).take (0 + data.length) = buffer.take 0 ++ data :=
        take_write (Nat.zero_le _)
      rwa [Nat.zero_add] at hfirst
    rw [hdata, Holds, List.prefix_iff_eq_take]
    exact (htake _ _).symm

end Rebuilding

section Ranges

/-- The changes that the loop does not skip. -/
def kept : Option ℕ → List (RetainedRowChange α) → List (RetainedRowChange α)
  | _, [] => []
  | previousRow, change :: sorted =>
    if previousRow = some change.row then kept previousRow sorted
    else change :: kept (some change.row) sorted

/-- Of the changes of a row the first one is kept. -/
theorem tied_kept {previousRow : Option ℕ} (hsorted : SortedBy RetainedRowChange.row sorted)
    (hprevious : ∀ previous ∈ previousRow, ∀ change ∈ sorted, previous ≤ change.row) (row : ℕ) :
    tied RetainedRowChange.row row (kept previousRow sorted) =
      if previousRow = some row then []
      else (tied RetainedRowChange.row row sorted).head?.toList := by
  induction sorted generalizing previousRow with
  | nil => simp [kept]
  | cons change sorted ih =>
    obtain ⟨hle, hrest⟩ := List.pairwise_cons.mp hsorted
    rw [kept]
    split
    · rename_i hsame
      rw [ih hrest fun previous hmem other hother =>
        hprevious previous hmem other (List.mem_cons_of_mem _ hother)]
      split
      · rfl
      · rename_i hother
        rw [tied_cons, if_neg]
        rintro rfl
        exact hother hsame
    · rename_i hnew
      have hafter : ∀ previous ∈ some change.row, ∀ other ∈ sorted, previous ≤ other.row := by
        simpa using hle
      rw [tied_cons, ih hrest hafter]
      by_cases hrow : change.row = row
      · rw [if_pos hrow, if_pos (congrArg some hrow), if_neg (hrow ▸ hnew), tied_cons, if_pos hrow]
        rfl
      · rw [if_neg hrow, if_neg (by simpa using hrow), tied_cons, if_neg hrow]
        split
        · rename_i hlast
          have hless : change.row > row :=
            lt_of_le_of_ne (hprevious row (by simp [hlast]) change List.mem_cons_self) (Ne.symm hrow)
          have hnone : tied RetainedRowChange.row row sorted = [] := by
            rw [tied, List.filter_eq_nil_iff]
            intro other hother
            have := hle other hother
            simp only [decide_eq_true_eq]
            omega
          rw [hnone]
          rfl
        · rfl

theorem tied_kept_sortBy (row : ℕ) :
    tied RetainedRowChange.row row (kept none (sortBy RetainedRowChange.row changes)) =
      (tied RetainedRowChange.row row changes).head?.toList := by
  rw [tied_kept sortedBy_sortBy (by simp), if_neg (by simp), tied_sortBy]

/-- The change is one of a row that is there, and leaves it as many instances as it has. -/
def Fits (select : RetainedRowBatches α → Batch α floats) (rows : List (RetainedRowBatches α))
    (change : RetainedRowChange α) : Prop :=
  ∃ row, rows[change.row]? = some row ∧ (select change.batches).count = (select row).count

/-- The data of the changes is written over that of their rows. -/
def writeAll (select : RetainedRowBatches α → Batch α floats) (segments : List (List α))
    (buffer : List α) (changes : List (RetainedRowChange α)) : List α :=
  changes.foldl (fun buffer change =>
    write buffer (offsetOf segments change.row) (select change.batches).data) buffer

def rangeOf (ranges : List RowRange) (change : RetainedRowChange α) : RowRange :=
  ranges.getD change.row ⟨0, 0⟩

/-- The range of a change is where the data of its row is. -/
theorem Fits.range (h : Fits select rows change) :
    (rangeOf (rangesFrom select 0 rows) change).offset * floats =
        offsetOf (dataOf select rows) change.row ∧
      (rangeOf (rangesFrom select 0 rows) change).count * floats =
        (select change.batches).data.length := by
  obtain ⟨row, hrow, hcount⟩ := h
  have hrange : (rangesFrom select 0 rows)[change.row]? =
      some ⟨0 + countOf select (rows.take change.row), (select row).count⟩ := by
    rw [getElem?_rangesFrom, hrow]
    rfl
  rw [rangeOf, List.getD_eq_getElem?_getD, hrange, Option.getD_some]
  constructor
  · rw [Nat.zero_add, ← length_dataOf, offsetOf, dataOf, dataOf, List.map_take]
  · rw [(select change.batches).length_data, hcount]

theorem Fits.segment (h : Fits select rows change) : ∃ old,
    (dataOf select rows)[change.row]? = some old ∧
      (select change.batches).data.length = old.length := by
  obtain ⟨row, hrow, hcount⟩ := h
  refine ⟨(select row).data, ?_, ?_⟩
  · rw [dataOf, List.getElem?_map, hrow]
    rfl
  · rw [(select change.batches).length_data, (select row).length_data, hcount]

theorem kept_subset {previousRow : Option ℕ} : kept previousRow sorted ⊆ sorted := by
  induction sorted generalizing previousRow with
  | nil => exact List.Subset.refl _
  | cons change sorted ih =>
    rw [kept]
    split
    · exact List.subset_cons_of_subset _ ih
    · exact List.cons_subset_cons _ ih

/-- The loop writes the changes that it keeps, and touches the ranges of those that have data. -/
theorem writeRows_eq {previousRow : Option ℕ} (h : ∀ change ∈ sorted, Fits select rows change) :
    writeRows select (rangesFrom select 0 rows) previousRow sorted values =
      (writeAll select (dataOf select rows) values (kept previousRow sorted),
        ((kept previousRow sorted).filter fun change =>
          (select change.batches).data ≠ []).map (rangeOf (rangesFrom select 0 rows))) := by
  induction sorted generalizing previousRow values with
  | nil => rfl
  | cons change sorted ih =>
    have hrest := fun other hmem => h other (List.mem_cons_of_mem change hmem)
    obtain ⟨hoffset, hlength⟩ := (h change List.mem_cons_self).range
    rw [rangeOf] at hoffset hlength
    rw [writeRows, kept]
    split
    · exact ih hrest
    · dsimp only
      rw [ih hrest, ih hrest, hoffset, hlength]
      split
      · rename_i hnone
        rw [List.length_eq_zero_iff] at hnone
        rw [List.filter_cons_of_neg (by simp [hnone]), writeAll, writeAll, List.foldl_cons, hnone,
          write_nil]
      · rename_i hsome
        rw [List.length_eq_zero_iff] at hsome
        rw [List.filter_cons_of_pos (by simp [hsome]), List.map_cons]
        rfl

/-- The ranges with what the scene holds there. -/
def partsOf (floats : ℕ) (values : List α) (ranges : List RowRange) : List (ℕ × List α) :=
  ranges.map fun range =>
    (range.offset * floats, Collections.slice values (range.offset * floats) (range.count * floats))

theorem apply_cons (part : ℕ × List α) (parts : List (ℕ × List α)) :
    (ScenePrimitivePlan.ranges (part :: parts)).apply mirror =
      (ScenePrimitivePlan.ranges parts).apply (write mirror part.1 part.2) := rfl

/-- Ranges that are joined are copied as they are. -/
theorem apply_mergeRanges {ranges : List RowRange} (hvalues : ∀ range ∈ ranges,
      range.offset * floats + range.count * floats ≤ values.length)
    (hmirror : ∀ range ∈ ranges, range.offset * floats + range.count * floats ≤ mirror.length) :
    (ScenePrimitivePlan.ranges (partsOf floats values (mergeRanges ranges))).apply mirror =
      (ScenePrimitivePlan.ranges (partsOf floats values ranges)).apply mirror := by
  induction ranges using mergeRanges.induct generalizing mirror with
  | case1 => rw [mergeRanges]
  | case2 range => rw [mergeRanges]
  | case3 previous range touched hmeet ih =>
    have hend : (previous.offset + previous.count) * floats = range.offset * floats := by rw [hmeet]
    rw [Nat.add_mul] at hend
    have hjoined : ∀ bound, (∀ r ∈ previous :: range :: touched,
          r.offset * floats + r.count * floats ≤ bound) →
        ∀ r ∈ (⟨previous.offset, previous.count + range.count⟩ : RowRange) :: touched,
          r.offset * floats + r.count * floats ≤ bound := by
      intro bound hbound r hr
      rcases List.mem_cons.mp hr with rfl | hr
      · have hrange := hbound range (by simp)
        change previous.offset * floats + (previous.count + range.count) * floats ≤ bound
        rw [Nat.add_mul]
        omega
      · exact hbound r (by simp [hr])
    have hfits := hvalues previous List.mem_cons_self
    have hplace := hmirror previous List.mem_cons_self
    have hslice := length_slice hfits
    rw [mergeRanges, if_pos hmeet, ih (hjoined _ hvalues) (hjoined _ hmirror), partsOf, partsOf,
      List.map_cons, List.map_cons, List.map_cons, apply_cons, apply_cons, apply_cons]
    dsimp only
    rw [Nat.add_mul, slice_add, ← write_write (by omega), hslice, hend]
  | case4 previous range touched hapart ih =>
    rw [mergeRanges, if_neg hapart, partsOf, partsOf, List.map_cons, List.map_cons, apply_cons,
      apply_cons, ← partsOf, ← partsOf]
    have hfits := hvalues previous List.mem_cons_self
    have hplace := hmirror previous List.mem_cons_self
    refine ih (fun r hr => hvalues r (List.mem_cons_of_mem _ hr)) fun r hr => ?_
    rw [length_write (by rw [length_slice hfits]; exact hplace)]
    exact hmirror r (List.mem_cons_of_mem _ hr)

variable {segments : List (List α)} {buffer : List α}

/-- A buffer that holds the rows holds them with the changes after these are written. -/
theorem holds_writeAll (h : Holds buffer segments)
    (hlengths : segments.map List.length = (dataOf select rows).map List.length)
    (hfits : ∀ change ∈ changes, Fits select rows change) :
    Holds (writeAll select (dataOf select rows) buffer changes)
        (setAll RetainedRowChange.row (fun change => (select change.batches).data) segments changes) ∧
      (writeAll select (dataOf select rows) buffer changes).length = buffer.length ∧
      (setAll RetainedRowChange.row (fun change => (select change.batches).data) segments
        changes).map List.length = (dataOf select rows).map List.length := by
  induction changes generalizing segments buffer with
  | nil => exact ⟨h, rfl, hlengths⟩
  | cons change changes ih =>
    have hplace := offsetOf_congr hlengths change.row
    obtain ⟨old, hold, hlength⟩ : ∃ old, segments[change.row]? = some old ∧
        (select change.batches).data.length = old.length := by
      obtain ⟨before, hbefore, hlength⟩ := (hfits change List.mem_cons_self).segment
      have hsame := congrArg (·[change.row]?) hlengths
      rw [List.getElem?_map, List.getElem?_map, hbefore] at hsame
      obtain ⟨old, hold, hcount⟩ := Option.map_eq_some_iff.mp hsame
      exact ⟨old, hold, hlength.trans hcount.symm⟩
    have hwrite := h.write hold hlength
    have hbound := h.bound hold
    rw [hplace] at hwrite hbound
    have hkept : (segments.set change.row (select change.batches).data).map List.length =
        (dataOf select rows).map List.length := by
      have hcount : (segments.map List.length)[change.row]? = some old.length := by
        rw [List.getElem?_map, hold]
        rfl
      obtain ⟨hrow, hsame⟩ := List.getElem?_eq_some_iff.mp hcount
      rw [← hlengths, List.map_set, hlength, ← hsame, List.set_getElem_self]
    obtain ⟨hholds, hsize, hafter⟩ := ih hwrite hkept fun other hmem =>
      hfits other (List.mem_cons_of_mem _ hmem)
    exact ⟨hholds, hsize.trans (length_write (by rw [hlength]; exact hbound)), hafter⟩

/-- The data that the scene and its copy have after the changes: for each row that of the first. -/
def firstData (select : RetainedRowBatches α → Batch α floats)
    (rows : List (RetainedRowBatches α)) (changes : List (RetainedRowChange α)) : List (List α) :=
  setAll RetainedRowChange.row (fun change => (select change.batches).data) (dataOf select rows)
    (kept none (sortBy RetainedRowChange.row changes))

theorem getElem?_firstData (row : ℕ) : (firstData select rows changes)[row]? =
    rows[row]?.map fun batches => (select (((tied RetainedRowChange.row row changes).head?.map
      RetainedRowChange.batches).getD batches)).data := by
  rw [firstData, getElem?_setAll, tied_kept_sortBy, dataOf, List.getElem?_map, Option.map_map]
  cases (tied RetainedRowChange.row row changes).head? <;> rfl

/-- The data of the changes that are kept is where they have been written. -/
theorem slice_kept (hmem : change ∈ kept none (sortBy RetainedRowChange.row changes))
    (hfits : Fits select rows change) (hholds : Holds values (firstData select rows changes))
    (hlengths : (firstData select rows changes).map List.length =
      (dataOf select rows).map List.length) :
    Collections.slice values (offsetOf (dataOf select rows) change.row)
      (select change.batches).data.length = (select change.batches).data := by
  obtain ⟨row, hrow, -⟩ := hfits
  have hfirst : (tied RetainedRowChange.row change.row changes).head? = some change := by
    have htied : change ∈ tied RetainedRowChange.row change.row
        (kept none (sortBy RetainedRowChange.row changes)) := mem_tied.mpr ⟨hmem, rfl⟩
    rw [tied_kept_sortBy, Option.mem_toList] at htied
    exact htied
  have hget : (firstData select rows changes)[change.row]? = some (select change.batches).data := by
    rw [getElem?_firstData, hrow, hfirst]
    rfl
  rw [← offsetOf_congr hlengths]
  exact hholds.slice hget

theorem Fits.bound (h : Fits select rows change) (hholds : Holds buffer (dataOf select rows)) :
    (rangeOf (rangesFrom select 0 rows) change).offset * floats +
      (rangeOf (rangesFrom select 0 rows) change).count * floats ≤ buffer.length := by
  obtain ⟨hoffset, hlength⟩ := h.range
  obtain ⟨old, hold, hsame⟩ := h.segment
  rw [hoffset, hlength, hsame]
  exact hholds.bound hold

theorem writeAll_filter (select : RetainedRowBatches α → Batch α floats)
    (changes : List (RetainedRowChange α)) :
    writeAll select segments buffer (changes.filter fun change =>
      (select change.batches).data ≠ []) = writeAll select segments buffer changes := by
  induction changes generalizing buffer with
  | nil => rfl
  | cons change changes ih =>
    by_cases hnone : (select change.batches).data = []
    · rw [List.filter_cons_of_neg (by simp [hnone]), ih, writeAll, writeAll, List.foldl_cons, hnone,
        write_nil]
    · rw [List.filter_cons_of_pos (by simp [hnone])]
      exact ih

/-- Ranges that hold the data of the changes are copied as the changes are written. -/
theorem apply_partsOf (hfits : ∀ change ∈ changes, Fits select rows change)
    (hslice : ∀ change ∈ changes, Collections.slice values
      (offsetOf (dataOf select rows) change.row) (select change.batches).data.length =
        (select change.batches).data) :
    (ScenePrimitivePlan.ranges (partsOf floats values
        (changes.map (rangeOf (rangesFrom select 0 rows))))).apply mirror =
      writeAll select (dataOf select rows) mirror changes := by
  induction changes generalizing mirror with
  | nil => rfl
  | cons change changes ih =>
    obtain ⟨hoffset, hlength⟩ := (hfits change List.mem_cons_self).range
    rw [List.map_cons, partsOf, List.map_cons, apply_cons, ← partsOf,
      ih (fun other hmem => hfits other (List.mem_cons_of_mem _ hmem))
        fun other hmem => hslice other (List.mem_cons_of_mem _ hmem)]
    dsimp only
    rw [hoffset, hlength, hslice change List.mem_cons_self]
    rfl

theorem Fits.not_resizes (h : Fits select rows change) (hscene : Retains select scene rows) :
    ¬scene.Resizes select change := by
  obtain ⟨row, hrow, hcount⟩ := h
  intro hresizes
  refine hresizes ⟨0 + countOf select (rows.take change.row), (select row).count⟩ ?_ hcount.symm
  rw [hscene.ranges, getElem?_rangesFrom, hrow]
  rfl

/-- What an update does that leaves every row its number of instances: scene and copy have the first
change of each row. -/
theorem updateRows_stable [Zero α] (hfits : ∀ change ∈ changes, Fits select rows change)
    (h : Retains select scene rows) (hmirror : mirror = (dataOf select rows).flatten) :
    (scene.updateRows select changes rows').2.apply mirror =
        (firstData select rows changes).flatten ∧
      Holds (scene.updateRows select changes rows').1.values (firstData select rows changes) ∧
      (scene.updateRows select changes rows').1.ranges = scene.ranges ∧
      (scene.updateRows select changes rows').1.count = scene.count := by
  by_cases hnone : changes = []
  · subst hnone
    rw [updateRows, if_pos rfl]
    exact ⟨hmirror, h.values, rfl, rfl⟩
  have hstable : ¬∃ change ∈ changes, scene.Resizes select change := by
    rintro ⟨change, hmem, hresizes⟩
    exact (hfits change hmem).not_resizes h hresizes
  have hsorted : ∀ change ∈ sortBy RetainedRowChange.row changes, Fits select rows change :=
    fun change hmem => hfits change (mem_sortBy.mp hmem)
  have hkept : ∀ change ∈ kept none (sortBy RetainedRowChange.row changes), Fits select rows change :=
    fun change hmem => hsorted change (kept_subset hmem)
  have hcopy : Holds mirror (dataOf select rows) := hmirror ▸ List.prefix_refl _
  obtain ⟨hvalues, hsize, hlengths⟩ := holds_writeAll h.values rfl hkept
  obtain ⟨hwritten, hcopied, -⟩ := holds_writeAll hcopy rfl hkept
  have hfirst : writeAll select (dataOf select rows) mirror
      (kept none (sortBy RetainedRowChange.row changes)) =
        (firstData select rows changes).flatten := by
    refine (hwritten.eq_of_length ?_).symm
    have hsame : (firstData select rows changes).flatten.length =
        (dataOf select rows).flatten.length := by
      rw [List.length_flatten, List.length_flatten]
      exact congrArg List.sum hlengths
    rw [hcopied, hmirror]
    exact hsame
  have hmem : ∀ change ∈ (kept none (sortBy RetainedRowChange.row changes)).filter
      (fun change => (select change.batches).data ≠ []),
      change ∈ kept none (sortBy RetainedRowChange.row changes) :=
    fun change hchange => (List.mem_filter.mp hchange).1
  have hbound : ∀ buffer, Holds buffer (dataOf select rows) →
      ∀ range ∈ ((kept none (sortBy RetainedRowChange.row changes)).filter fun change =>
        (select change.batches).data ≠ []).map (rangeOf (rangesFrom select 0 rows)),
        range.offset * floats + range.count * floats ≤ buffer.length := by
    intro buffer hbuffer range hrange
    obtain ⟨change, hchange, rfl⟩ := List.mem_map.mp hrange
    exact (hkept change (hmem change hchange)).bound hbuffer
  rw [updateRows, if_neg hnone, if_neg hstable, h.ranges]
  dsimp only
  rw [writeRows_eq hsorted]
  dsimp only
  split
  · rename_i huntouched
    have hsame : writeAll select (dataOf select rows) mirror [] = writeAll select
        (dataOf select rows) mirror (kept none (sortBy RetainedRowChange.row changes)) := by
      rw [← List.map_eq_nil_iff.mp huntouched, writeAll_filter]
    exact ⟨hsame.trans hfirst, hvalues, rfl, rfl⟩
  · refine ⟨?_, hvalues, rfl, rfl⟩
    rw [← partsOf, apply_mergeRanges (fun range hrange => hsize ▸ hbound _ h.values range hrange)
      (hbound _ hcopy), apply_partsOf (fun change hchange => hkept change (hmem change hchange)),
      writeAll_filter, hfirst]
    intro change hchange
    exact slice_kept (hmem change hchange) (hkept change (hmem change hchange)) hvalues hlengths

end Ranges

section Updates

/-- The rows after changes all of which are there. -/
def assigned (rows : List (RetainedRowBatches α)) (changes : List (RetainedRowChange α)) :
    List (RetainedRowBatches α) :=
  setAll RetainedRowChange.row RetainedRowChange.batches rows changes

/-- Some change gives its row another number of instances, so that all is built anew, or the first
and the last change of each row are the same. -/
def Settles (select : RetainedRowBatches α → Batch α floats) (rows : List (RetainedRowBatches α))
    (changes : List (RetainedRowChange α)) : Prop :=
  (∃ change ∈ changes, ¬Fits select rows change) ∨
    ∀ row, ∀ first ∈ (tied RetainedRowChange.row row changes).head?,
      ∀ last ∈ (tied RetainedRowChange.row row changes).getLast?,
        select first.batches = select last.batches

theorem lengths_firstData (hfits : ∀ change ∈ changes, Fits select rows change) :
    (firstData select rows changes).map List.length = (dataOf select rows).map List.length := by
  have hkept : ∀ change ∈ kept none (sortBy RetainedRowChange.row changes), Fits select rows change :=
    fun change hmem => hfits change (mem_sortBy.mp (kept_subset hmem))
  exact (holds_writeAll (List.prefix_refl (dataOf select rows).flatten) rfl hkept).2.2

theorem getElem?_assigned (row : ℕ) : (assigned rows changes)[row]? =
    rows[row]?.map fun batches => ((tied RetainedRowChange.row row changes).getLast?.map
      RetainedRowChange.batches).getD batches := getElem?_setAll row

/-- Changes that fit leave every row its number of instances. -/
theorem counts_assigned (hfits : ∀ change ∈ changes, Fits select rows change) :
    (assigned rows changes).map (fun row => (select row).count) =
      rows.map fun row => (select row).count := by
  apply List.ext_getElem?
  intro row
  rw [List.getElem?_map, List.getElem?_map, getElem?_assigned]
  cases hrow : rows[row]? with
  | none => rfl
  | some batches =>
    cases hlast : (tied RetainedRowChange.row row changes).getLast? with
    | none => rfl
    | some last =>
      obtain ⟨hmem, hkey⟩ := mem_tied.mp (List.mem_of_getLast? hlast)
      obtain ⟨before, hbefore, hcount⟩ := hfits last hmem
      rw [hkey, hrow] at hbefore
      obtain rfl : batches = before := Option.some.inj hbefore
      simpa using hcount

theorem lengths_dataOf (h : rows.map (fun row => (select row).count) =
    rows'.map fun row => (select row).count) :
    (dataOf select rows).map List.length = (dataOf select rows').map List.length := by
  have hlengths : ∀ rows : List (RetainedRowBatches α), (dataOf select rows).map List.length =
      (rows.map fun row => (select row).count).map (· * floats) := by
    intro rows
    rw [dataOf, List.map_map, List.map_map]
    exact List.map_congr_left fun row _ => (select row).length_data
  rw [hlengths, hlengths, h]

/-- The first changes are what the rows are exactly if they are the last changes. -/
theorem firstData_eq_iff (hpos : 0 < floats) (hrows : ∀ change ∈ changes, change.row < rows.length) :
    firstData select rows changes = dataOf select (assigned rows changes) ↔
      ∀ row, ∀ first ∈ (tied RetainedRowChange.row row changes).head?,
        ∀ last ∈ (tied RetainedRowChange.row row changes).getLast?,
          select first.batches = select last.batches := by
  have hget : ∀ row, (dataOf select (assigned rows changes))[row]? =
      rows[row]?.map fun batches => (select (((tied RetainedRowChange.row row changes).getLast?.map
        RetainedRowChange.batches).getD batches)).data := by
    intro row
    rw [dataOf, List.getElem?_map, getElem?_assigned, Option.map_map]
    rfl
  constructor
  · intro hsame row first hfirst last hlast
    obtain ⟨hmem, hkey⟩ := mem_tied.mp (List.mem_of_head? hfirst)
    have hrow : ∃ batches, rows[row]? = some batches :=
      ⟨_, List.getElem?_eq_getElem (hkey ▸ hrows first hmem)⟩
    obtain ⟨batches, hrow⟩ := hrow
    have hdata := congrArg (·[row]?) hsame
    rw [getElem?_firstData, hget, hrow, hfirst, hlast] at hdata
    exact Batch.eq_of_data hpos (Option.some.inj hdata)
  · intro hsame
    apply List.ext_getElem?
    intro row
    rw [getElem?_firstData, hget]
    cases hfirst : (tied RetainedRowChange.row row changes).head? with
    | none =>
      rw [List.head?_eq_none_iff.mp hfirst]
      rfl
    | some first =>
      have hne : tied RetainedRowChange.row row changes ≠ [] := by
        intro hnone
        rw [hnone] at hfirst
        cases hfirst
      have hlast := List.getLast?_eq_some_getLast hne
      have heq := hsame row first hfirst _ hlast
      rw [hlast]
      simp [heq]

/-- After an update the copy is that of the rows exactly if the changes settle what the rows are. -/
theorem updateRows_iff [Zero α] (hpos : 0 < floats) (h : Retains select scene rows)
    (hmirror : mirror = (dataOf select rows).flatten)
    (hrows : ∀ change ∈ changes, change.row < rows.length) :
    (Settles select rows changes →
        Retains select (scene.updateRows select changes (assigned rows changes)).1
          (assigned rows changes)) ∧
      ((scene.updateRows select changes (assigned rows changes)).2.apply mirror =
          (dataOf select (assigned rows changes)).flatten ↔ Settles select rows changes) := by
  by_cases hfits : ∀ change ∈ changes, Fits select rows change
  · obtain ⟨hcopy, hvalues, hranges, hcount⟩ := updateRows_stable hfits h hmirror
    have hcounts := counts_assigned hfits
    have hsettles : Settles select rows changes ↔
        firstData select rows changes = dataOf select (assigned rows changes) := by
      rw [firstData_eq_iff hpos hrows, Settles, or_iff_right]
      rintro ⟨change, hmem, hunfit⟩
      exact hunfit (hfits change hmem)
    rw [hsettles]
    constructor
    · intro hsame
      refine ⟨?_, ?_, hsame ▸ hvalues⟩
      · rw [hranges, h.ranges, rangesFrom_congr hcounts]
      · rw [hcount, h.count, countOf, countOf, hcounts]
    · rw [hcopy, flatten_inj]
      rw [lengths_firstData hfits, lengths_dataOf hcounts]
  · push Not at hfits
    obtain ⟨change, hmem, hunfit⟩ := hfits
    have hresizes : ∃ change ∈ changes, scene.Resizes select change := by
      refine ⟨change, hmem, fun range hrange hcount => hunfit ?_⟩
      rw [h.ranges, getElem?_rangesFrom] at hrange
      obtain ⟨batches, hbatches, rfl⟩ := Option.map_eq_some_iff.mp hrange
      exact ⟨batches, hbatches, hcount.symm⟩
    have hupdate : scene.updateRows select changes (assigned rows changes) =
        scene.replaceAll select (assigned rows changes) := by
      rw [updateRows, if_neg (List.ne_nil_of_mem hmem), if_pos hresizes]
    obtain ⟨hretains, hplan⟩ := replaceAll_spec scene (assigned rows changes)
    rw [hupdate, hplan]
    exact ⟨fun _ => hretains, iff_of_true rfl (.inl ⟨change, hmem, hunfit⟩)⟩

end Updates
end PrimitiveScene
end PiDeck.Display
