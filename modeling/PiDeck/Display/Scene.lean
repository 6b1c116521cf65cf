import Mathlib
import PiDeck.Collections.Buffer
import PiDeck.Collections.Stable

/-! The retained scene of a terminal. The instances of all rows stand one behind the other in a buffer
for each primitive, and a change of rows leads to a plan for the copy of the buffer that the
renderer draws from. -/
namespace PiDeck.Display
open PiDeck.Collections

/-- `BatchView`: the data of so many instances. A batch hands out as many floats as it counts. -/
structure Batch (α : Type*) (floats : ℕ) where
  count : ℕ
  data : List α
  length_data : data.length = count * floats
  deriving DecidableEq, Repr

def webglRectFloats : ℕ := 8

def webglGlyphFloats : ℕ := 13

structure RetainedRowBatches (α : Type*) where
  backgrounds : Batch α webglRectFloats
  decorations : Batch α webglRectFloats
  glyphs : Batch α webglGlyphFloats
  deriving DecidableEq, Repr

structure RetainedRowChange (α : Type*) where
  row : ℕ
  batches : RetainedRowBatches α
  deriving DecidableEq, Repr

/-- What is to be copied: nothing, ranges of floats with their offsets, or everything. -/
inductive ScenePrimitivePlan (α : Type*)
  | none
  | ranges (ranges : List (ℕ × List α))
  | full (data : List α)
  deriving DecidableEq, Repr

structure SceneSubmissionPlan (α : Type*) where
  backgrounds : ScenePrimitivePlan α
  decorations : ScenePrimitivePlan α
  glyphs : ScenePrimitivePlan α
  deriving DecidableEq, Repr

/-- The instances of a row. -/
structure RowRange where
  offset : ℕ
  count : ℕ
  deriving DecidableEq, Repr

structure PrimitiveScene (α : Type*) where
  values : List α
  ranges : List RowRange
  count : ℕ
  deriving DecidableEq, Repr

/-- The loop that doubles a capacity until it is enough. -/
def grown (capacity required : ℕ) : ℕ :=
  if 0 < capacity ∧ capacity < required then grown (capacity * 2) required else capacity
termination_by required - capacity

theorem le_grown {capacity required : ℕ} (h : 0 < capacity) : required ≤ grown capacity required := by
  induction capacity using grown.induct required with
  | case1 capacity hless ih =>
    rw [grown, if_pos hless]
    exact ih (by omega)
  | case2 capacity hless =>
    rw [grown, if_neg hless]
    omega

namespace PrimitiveScene
variable {α : Type*} [Zero α] {floats : ℕ} (select : RetainedRowBatches α → Batch α floats)

def empty : PrimitiveScene α := ⟨[], [], 0⟩

/-- The ranges of rows that begin behind so many instances. -/
def rangesFrom (count : ℕ) : List (RetainedRowBatches α) → List RowRange
  | [] => []
  | row :: rows => ⟨count, (select row).count⟩ :: rangesFrom (count + (select row).count) rows

/-- The instances that are written to the buffer row by row. -/
def fill : List RowRange → List (RetainedRowBatches α) → List α → List α
  | range :: ranges, row :: rows, values =>
    fill ranges rows
      (if range.count = 0 then values else write values (range.offset * floats) (select row).data)
  | _, _, values => values

def replaceAll (scene : PrimitiveScene α) (rows : List (RetainedRowBatches α)) :
    PrimitiveScene α × ScenePrimitivePlan α :=
  let count := (rows.map fun row => (select row).count).sum
  let ranges := rangesFrom select 0 rows
  let required := count * floats
  let values :=
    if scene.values.length < required then
      List.replicate (grown (max (64 * floats) scene.values.length) required) 0
    else scene.values
  let values := fill select ranges rows values
  (⟨values, ranges, count⟩, .full (values.take required))

/-- `trimCapacity`. The number of bytes it returns is not modelled. -/
def trimCapacity (floats : ℕ) (scene : PrimitiveScene α) : PrimitiveScene α :=
  let targetLength := grown (64 * floats) (scene.count * 2 * floats)
  if scene.values.length ≤ targetLength then scene
  else { scene with
    values := write (List.replicate targetLength 0) 0 (scene.values.take (scene.count * floats)) }

/-- The loop over the sorted changes. It skips the changes of a row behind the first one. -/
def writeRows (ranges : List RowRange) : Option ℕ → List (RetainedRowChange α) → List α →
    List α × List RowRange
  | _, [], values => (values, [])
  | previousRow, change :: sorted, values =>
    if previousRow = some change.row then writeRows ranges previousRow sorted values
    else
      let range := ranges.getD change.row ⟨0, 0⟩
      if range.count * floats = 0 then writeRows ranges (some change.row) sorted values
      else
        let written := writeRows ranges (some change.row) sorted
          (write values (range.offset * floats) (select change.batches).data)
        (written.1, range :: written.2)

/-- The loop over the touched ranges, which joins those that meet. -/
def mergeRanges : List RowRange → List RowRange
  | [] => []
  | [range] => [range]
  | previous :: range :: touched =>
    if previous.offset + previous.count = range.offset then
      mergeRanges (⟨previous.offset, previous.count + range.count⟩ :: touched)
    else previous :: mergeRanges (range :: touched)
termination_by touched => touched.length

/-- A change of a row that is not there, or one that changes how many instances the row has. -/
def Resizes (scene : PrimitiveScene α) (change : RetainedRowChange α) : Prop :=
  ∀ range ∈ scene.ranges[change.row]?, range.count ≠ (select change.batches).count

instance (scene : PrimitiveScene α) : DecidablePred (scene.Resizes select) := fun change =>
  inferInstanceAs (Decidable (∀ range ∈ scene.ranges[change.row]?,
    range.count ≠ (select change.batches).count))

def updateRows (scene : PrimitiveScene α) (changes : List (RetainedRowChange α))
    (rows : List (RetainedRowBatches α)) : PrimitiveScene α × ScenePrimitivePlan α :=
  if changes = [] then (scene, .none)
  else if ∃ change ∈ changes, scene.Resizes select change then scene.replaceAll select rows
  else
    let sorted := sortBy RetainedRowChange.row changes
    let written := writeRows select scene.ranges none sorted scene.values
    let scene := { scene with values := written.1 }
    if written.2 = [] then (scene, .none)
    else (scene, .ranges ((mergeRanges written.2).map fun range =>
      (range.offset * floats, slice written.1 (range.offset * floats) (range.count * floats))))

end PrimitiveScene

structure WebGlRetainedScene (α : Type*) where
  rows : List (RetainedRowBatches α)
  backgroundScene : PrimitiveScene α
  decorationScene : PrimitiveScene α
  glyphScene : PrimitiveScene α
  deriving DecidableEq, Repr

namespace WebGlRetainedScene
variable {α : Type*} [Zero α]

def empty : WebGlRetainedScene α := ⟨[], .empty, .empty, .empty⟩

def replaceAll (scene : WebGlRetainedScene α) (rows : List (RetainedRowBatches α)) :
    WebGlRetainedScene α × SceneSubmissionPlan α :=
  let backgrounds := scene.backgroundScene.replaceAll RetainedRowBatches.backgrounds rows
  let decorations := scene.decorationScene.replaceAll RetainedRowBatches.decorations rows
  let glyphs := scene.glyphScene.replaceAll RetainedRowBatches.glyphs rows
  (⟨rows, backgrounds.1, decorations.1, glyphs.1⟩, ⟨backgrounds.2, decorations.2, glyphs.2⟩)

/-- The rows after the changes. A row that is not there is an error, and the changes before it have
been made. -/
def assign : List (RetainedRowBatches α) → List (RetainedRowChange α) →
    List (RetainedRowBatches α) × Except String Unit
  | rows, [] => (rows, .ok ())
  | rows, change :: changes =>
    if change.row < rows.length then assign (rows.set change.row change.batches) changes
    else (rows, .error s!"retained scene row {change.row} is out of bounds")

def updateRows (scene : WebGlRetainedScene α) (changes : List (RetainedRowChange α)) :
    WebGlRetainedScene α × Except String (SceneSubmissionPlan α) :=
  if changes = [] then (scene, .ok ⟨.none, .none, .none⟩)
  else
    match assign scene.rows changes with
    | (rows, .error message) => ({ scene with rows := rows }, .error message)
    | (rows, .ok ()) =>
      let backgrounds :=
        scene.backgroundScene.updateRows RetainedRowBatches.backgrounds changes rows
      let decorations :=
        scene.decorationScene.updateRows RetainedRowBatches.decorations changes rows
      let glyphs := scene.glyphScene.updateRows RetainedRowBatches.glyphs changes rows
      (⟨rows, backgrounds.1, decorations.1, glyphs.1⟩,
        .ok ⟨backgrounds.2, decorations.2, glyphs.2⟩)

/-- `trimCapacity`. The batches of the rows keep their data in it. -/
def trimCapacity (scene : WebGlRetainedScene α) : WebGlRetainedScene α := { scene with
  backgroundScene := scene.backgroundScene.trimCapacity webglRectFloats
  decorationScene := scene.decorationScene.trimCapacity webglRectFloats
  glyphScene := scene.glyphScene.trimCapacity webglGlyphFloats }

end WebGlRetainedScene
end PiDeck.Display
