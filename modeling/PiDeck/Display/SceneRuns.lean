import Mathlib
import PiDeck.Display.Mirror

/-! Runs of a retained scene together with the three buffers that follow its plans. -/
namespace PiDeck.Display
open PiDeck.Collections PrimitiveScene

/-- The buffers that the renderer draws from. -/
structure SceneMirror (α : Type*) where
  backgrounds : List α
  decorations : List α
  glyphs : List α
  deriving DecidableEq, Repr

def SceneSubmissionPlan.apply {α : Type*} (mirror : SceneMirror α) (plan : SceneSubmissionPlan α) :
    SceneMirror α :=
  ⟨plan.backgrounds.apply mirror.backgrounds, plan.decorations.apply mirror.decorations,
    plan.glyphs.apply mirror.glyphs⟩

inductive SceneAct (α : Type*)
  | replaceAll (rows : List (RetainedRowBatches α))
  | updateRows (changes : List (RetainedRowChange α))
  | trimCapacity

structure MirroredScene (α : Type*) where
  scene : WebGlRetainedScene α
  mirror : SceneMirror α

namespace MirroredScene
variable {α : Type*}

/-- Every buffer has the instances of the rows in the order of the rows. -/
def Mirrors (state : MirroredScene α) : Prop :=
  state.mirror.backgrounds =
    (dataOf RetainedRowBatches.backgrounds state.scene.rows).flatten ∧
  state.mirror.decorations =
    (dataOf RetainedRowBatches.decorations state.scene.rows).flatten ∧
  state.mirror.glyphs = (dataOf RetainedRowBatches.glyphs state.scene.rows).flatten

def InBounds (state : MirroredScene α) (changes : List (RetainedRowChange α)) : Prop :=
  ∀ change ∈ changes, change.row < state.scene.rows.length

/-- The changes of an act settle the rows for every primitive, or a row that is not there stops them
before they have changed any row. -/
def Settled (state : MirroredScene α) : SceneAct α → Prop
  | .replaceAll _ | .trimCapacity => True
  | .updateRows changes =>
    (state.InBounds changes ∧ Settles RetainedRowBatches.backgrounds state.scene.rows changes ∧
      Settles RetainedRowBatches.decorations state.scene.rows changes ∧
      Settles RetainedRowBatches.glyphs state.scene.rows changes) ∨
    (¬state.InBounds changes ∧
      (WebGlRetainedScene.assign state.scene.rows changes).1 = state.scene.rows)

/-- The scenes are those of the rows, and the buffers follow them. -/
structure Good (state : MirroredScene α) : Prop where
  backgrounds : Retains RetainedRowBatches.backgrounds state.scene.backgroundScene state.scene.rows
  decorations : Retains RetainedRowBatches.decorations state.scene.decorationScene state.scene.rows
  glyphs : Retains RetainedRowBatches.glyphs state.scene.glyphScene state.scene.rows
  mirrors : state.Mirrors

variable {state : MirroredScene α} {acts : List (SceneAct α)}
  {changes : List (RetainedRowChange α)} {rows : List (RetainedRowBatches α)}

def empty : MirroredScene α := ⟨.empty, ⟨[], [], []⟩⟩

theorem good_empty : (empty : MirroredScene α).Good := by
  have hretains : ∀ {floats : ℕ} (select : RetainedRowBatches α → Batch α floats),
      Retains select PrimitiveScene.empty [] := fun select => ⟨rfl, rfl, List.prefix_refl _⟩
  exact ⟨hretains _, hretains _, hretains _, rfl, rfl, rfl⟩

theorem assign_of_inBounds (h : ∀ change ∈ changes, change.row < rows.length) :
    WebGlRetainedScene.assign rows changes = (assigned rows changes, .ok ()) := by
  induction changes generalizing rows with
  | nil => rfl
  | cons change changes ih =>
    rw [WebGlRetainedScene.assign, if_pos (h change List.mem_cons_self), ih]
    · rfl
    · intro other hmem
      rw [List.length_set]
      exact h other (List.mem_cons_of_mem _ hmem)

theorem assign_of_outside (h : ¬∀ change ∈ changes, change.row < rows.length) :
    ∃ message, (WebGlRetainedScene.assign rows changes).2 = .error message := by
  induction changes generalizing rows with
  | nil => exact absurd (by simp) h
  | cons change changes ih =>
    rw [WebGlRetainedScene.assign]
    split
    · rename_i hrow
      refine ih fun hrest => h ?_
      simpa [hrow] using hrest
    · exact ⟨_, rfl⟩

variable [Zero α]

/-- A call and the plan it returns. A call that throws returns none. -/
def act (state : MirroredScene α) : SceneAct α → MirroredScene α
  | .replaceAll rows =>
    let replaced := state.scene.replaceAll rows
    ⟨replaced.1, replaced.2.apply state.mirror⟩
  | .updateRows changes =>
    let updated := state.scene.updateRows changes
    ⟨updated.1, match updated.2 with
      | .ok plan => plan.apply state.mirror
      | .error _ => state.mirror⟩
  | .trimCapacity => ⟨state.scene.trimCapacity, state.mirror⟩

def run (state : MirroredScene α) (acts : List (SceneAct α)) : MirroredScene α := acts.foldl act state

def RunSettled (state : MirroredScene α) : List (SceneAct α) → Prop
  | [] => True
  | act :: acts => state.Settled act ∧ (state.act act).RunSettled acts

theorem good_replaceAll (state : MirroredScene α) (rows : List (RetainedRowBatches α)) :
    (state.act (.replaceAll rows)).Good := by
  have hplan : ∀ {floats : ℕ} (select : RetainedRowBatches α → Batch α floats)
      (scene : PrimitiveScene α) (mirror : List α),
      (scene.replaceAll select rows).2.apply mirror = (dataOf select rows).flatten := by
    intro floats select scene mirror
    rw [(replaceAll_spec scene rows).2]
    rfl
  exact ⟨(replaceAll_spec _ rows).1, (replaceAll_spec _ rows).1, (replaceAll_spec _ rows).1,
    hplan _ _ state.mirror.backgrounds, hplan _ _ state.mirror.decorations,
    hplan _ _ state.mirror.glyphs⟩

theorem Good.trimCapacity (h : state.Good) : (state.act .trimCapacity).Good :=
  ⟨trimCapacity_retains h.backgrounds, trimCapacity_retains h.decorations,
    trimCapacity_retains h.glyphs, h.mirrors⟩

/-- The state after the update of every primitive. -/
def updated (state : MirroredScene α) (changes : List (RetainedRowChange α))
    (rows : List (RetainedRowBatches α)) : MirroredScene α :=
  let backgrounds := state.scene.backgroundScene.updateRows RetainedRowBatches.backgrounds changes rows
  let decorations := state.scene.decorationScene.updateRows RetainedRowBatches.decorations changes rows
  let glyphs := state.scene.glyphScene.updateRows RetainedRowBatches.glyphs changes rows
  ⟨⟨rows, backgrounds.1, decorations.1, glyphs.1⟩, ⟨backgrounds.2.apply state.mirror.backgrounds,
    decorations.2.apply state.mirror.decorations, glyphs.2.apply state.mirror.glyphs⟩⟩

theorem act_updateRows (hbounds : state.InBounds changes) : state.act (.updateRows changes) =
    state.updated changes (assigned state.scene.rows changes) := by
  by_cases hnone : changes = []
  · subst hnone
    simp [act, WebGlRetainedScene.updateRows, updated, PrimitiveScene.updateRows, assigned, setAll,
      SceneSubmissionPlan.apply, ScenePrimitivePlan.apply]
  · simp [act, WebGlRetainedScene.updateRows, if_neg hnone, assign_of_inBounds hbounds, updated,
      SceneSubmissionPlan.apply]

theorem act_outside (hbounds : ¬state.InBounds changes) : state.act (.updateRows changes) =
    ⟨{ state.scene with rows := (WebGlRetainedScene.assign state.scene.rows changes).1 },
      state.mirror⟩ := by
  obtain ⟨message, hmessage⟩ := assign_of_outside hbounds
  have hsome : changes ≠ [] := by
    rintro rfl
    exact hbounds (by simp [InBounds])
  cases hassign : WebGlRetainedScene.assign state.scene.rows changes with
  | mk rows outcome =>
    rw [hassign] at hmessage
    simp only at hmessage
    simp [act, WebGlRetainedScene.updateRows, if_neg hsome, hassign, hmessage]

/-- After an update of rows that are there the buffers have the rows exactly if it settles them. -/
theorem Good.mirrors_iff (h : state.Good) (hbounds : state.InBounds changes) :
    (state.act (.updateRows changes)).Mirrors ↔ state.Settled (.updateRows changes) := by
  rw [act_updateRows hbounds, Settled]
  simp only [hbounds, true_and, not_true_eq_false, false_and, or_false]
  exact and_congr
    (updateRows_iff (by decide) h.backgrounds h.mirrors.1 hbounds).2 (and_congr
      (updateRows_iff (by decide) h.decorations h.mirrors.2.1 hbounds).2
      (updateRows_iff (by decide) h.glyphs h.mirrors.2.2 hbounds).2)

theorem Good.act {act : SceneAct α} (h : state.Good) (hact : state.Settled act) :
    (state.act act).Good := by
  cases act with
  | replaceAll rows => exact good_replaceAll state rows
  | trimCapacity => exact h.trimCapacity
  | updateRows changes =>
    rcases hact with ⟨hbounds, hsettled⟩ | ⟨hbounds, hrows⟩
    · have hmirrors := (h.mirrors_iff hbounds).mpr (.inl ⟨hbounds, hsettled⟩)
      rw [act_updateRows hbounds] at hmirrors ⊢
      exact ⟨(updateRows_iff (by decide) h.backgrounds h.mirrors.1 hbounds).1 hsettled.1,
        (updateRows_iff (by decide) h.decorations h.mirrors.2.1 hbounds).1 hsettled.2.1,
        (updateRows_iff (by decide) h.glyphs h.mirrors.2.2 hbounds).1 hsettled.2.2, hmirrors⟩
    · rw [act_outside hbounds, hrows]
      exact h

theorem Good.run (h : state.Good) (hacts : state.RunSettled acts) : (state.run acts).Good := by
  induction acts generalizing state with
  | nil => exact h
  | cons act acts ih => exact ih (h.act hacts.1) hacts.2

/-- In a run whose updates settle the rows the buffers have the instances of the rows after every
call. -/
theorem mirror_eq_rows (hacts : (empty : MirroredScene α).RunSettled acts) :
    ((empty : MirroredScene α).run acts).Mirrors := (good_empty.run hacts).mirrors

/-- A row of one background. -/
def stripe (shade : ℤ) : RetainedRowBatches ℤ :=
  ⟨⟨1, List.replicate 8 shade, rfl⟩, ⟨0, [], rfl⟩, ⟨0, [], rfl⟩⟩

theorem mirror_eq_rows_stripes :
    ((empty : MirroredScene ℤ).run [.replaceAll [stripe 1, stripe 2],
      .updateRows [⟨1, stripe 3⟩], .trimCapacity]).Mirrors := by
  refine mirror_eq_rows ⟨trivial, .inl ⟨?_, ?_⟩, trivial, trivial⟩
  · simp [InBounds, act, WebGlRetainedScene.replaceAll]
  · refine ⟨.inr ?_, .inr ?_, .inr ?_⟩ <;>
    · intro row first hfirst last hlast
      rw [tied_cons, tied_nil] at hfirst hlast
      split at hfirst <;> simp_all

/-- Two changes of one row: the buffer has the first of them, and the row is the second. -/
theorem repeated_row_stale : ¬((empty : MirroredScene ℤ).run [.replaceAll [stripe 1],
    .updateRows [⟨0, stripe 2⟩, ⟨0, stripe 3⟩]]).Mirrors := by
  have hgood := good_replaceAll (empty : MirroredScene ℤ) [stripe 1]
  have hbounds : ((empty : MirroredScene ℤ).act (.replaceAll [stripe 1])).InBounds
      [⟨0, stripe 2⟩, ⟨0, stripe 3⟩] := by
    simp [InBounds, act, WebGlRetainedScene.replaceAll]
  intro hmirrors
  rcases (hgood.mirrors_iff hbounds).mp hmirrors with ⟨-, hsettles, -⟩ | ⟨houtside, -⟩
  · rcases hsettles with ⟨change, hmem, hunfit⟩ | hsame
    · refine hunfit ⟨stripe 1, ?_, ?_⟩
      · rcases List.mem_pair.mp hmem with rfl | rfl <;> rfl
      · rcases List.mem_pair.mp hmem with rfl | rfl <;> rfl
    · have hdiffer := hsame 0 ⟨0, stripe 2⟩ (by simp [tied]) ⟨0, stripe 3⟩ (by simp [tied])
      simp [stripe] at hdiffer
  · exact houtside hbounds

end MirroredScene
end PiDeck.Display
