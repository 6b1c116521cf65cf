import Mathlib
import PiDeck.Collections.IndexMap
import PiDeck.Panels.Workspace

/-! The rectangles of the panes. A split lays its children out one after the other along its axis,
so what holds of one split carries over to nested ones. -/
namespace PiDeck.Panels
open Collections

/-- The pixels between two neighbours. -/
def splitter : ℚ := 4

structure Rect where
  x : ℚ
  y : ℚ
  width : ℚ
  height : ℚ
  deriving DecidableEq, Repr

namespace Rect
variable {kind axis : SplitKind} {rect inner outer : Rect} {offset size : ℚ}

def start (axis : SplitKind) (rect : Rect) : ℚ :=
  match axis with
  | .row => rect.x
  | .column => rect.y

def span (axis : SplitKind) (rect : Rect) : ℚ :=
  match axis with
  | .row => rect.width
  | .column => rect.height

def finish (axis : SplitKind) (rect : Rect) : ℚ := rect.start axis + rect.span axis

/-- `childRect`: a part of the rectangle along the axis of the split. -/
def slice (kind : SplitKind) (rect : Rect) (offset size : ℚ) : Rect :=
  match kind with
  | .row => ⟨offset, rect.y, size, rect.height⟩
  | .column => ⟨rect.x, offset, rect.width, size⟩

/-- The points of the rectangle, its borders included. -/
def points (rect : Rect) : Set (ℚ × ℚ) :=
  {p | rect.x ≤ p.1 ∧ p.1 ≤ rect.x + rect.width ∧ rect.y ≤ p.2 ∧ p.2 ≤ rect.y + rect.height}

def Inside (inner outer : Rect) : Prop :=
  ∀ axis, 0 ≤ inner.span axis ∧ outer.start axis ≤ inner.start axis ∧
    inner.finish axis ≤ outer.finish axis

/-- One lies before the other along some axis, with room for a gap. -/
def Apart (first second : Rect) : Prop :=
  ∃ axis, first.finish axis + splitter ≤ second.start axis ∨
    second.finish axis + splitter ≤ first.start axis

@[simp] theorem start_slice : (slice kind rect offset size).start kind = offset := by
  cases kind <;> rfl

@[simp] theorem span_slice : (slice kind rect offset size).span kind = size := by
  cases kind <;> rfl

theorem start_slice_of_ne (h : axis ≠ kind) :
    (slice kind rect offset size).start axis = rect.start axis := by
  cases kind <;> cases axis <;> first | rfl | exact absurd rfl h

theorem span_slice_of_ne (h : axis ≠ kind) :
    (slice kind rect offset size).span axis = rect.span axis := by
  cases kind <;> cases axis <;> first | rfl | exact absurd rfl h

theorem Inside.refl (h : ∀ axis, 0 ≤ rect.span axis) : rect.Inside rect :=
  fun axis => ⟨h axis, le_rfl, le_rfl⟩

theorem Inside.trans (h : inner.Inside rect) (ho : rect.Inside outer) : inner.Inside outer :=
  fun axis => ⟨(h axis).1, (ho axis).2.1.trans (h axis).2.1, (h axis).2.2.trans (ho axis).2.2⟩

theorem Apart.symm {first second : Rect} (h : first.Apart second) : second.Apart first := by
  obtain ⟨axis, h⟩ := h
  exact ⟨axis, h.symm⟩

theorem Apart.of_inside {first second left right : Rect} (h : first.Apart second)
    (hleft : left.Inside first) (hright : right.Inside second) : left.Apart right := by
  obtain ⟨axis, h⟩ := h
  refine ⟨axis, ?_⟩
  have hl := hleft axis
  have hr := hright axis
  rcases h with h | h
  · left
    linarith
  · right
    linarith

theorem Apart.disjoint {first second : Rect} (h : first.Apart second) :
    Disjoint first.points second.points := by
  rw [Set.disjoint_left]
  rintro ⟨x, y⟩ ⟨hx, hx', hy, hy'⟩ ⟨kx, kx', ky, ky'⟩
  obtain ⟨axis, h⟩ := h
  cases axis <;> simp only [finish, start, span, splitter] at h hx hx' hy hy' kx kx' ky ky' <;>
    rcases h with h | h <;> linarith

end Rect

namespace PanelNode
variable {V : Type*} {node : PanelNode V} {children : List (PanelNode V)} {kind axis : SplitKind}
  {ratios : List ℚ} {rect : Rect} {rects map : IndexMap ℕ Rect} {available offset : ℚ}

mutual
/-- The sizes of a split with a ratio for every child; there is no number for a missing one. -/
def layoutNode : PanelNode V → Rect → IndexMap ℕ Rect → IndexMap ℕ Rect
  | .leaf pane, rect, map => map.insert pane.panelId rect
  | .split kind children ratios, rect, map =>
    let available := rect.span kind - splitter * (children.length - 1)
    layoutChildren kind rect available (rect.start kind) children ratios map
/-- The loop over the children, with the offset of the next one. -/
def layoutChildren (kind : SplitKind) (rect : Rect) (available : ℚ) :
    ℚ → List (PanelNode V) → List ℚ → IndexMap ℕ Rect → IndexMap ℕ Rect
  | _, [], _, map => map
  | offset, child :: children, ratios, map =>
    let size := available * ratios.headD 0
    layoutChildren kind rect available (offset + size + splitter) children ratios.tail
      (child.layoutNode (rect.slice kind offset size) map)
end

mutual
/-- The extent along an axis at which every split of that axis has room for its gaps. -/
def needs (axis : SplitKind) : PanelNode V → ℚ
  | .leaf _ => 0
  | .split kind children ratios =>
    if kind = axis then splitter * (children.length - 1) + mostNeeded axis children ratios
    else mostNeeded axis children (List.replicate children.length 1)
/-- The largest extent that a child needs of the whole when it gets its ratio of it. -/
def mostNeeded (axis : SplitKind) : List (PanelNode V) → List ℚ → ℚ
  | child :: children, ratio :: ratios =>
    max (child.needs axis / ratio) (mostNeeded axis children ratios)
  | _, _ => 0
end

/-- The viewport is large enough for the gaps of the tree. -/
def Fits (node : PanelNode V) (viewport : Rect) : Prop :=
  ∀ axis, node.needs axis ≤ viewport.span axis

/-- The areas lie one after the other from `offset` to `last`, with one gap between neighbours. -/
def Consecutive (axis : SplitKind) (last : ℚ) : ℚ → List Rect → Prop
  | _, [] => False
  | offset, [area] => area.start axis = offset ∧ area.finish axis = last
  | offset, area :: next :: areas =>
    area.start axis = offset ∧
      Consecutive axis last (area.finish axis + splitter) (next :: areas)

/-- The rectangles of the leaves make up the area of the node: a leaf has all of it, and the
children of a split have consecutive parts that reach from its one end to the other. -/
inductive Tiles (rects : IndexMap ℕ Rect) : PanelNode V → Rect → Prop
  | leaf {pane : Leaf V} {rect : Rect} (nonneg : ∀ axis, 0 ≤ rect.span axis)
      (shown : rects.get? pane.panelId = some rect) : Tiles rects (.leaf pane) rect
  | split {kind : SplitKind} {children : List (PanelNode V)} {ratios : List ℚ} {rect : Rect}
      (nonneg : ∀ axis, 0 ≤ rect.span axis) (areas : List Rect)
      (length : areas.length = children.length)
      (consecutive : Consecutive kind (rect.finish kind) (rect.start kind) areas)
      (across : ∀ area ∈ areas, ∀ axis, axis ≠ kind →
        area.start axis = rect.start axis ∧ area.span axis = rect.span axis)
      (all : ∀ item ∈ children.zip areas, Tiles rects item.1 item.2) :
      Tiles rects (.split kind children ratios) rect

def ids (node : PanelNode V) : List ℕ := node.leaves.map Leaf.panelId

@[simp] theorem ids_leaf (pane : Leaf V) : (PanelNode.leaf pane).ids = [pane.panelId] := rfl

@[simp] theorem ids_split :
    (PanelNode.split kind children ratios).ids = children.flatMap ids := by
  rw [ids, leaves_split, List.map_flatMap]
  rfl

theorem Tiles.nonneg (h : Tiles rects node rect) : ∀ axis, 0 ≤ rect.span axis := by
  cases h with
  | leaf nonneg _ => exact nonneg
  | split nonneg _ _ _ _ _ => exact nonneg

/-- Only the rectangles of its own leaves matter for a node. -/
theorem Tiles.frame {rects' : IndexMap ℕ Rect} (h : Tiles rects node rect)
    (hsame : ∀ id ∈ node.ids, rects'.get? id = rects.get? id) : Tiles rects' node rect := by
  induction h with
  | leaf nonneg shown => exact .leaf nonneg ((hsame _ (by simp)).trans shown)
  | @split kind children ratios rect nonneg areas length consecutive across all ih =>
    refine .split nonneg areas length consecutive across ?_
    intro item hitem
    apply ih item hitem
    intro id hid
    apply hsame
    rw [ids_split]
    exact List.mem_flatMap.mpr ⟨item.1, (List.of_mem_zip hitem).1, hid⟩

theorem consecutive_bounds {last : ℚ} {areas : List Rect}
    (h : Consecutive axis last offset areas) (hnonneg : ∀ area ∈ areas, 0 ≤ area.span axis) :
    ∀ area ∈ areas, offset ≤ area.start axis ∧ area.finish axis ≤ last := by
  induction areas generalizing offset with
  | nil => simp
  | cons area areas ih =>
    have hspan := hnonneg area (List.mem_cons_self ..)
    cases areas with
    | nil =>
      obtain ⟨hstart, hfinish⟩ := h
      simpa using ⟨hstart.ge, hfinish.le⟩
    | cons next areas =>
      obtain ⟨hstart, hrest⟩ := h
      have hnext := ih hrest fun a ha => hnonneg a (List.mem_cons_of_mem _ ha)
      have hgap : (0 : ℚ) < splitter := by norm_num [splitter]
      have hlast := hnext next (List.mem_cons_self ..)
      have hspan' := hnonneg next (by simp)
      unfold Rect.finish at *
      intro a ha
      rcases List.mem_cons.mp ha with rfl | ha
      · constructor <;> linarith
      · have ha' := hnext a ha
        constructor <;> linarith

/-- Of two areas the earlier one ends a gap before the other. -/
theorem consecutive_apart {last : ℚ} {areas : List Rect}
    (h : Consecutive axis last offset areas) (hnonneg : ∀ area ∈ areas, 0 ≤ area.span axis) :
    areas.Pairwise Rect.Apart := by
  induction areas generalizing offset with
  | nil => exact .nil
  | cons area areas ih =>
    cases areas with
    | nil => simp
    | cons next areas =>
      obtain ⟨hstart, hrest⟩ := h
      have hrest' := fun a ha => hnonneg a (List.mem_cons_of_mem _ ha)
      refine List.pairwise_cons.mpr ⟨?_, ih hrest hrest'⟩
      intro other hother
      exact ⟨axis, .inl (consecutive_bounds hrest hrest' other hother).1⟩

theorem inside_of_split {areas : List Rect}
    (consecutive : Consecutive kind (rect.finish kind) (rect.start kind) areas)
    (across : ∀ area ∈ areas, ∀ axis, axis ≠ kind →
      area.start axis = rect.start axis ∧ area.span axis = rect.span axis)
    (nonneg : ∀ area ∈ areas, ∀ axis, 0 ≤ area.span axis) :
    ∀ area ∈ areas, area.Inside rect := by
  intro area harea axis
  refine ⟨nonneg area harea axis, ?_⟩
  by_cases haxis : axis = kind
  · subst haxis
    exact consecutive_bounds consecutive (fun a ha => nonneg a ha axis) area harea
  · obtain ⟨hstart, hspan⟩ := across area harea axis haxis
    rw [Rect.finish, Rect.finish, hstart, hspan]
    exact ⟨le_rfl, le_rfl⟩

theorem nonneg_of_zip {areas : List Rect} (length : areas.length = children.length)
    (all : ∀ item ∈ children.zip areas, Tiles rects item.1 item.2) :
    ∀ area ∈ areas, ∀ axis, 0 ≤ area.span axis := by
  intro area harea
  rw [← List.map_snd_zip length.le] at harea
  obtain ⟨item, hitem, rfl⟩ := List.mem_map.mp harea
  exact (all item hitem).nonneg

theorem leaves_zip {areas : List Rect} (length : areas.length = children.length) :
    children.flatMap leaves = (children.zip areas).flatMap (fun item => item.1.leaves) := by
  conv_lhs => rw [← List.map_fst_zip length.ge, List.flatMap_map]

/-- Every leaf has its rectangle inside the area of the node. -/
theorem Tiles.inside (h : Tiles rects node rect) :
    ∀ pane ∈ node.leaves, ∃ area, rects.get? pane.panelId = some area ∧ area.Inside rect := by
  induction h with
  | leaf nonneg shown =>
    intro pane hpane
    rw [leaves_leaf, List.mem_singleton] at hpane
    subst hpane
    exact ⟨_, shown, .refl nonneg⟩
  | split nonneg areas length consecutive across all ih =>
    intro pane hpane
    rw [leaves_split, leaves_zip length] at hpane
    obtain ⟨item, hitem, hpane⟩ := List.mem_flatMap.mp hpane
    obtain ⟨area, hget, hinside⟩ := ih item hitem pane hpane
    exact ⟨area, hget, hinside.trans
      (inside_of_split consecutive across (nonneg_of_zip length all) item.2
        (List.of_mem_zip hitem).2)⟩

/-- The rectangles of two leaves lie apart. Two leaves below one child do by induction, and those
below different children because the areas of the children do. -/
theorem Tiles.apart (h : Tiles rects node rect) :
    node.leaves.Pairwise fun first second => ∀ a b, rects.get? first.panelId = some a →
      rects.get? second.panelId = some b → a.Apart b := by
  induction h with
  | leaf nonneg shown => simp
  | @split kind children ratios rect nonneg areas length consecutive across all ih =>
    rw [leaves_split, leaves_zip length, List.pairwise_flatMap]
    refine ⟨ih, ?_⟩
    have hapart : ((children.zip areas).map Prod.snd).Pairwise Rect.Apart := by
      rw [List.map_snd_zip length.le]
      exact consecutive_apart consecutive
        fun a ha => nonneg_of_zip length all a ha kind
    refine (List.pairwise_map.mp hapart).imp_of_mem ?_
    intro left right hleft hright hareas first hfirst second hsecond a b ha hb
    obtain ⟨a', ha', hinside⟩ := (all left hleft).inside first hfirst
    obtain ⟨b', hb', hinside'⟩ := (all right hright).inside second hsecond
    cases ha'.symm.trans ha
    cases hb'.symm.trans hb
    exact hareas.of_inside hinside hinside'

theorem Tiles.apart_of_ne {first second : Leaf V} {a b : Rect} (h : Tiles rects node rect)
    (hfirst : first ∈ node.leaves) (hsecond : second ∈ node.leaves) (hne : first ≠ second)
    (ha : rects.get? first.panelId = some a) (hb : rects.get? second.panelId = some b) :
    a.Apart b := by
  have hsymm : Std.Symm fun first second : Leaf V => ∀ a b, rects.get? first.panelId = some a →
      rects.get? second.panelId = some b → a.Apart b :=
    ⟨fun p q hpq a b ha hb => (hpq b a hb ha).symm⟩
  exact h.apart.forall hfirst hsecond hne a b ha hb

/-- The parts that the loop gives to the children. -/
def areas (kind : SplitKind) (rect : Rect) (available : ℚ) : ℚ → List ℚ → List Rect
  | _, [] => []
  | offset, ratio :: ratios =>
    rect.slice kind offset (available * ratio) ::
      areas kind rect available (offset + available * ratio + splitter) ratios

theorem length_areas : (areas kind rect available offset ratios).length = ratios.length := by
  induction ratios generalizing offset with
  | nil => rfl
  | cons ratio ratios ih => rw [areas, List.length_cons, List.length_cons, ih]

theorem mem_areas {area : Rect} (h : area ∈ areas kind rect available offset ratios) :
    ∃ start, ∃ ratio ∈ ratios, area = rect.slice kind start (available * ratio) := by
  induction ratios generalizing offset with
  | nil => cases h
  | cons ratio ratios ih =>
    rcases List.mem_cons.mp h with rfl | h
    · exact ⟨offset, ratio, List.mem_cons_self .., rfl⟩
    · obtain ⟨start, r, hr, rfl⟩ := ih h
      exact ⟨start, r, List.mem_cons_of_mem _ hr, rfl⟩

/-- A child and its area go with the ratio that the area was made from. -/
theorem mem_zip_areas {item : PanelNode V × Rect}
    (h : item ∈ children.zip (areas kind rect available offset ratios)) :
    ∃ start ratio, (item.1, ratio) ∈ children.zip ratios ∧
      item.2 = rect.slice kind start (available * ratio) := by
  induction children generalizing offset ratios with
  | nil => cases h
  | cons child children ih =>
    cases ratios with
    | nil => cases h
    | cons ratio ratios =>
      rw [areas, List.zip_cons_cons] at h
      rcases List.mem_cons.mp h with rfl | h
      · exact ⟨offset, ratio, List.mem_cons_self .., rfl⟩
      · obtain ⟨start, r, hr, harea⟩ := ih h
        exact ⟨start, r, List.mem_cons_of_mem _ hr, harea⟩

theorem consecutive_areas {last : ℚ} (hne : ratios ≠ [])
    (hlast : offset + available * ratios.sum + splitter * (ratios.length - 1) = last) :
    Consecutive kind last offset (areas kind rect available offset ratios) := by
  induction ratios generalizing offset with
  | nil => exact absurd rfl hne
  | cons ratio ratios ih =>
    cases ratios with
    | nil =>
      refine ⟨Rect.start_slice, ?_⟩
      rw [Rect.finish, Rect.start_slice, Rect.span_slice, ← hlast]
      simp
    | cons next ratios =>
      refine ⟨Rect.start_slice, ?_⟩
      have hrest : offset + available * ratio + splitter + available * (next :: ratios).sum +
          splitter * ((next :: ratios).length - 1) = last := by
        rw [← hlast, List.sum_cons (a := ratio), List.length_cons (a := ratio)]
        push_cast
        ring
      rw [Rect.finish, Rect.start_slice, Rect.span_slice]
      exact ih (by simp) hrest

theorem needs_le_most {item : PanelNode V × ℚ} (h : item ∈ children.zip ratios) :
    item.1.needs axis / item.2 ≤ mostNeeded axis children ratios := by
  induction children generalizing ratios with
  | nil => cases h
  | cons child children ih =>
    cases ratios with
    | nil => cases h
    | cons ratio ratios =>
      rw [List.zip_cons_cons] at h
      rw [mostNeeded]
      rcases List.mem_cons.mp h with rfl | h
      · exact le_max_left ..
      · exact (ih h).trans (le_max_right ..)

theorem needs_le_across {child : PanelNode V} (h : child ∈ children) :
    child.needs axis ≤ mostNeeded axis children (List.replicate children.length 1) := by
  have hitem : (child, (1 : ℚ)) ∈ children.zip (List.replicate children.length 1) := by
    obtain ⟨i, hi, rfl⟩ := List.mem_iff_getElem.mp h
    exact List.mem_iff_getElem.mpr ⟨i, by simpa using hi, by simp⟩
  have hneeds : child.needs axis / 1 ≤ mostNeeded axis children (List.replicate children.length 1) :=
    needs_le_most hitem
  simpa using hneeds

theorem mostNeeded_nonneg : 0 ≤ mostNeeded axis children ratios := by
  induction children generalizing ratios with
  | nil => simp [mostNeeded]
  | cons child children ih =>
    cases ratios with
    | nil => simp [mostNeeded]
    | cons ratio ratios => exact ih.trans (le_max_right ..)

theorem needs_nonneg (h : WellSplit node) : 0 ≤ node.needs axis := by
  cases h with
  | leaf => simp [needs]
  | @split kind children ratios two divides all =>
    have hmost : 0 ≤ mostNeeded axis children ratios := mostNeeded_nonneg
    have hcount : (2 : ℚ) ≤ children.length := by exact_mod_cast two
    rw [needs]
    split
    · rw [splitter]
      linarith
    · exact mostNeeded_nonneg

/-- The children of a split that has room for its gaps have room for theirs. -/
theorem fits_of_split (divides : Divides ratios children.length)
    (hfits : (PanelNode.split kind children ratios).Fits rect) {item : PanelNode V × Rect}
    (hitem : item ∈ children.zip
      (areas kind rect (rect.span kind - splitter * (children.length - 1)) offset ratios)) :
    item.1.Fits item.2 := by
  obtain ⟨start, ratio, hratio, harea⟩ := mem_zip_areas hitem
  have hpos := divides.pos ratio (List.of_mem_zip hratio).2
  intro axis
  have hroom := hfits axis
  rw [needs] at hroom
  rw [harea]
  by_cases haxis : axis = kind
  · subst haxis
    rw [if_pos rfl] at hroom
    have hmost : item.1.needs axis / ratio ≤ mostNeeded axis children ratios := needs_le_most hratio
    rw [Rect.span_slice, ← div_le_iff₀ hpos]
    linarith
  · rw [if_neg (Ne.symm haxis)] at hroom
    rw [Rect.span_slice_of_ne haxis]
    exact (needs_le_across (List.of_mem_zip hratio).1).trans hroom

theorem get?_layoutChildren_of {id : ℕ} (h : ∀ child ∈ children, ∀ rect map,
      (child.layoutNode rect map).get? id = map.get? id) :
    (layoutChildren kind rect available offset children ratios map).get? id = map.get? id := by
  induction children generalizing offset ratios map with
  | nil => rfl
  | cons child children ih =>
    rw [layoutChildren, ih fun c hc => h c (List.mem_cons_of_mem _ hc)]
    exact h child (List.mem_cons_self ..) _ _

theorem get?_layoutNode {id : ℕ} (node : PanelNode V) (rect : Rect) (map : IndexMap ℕ Rect)
    (h : id ∉ node.ids) : (node.layoutNode rect map).get? id = map.get? id := by
  induction node using induct generalizing rect map with
  | leaf pane =>
    rw [layoutNode, IndexMap.get?_insert]
    exact if_neg (by simpa using h)
  | split kind children ratios ih =>
    rw [layoutNode]
    apply get?_layoutChildren_of
    intro child hmem rect map
    apply ih child hmem
    intro hid
    exact h (by rw [ids_split]; exact List.mem_flatMap.mpr ⟨child, hmem, hid⟩)

theorem get?_layoutChildren {id : ℕ} (h : id ∉ children.flatMap ids) :
    (layoutChildren kind rect available offset children ratios map).get? id = map.get? id := by
  apply get?_layoutChildren_of
  intro child hmem rect map
  apply get?_layoutNode
  exact fun hid => h (List.mem_flatMap.mpr ⟨child, hmem, hid⟩)

theorem keys_layoutChildren_of (hnodup : (map.keys ++ children.flatMap ids).Nodup)
    (h : ∀ child ∈ children, ∀ rect (map : IndexMap ℕ Rect), (map.keys ++ child.ids).Nodup →
      (child.layoutNode rect map).keys = map.keys ++ child.ids) :
    (layoutChildren kind rect available offset children ratios map).keys =
      map.keys ++ children.flatMap ids := by
  induction children generalizing offset ratios map with
  | nil => simp [layoutChildren]
  | cons child children ih =>
    rw [List.flatMap_cons, ← List.append_assoc] at hnodup ⊢
    have hchild := h child (List.mem_cons_self ..)
      (rect.slice kind offset (available * ratios.headD 0)) map (List.nodup_append.mp hnodup).1
    rw [layoutChildren, ih (by rwa [hchild]) fun c hc => h c (List.mem_cons_of_mem _ hc), hchild]

theorem keys_layoutNode (node : PanelNode V) (rect : Rect) (map : IndexMap ℕ Rect)
    (h : (map.keys ++ node.ids).Nodup) : (node.layoutNode rect map).keys = map.keys ++ node.ids := by
  induction node using induct generalizing rect map with
  | leaf pane =>
    have hnew : pane.panelId ∉ map.keys := by
      intro hold
      exact (List.nodup_append.mp h).2.2 _ hold _ (by simp) rfl
    rw [layoutNode, IndexMap.keys, IndexMap.entries_insert_of_notMem hnew, List.map_append]
    rfl
  | split kind children ratios ih =>
    rw [ids_split] at h ⊢
    exact keys_layoutChildren_of h ih

/-- The loop tiles the children when each of them is tiled on its own: what is laid out later
belongs to other leaves. -/
theorem tiles_layoutChildren (length : ratios.length = children.length)
    (nodup : (children.flatMap ids).Nodup)
    (h : ∀ item ∈ children.zip (areas kind rect available offset ratios),
      ∀ map, Tiles (item.1.layoutNode item.2 map) item.1 item.2) :
    ∀ item ∈ children.zip (areas kind rect available offset ratios),
      Tiles (layoutChildren kind rect available offset children ratios map) item.1 item.2 := by
  induction children generalizing offset ratios map with
  | nil => simp
  | cons child children ih =>
    cases ratios with
    | nil => cases length
    | cons ratio ratios =>
      rw [List.flatMap_cons, List.nodup_append] at nodup
      rw [areas, List.zip_cons_cons, List.forall_mem_cons] at h ⊢
      refine ⟨?_, ih (Nat.succ.inj length) nodup.2.1 h.2⟩
      refine (h.1 map).frame ?_
      intro id hid
      rw [layoutChildren, get?_layoutChildren]
      · rfl
      · intro hrest
        exact nodup.2.2 id hid id hrest rfl

theorem tiles_layoutNode (h : WellSplit node) (nodup : node.ids.Nodup) (hfits : node.Fits rect)
    (map : IndexMap ℕ Rect) : Tiles (node.layoutNode rect map) node rect := by
  induction h generalizing rect map with
  | @leaf pane =>
    refine .leaf (fun axis => by simpa [needs] using hfits axis) ?_
    rw [layoutNode, IndexMap.get?_insert, if_pos rfl]
  | @split kind children ratios two divides all ih =>
    have hwell : WellSplit (split kind children ratios) := .split two divides all
    rw [ids_split] at nodup
    have hlength : (areas kind rect (rect.span kind - splitter * (children.length - 1))
        (rect.start kind) ratios).length = children.length :=
      length_areas.trans divides.length
    refine .split (fun axis => (needs_nonneg hwell).trans (hfits axis)) _ hlength ?_ ?_ ?_
    · apply consecutive_areas
      · rintro rfl
        have := divides.length
        simp only [List.length_nil] at this
        omega
      · rw [divides.sum, divides.length, Rect.finish]
        ring
    · intro area harea axis haxis
      obtain ⟨start, ratio, -, rfl⟩ := mem_areas harea
      exact ⟨Rect.start_slice_of_ne haxis, Rect.span_slice_of_ne haxis⟩
    · rw [layoutNode]
      apply tiles_layoutChildren divides.length nodup
      intro item hitem map
      have hmem := (List.of_mem_zip hitem).1
      exact ih item.1 hmem (List.nodup_flatMap.mp nodup |>.1 item.1 hmem)
        (fits_of_split divides hfits hitem) map

end PanelNode

namespace PanelTree
variable {V : Type*}

def computeRects (tree : PanelTree V) (viewport : Rect) : IndexMap ℕ Rect :=
  tree.root.layoutNode viewport .empty

/-- The panes fill the viewport: consecutive at every split, inside, disjoint, and one rectangle for
every leaf. -/
structure Laid (tree : PanelTree V) (viewport : Rect) (rects : IndexMap ℕ Rect) : Prop where
  tiles : PanelNode.Tiles rects tree.root viewport
  inside : ∀ id rect, rects.get? id = some rect → rect.Inside viewport
  disjoint : ∀ first second a b, rects.get? first = some a → rects.get? second = some b →
    first ≠ second → Disjoint a.points b.points
  each : rects.keys = tree.leaves.map Leaf.panelId

theorem computeRects_laid {tree : PanelTree V} {viewport : Rect}
    (wellSplit : PanelNode.WellSplit tree.root)
    (nodup : (tree.leaves.map Leaf.panelId).Nodup) (hfits : tree.root.Fits viewport) :
    tree.Laid viewport (tree.computeRects viewport) := by
  have htiles := PanelNode.tiles_layoutNode wellSplit nodup hfits .empty
  have hkeys : (tree.computeRects viewport).keys = tree.leaves.map Leaf.panelId :=
    PanelNode.keys_layoutNode tree.root viewport .empty nodup
  have hpane : ∀ id rect, (tree.computeRects viewport).get? id = some rect →
      ∃ pane ∈ tree.leaves, pane.panelId = id := by
    intro id rect hget
    have hid : id ∈ (tree.computeRects viewport).keys :=
      IndexMap.mem_keys.mpr ⟨rect, IndexMap.get?_eq_some.mp hget⟩
    rw [hkeys] at hid
    exact List.mem_map.mp hid
  refine ⟨htiles, ?_, ?_, hkeys⟩
  · intro id rect hget
    obtain ⟨pane, hmem, rfl⟩ := hpane id rect hget
    obtain ⟨area, harea, hinside⟩ := htiles.inside pane hmem
    cases harea.symm.trans hget
    exact hinside
  · intro first second a b ha hb hne
    obtain ⟨pane, hmem, rfl⟩ := hpane first a ha
    obtain ⟨other, hother, rfl⟩ := hpane second b hb
    have hpanes : pane ≠ other := fun heq => hne (congrArg Leaf.panelId heq)
    exact (htiles.apart_of_ne hmem hother hpanes ha hb).disjoint

/-- A pane beside a column of two. -/
def nestedTree : PanelTree Unit where
  root := .split .row [.leaf ⟨1, ()⟩, .split .column [.leaf ⟨2, ()⟩, .leaf ⟨3, ()⟩] [1 / 2, 1 / 2]]
    [1 / 2, 1 / 2]
  nextPanelId := 4

theorem computeRects_laid_nested :
    nestedTree.Laid ⟨0, 0, 404, 204⟩ (nestedTree.computeRects ⟨0, 0, 404, 204⟩) := by
  refine computeRects_laid (.split le_rfl PanelNode.divides_half ?_) (by decide) ?_
  · simp only [List.forall_mem_cons, List.not_mem_nil, false_implies, implies_true, and_true]
    exact ⟨.leaf, .split le_rfl PanelNode.divides_half (by simp [PanelNode.WellSplit.leaf])⟩
  · intro axis
    cases axis
    · simp [nestedTree, PanelNode.needs, PanelNode.mostNeeded, splitter, Rect.span]
      norm_num
    · simp [nestedTree, PanelNode.needs, PanelNode.mostNeeded, splitter, Rect.span]
      norm_num

end PanelTree
end PiDeck.Panels
