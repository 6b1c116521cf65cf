import Mathlib

/-! A tree of panels. Its leaves show one view each and its splits divide their area between two or
more children. An edit is known by what it does to the list of leaves, which keeps the order on the
screen, and by keeping every split well formed. -/
namespace PiDeck.Panels

inductive Edge
  | left
  | right
  | top
  | bottom
  | center
  deriving DecidableEq, Repr

inductive SplitKind
  | row
  | column
  deriving DecidableEq, Repr

structure Leaf (V : Type*) where
  panelId : ℕ
  view : V
  deriving DecidableEq, Repr

inductive PanelNode (V : Type*)
  | leaf (pane : Leaf V)
  | split (kind : SplitKind) (children : List (PanelNode V)) (ratios : List ℚ)

namespace PanelNode
variable {V : Type*} {node : PanelNode V} {children : List (PanelNode V)} {panel created : ℕ}
  {view : V} {edge : Edge} {path : List ℕ}

/-- Induction over nodes; a split has the hypothesis for all of its children. -/
@[elab_as_elim]
theorem induct {P : PanelNode V → Prop} (leaf : ∀ pane, P (.leaf pane))
    (split : ∀ kind children ratios, (∀ child ∈ children, P child) →
      P (.split kind children ratios)) (node : PanelNode V) : P node := by
  refine @PanelNode.rec V P (fun children => ∀ child ∈ children, P child) leaf split ?nil ?cons node
  case nil => simp
  case cons =>
    intro child children hchild hchildren
    exact List.forall_mem_cons.mpr ⟨hchild, hchildren⟩

mutual
/-- What `visitLeaves` visits. -/
def leaves : PanelNode V → List (Leaf V)
  | .leaf pane => [pane]
  | .split _ children _ => leavesOf children
def leavesOf : List (PanelNode V) → List (Leaf V)
  | [] => []
  | child :: children => child.leaves ++ leavesOf children
end

mutual
def setView (panel : ℕ) (view : V) : PanelNode V → PanelNode V
  | .leaf pane => .leaf (if pane.panelId = panel then ⟨pane.panelId, view⟩ else pane)
  | .split kind children ratios => .split kind (setViews panel view children) ratios
def setViews (panel : ℕ) (view : V) : List (PanelNode V) → List (PanelNode V)
  | [] => []
  | child :: children => child.setView panel view :: setViews panel view children
end

/-- `mapNode` with the replacement of `splitAtEdge`, which replaces leaves only. -/
def replaceLeaf (panel created : ℕ) (view : V) (edge : Edge) (pane : Leaf V) : PanelNode V :=
  if pane.panelId = panel then
    let newLeaf : PanelNode V := .leaf ⟨created, view⟩
    let kind := if edge = .left ∨ edge = .right then SplitKind.row else .column
    if edge = .right ∨ edge = .bottom then .split kind [.leaf pane, newLeaf] [1 / 2, 1 / 2]
    else .split kind [newLeaf, .leaf pane] [1 / 2, 1 / 2]
  else .leaf pane

mutual
def mapNode (replace : Leaf V → PanelNode V) : PanelNode V → PanelNode V
  | .leaf pane => replace pane
  | .split kind children ratios => .split kind (mapNodes replace children) ratios
def mapNodes (replace : Leaf V → PanelNode V) : List (PanelNode V) → List (PanelNode V)
  | [] => []
  | child :: children => child.mapNode replace :: mapNodes replace children
end

def rebalanceRatios (n : ℕ) : List ℚ := List.replicate n (1 / n)

/-- A split that loses children divides its area anew; one child takes its place. -/
def withChildren (kind : SplitKind) : List (PanelNode V) → Option (PanelNode V)
  | [] => none
  | [child] => some child
  | children => some (.split kind children (rebalanceRatios children.length))

mutual
def removePanel (panel : ℕ) : PanelNode V → Option (PanelNode V)
  | .leaf pane => if pane.panelId = panel then none else some (.leaf pane)
  | .split kind children _ => withChildren kind (removePanels panel children)
def removePanels (panel : ℕ) : List (PanelNode V) → List (PanelNode V)
  | [] => []
  | child :: children => (child.removePanel panel).toList ++ removePanels panel children
end

/-- The checks on the ratios that a split is to get, and what it gets. A ratio that is no finite
number is `none`. -/
def normalizeRatios (old : List ℚ) (count : ℕ) (ratios : List (Option ℚ)) : Option (List ℚ) :=
  if ratios.length ≠ count then none
  else if ratios.any (fun ratio => ratio.all (· ≤ 0)) then none
  else
    let finite := ratios.reduceOption
    if finite.sum ≤ 0 then none
    else
      let next := finite.map (· / finite.sum)
      if (next.zip old).any (fun (ratio, old) => 1 / 1000 < |ratio - old|) then some next else none

/-- `setSplitRatios`; the node at the path is changed in place. -/
def setSplitRatios (ratios : List (Option ℚ)) : List ℕ → PanelNode V → Option (PanelNode V)
  | _, .leaf _ => none
  | [], .split kind children old =>
    (normalizeRatios old children.length ratios).map (.split kind children)
  | index :: path, .split kind children old =>
    children[index]?.bind fun child =>
      (setSplitRatios ratios path child).map fun child =>
        .split kind (children.set index child) old

/-- Ratios of `count` children: all positive, with sum one. -/
structure Divides (ratios : List ℚ) (count : ℕ) : Prop where
  length : ratios.length = count
  pos : ∀ ratio ∈ ratios, 0 < ratio
  sum : ratios.sum = 1

inductive WellSplit : PanelNode V → Prop
  | leaf {pane : Leaf V} : WellSplit (.leaf pane)
  | split {kind : SplitKind} {children : List (PanelNode V)} {ratios : List ℚ}
      (two : 2 ≤ children.length) (divides : Divides ratios children.length)
      (all : ∀ child ∈ children, WellSplit child) : WellSplit (.split kind children ratios)

@[simp] theorem leaves_leaf (pane : Leaf V) : (PanelNode.leaf pane).leaves = [pane] := rfl

@[simp] theorem leavesOf_eq : ∀ children : List (PanelNode V),
    leavesOf children = children.flatMap leaves
  | [] => rfl
  | child :: children => by rw [leavesOf, leavesOf_eq children, List.flatMap_cons]

@[simp] theorem leaves_split (kind : SplitKind) (children : List (PanelNode V)) (ratios : List ℚ) :
    (PanelNode.split kind children ratios).leaves = children.flatMap leaves := leavesOf_eq children

theorem setViews_eq : ∀ children : List (PanelNode V),
    setViews panel view children = children.map (setView panel view)
  | [] => rfl
  | child :: children => by rw [setViews, setViews_eq children, List.map_cons]

theorem mapNodes_eq (replace : Leaf V → PanelNode V) : ∀ children : List (PanelNode V),
    mapNodes replace children = children.map (mapNode replace)
  | [] => rfl
  | child :: children => by rw [mapNodes, mapNodes_eq replace children, List.map_cons]

theorem removePanels_eq : ∀ children : List (PanelNode V),
    removePanels panel children = children.filterMap (removePanel panel)
  | [] => rfl
  | child :: children => by
    rw [removePanels, removePanels_eq children]
    cases h : child.removePanel panel <;> simp [h]

/-- A map of the leaves under each child is a map of all leaves. -/
theorem flatMap_flatMap_congr {f : PanelNode V → PanelNode V} {g : Leaf V → List (Leaf V)}
    (ih : ∀ child ∈ children, (f child).leaves = child.leaves.flatMap g) :
    (children.map f).flatMap leaves = (children.flatMap leaves).flatMap g := by
  rw [List.flatMap_map, List.flatMap_assoc]
  exact List.flatMap_congr ih

theorem leaves_setView (node : PanelNode V) : (node.setView panel view).leaves =
    node.leaves.map (fun pane => if pane.panelId = panel then ⟨pane.panelId, view⟩ else pane) := by
  rw [List.map_eq_flatMap]
  induction node using induct with
  | leaf pane => rfl
  | split kind children ratios ih =>
    rw [setView, setViews_eq, leaves_split, leaves_split]
    exact flatMap_flatMap_congr ih

theorem leaves_mapNode (replace : Leaf V → PanelNode V) (node : PanelNode V) :
    (node.mapNode replace).leaves = node.leaves.flatMap (fun pane => (replace pane).leaves) := by
  induction node using induct with
  | leaf pane => simp [mapNode]
  | split kind children ratios ih =>
    rw [mapNode, mapNodes_eq, leaves_split, leaves_split]
    exact flatMap_flatMap_congr ih

theorem leaves_withChildren (kind : SplitKind) : ∀ children : List (PanelNode V),
    (withChildren kind children).toList.flatMap leaves = children.flatMap leaves
  | [] => rfl
  | [child] => rfl
  | child :: next :: children => by simp [withChildren]

theorem leaves_removePanel (panel : ℕ) (node : PanelNode V) :
    (node.removePanel panel).toList.flatMap leaves =
      node.leaves.filter (fun pane => pane.panelId ≠ panel) := by
  induction node using induct with
  | leaf pane =>
    by_cases h : pane.panelId = panel
    · simp [removePanel, h]
    · simp [removePanel, h]
  | split kind children ratios ih =>
    rw [removePanel, leaves_withChildren, removePanels_eq, leaves_split]
    induction children with
    | nil => rfl
    | cons child children ihc =>
      have hchild := ih child (List.mem_cons_self ..)
      have hrest := ihc fun c hc => ih c (List.mem_cons_of_mem _ hc)
      rw [List.flatMap_cons, List.filter_append, ← hchild, ← hrest]
      cases h : child.removePanel panel <;> simp [h]

/-- Views and identifiers of panes are independent. -/
theorem removePanel_setView {target : ℕ} (node : PanelNode V) :
    (node.setView target view).removePanel panel =
      (node.removePanel panel).map (setView target view) := by
  induction node using induct with
  | leaf pane =>
    by_cases htarget : pane.panelId = target
    · by_cases h : pane.panelId = panel
      · simp [setView, removePanel, htarget, ← h]
      · simp only [setView, removePanel, if_pos htarget, if_neg h, Option.map_some]
    · by_cases h : pane.panelId = panel
      · simp only [setView, removePanel, if_neg htarget, if_pos h, Option.map_none]
      · simp only [setView, removePanel, if_neg htarget, if_neg h, Option.map_some]
  | split kind children ratios ih =>
    have hchildren : removePanels panel (setViews target view children) =
        (removePanels panel children).map (setView target view) := by
      rw [removePanels_eq, removePanels_eq, setViews_eq, List.filterMap_map, List.map_filterMap]
      exact List.filterMap_congr ih
    rw [setView, removePanel, removePanel, hchildren]
    match removePanels panel children with
    | [] => rfl
    | [child] => rfl
    | child :: next :: children => simp [withChildren, setView, setViews_eq]

/-- A view that is set again does not matter. -/
theorem setView_shadow {source target : ℕ} {old moved : V} (hne : source ≠ target)
    (node : PanelNode V) :
    ((node.setView target old).setView source view).setView target moved =
      (node.setView source view).setView target moved := by
  induction node using induct with
  | leaf pane =>
    by_cases htarget : pane.panelId = target
    · simp [setView, htarget, hne.symm]
    · simp [setView, htarget]
  | split kind children ratios ih =>
    simp only [setView, setViews_eq, List.map_map]
    exact congrArg (fun children => split kind children ratios) (List.map_congr_left ih)

theorem leaves_setSplitRatios {ratios : List (Option ℚ)} {node' : PanelNode V}
    (h : setSplitRatios ratios path node = some node') : node'.leaves = node.leaves := by
  induction path generalizing node node' with
  | nil =>
    cases node with
    | leaf pane => simp [setSplitRatios] at h
    | split kind children old =>
      obtain ⟨next, -, rfl⟩ := Option.map_eq_some_iff.mp h
      simp
  | cons index path ih =>
    cases node with
    | leaf pane => simp [setSplitRatios] at h
    | split kind children old =>
      obtain ⟨child, hchild, h⟩ := Option.bind_eq_some_iff.mp h
      obtain ⟨child', hset, rfl⟩ := Option.map_eq_some_iff.mp h
      rw [leaves_split, leaves_split]
      obtain ⟨hlt, hget⟩ := List.getElem?_eq_some_iff.mp hchild
      have hsame : children.set index child' = children.take index ++ child' ::
          children.drop (index + 1) := List.set_eq_take_append_cons_drop.trans (if_pos hlt)
      have hsplit : children = children.take index ++ child :: children.drop (index + 1) := by
        conv_lhs => rw [← List.take_append_drop index children, List.drop_eq_getElem_cons hlt, hget]
      rw [hsame, List.flatMap_append, List.flatMap_cons, ih hset]
      conv_rhs => rw [hsplit, List.flatMap_append, List.flatMap_cons]

theorem divides_half : Divides [1 / 2, 1 / 2] 2 where
  length := rfl
  pos := by simp
  sum := by norm_num

theorem divides_rebalance {n : ℕ} (h : 0 < n) : Divides (rebalanceRatios n) n where
  length := List.length_replicate
  pos := by
    intro ratio hr
    rw [List.eq_of_mem_replicate hr]
    positivity
  sum := by
    have hn : (n : ℚ) ≠ 0 := Nat.cast_ne_zero.mpr (Nat.pos_iff_ne_zero.mp h)
    rw [rebalanceRatios, List.sum_replicate, nsmul_eq_mul]
    field_simp

theorem divides_normalize {old next : List ℚ} {count : ℕ} {ratios : List (Option ℚ)}
    (h : normalizeRatios old count ratios = some next) : Divides next count := by
  unfold normalizeRatios at h
  dsimp only at h
  split at h
  · cases h
  rename_i hlength
  split at h
  · cases h
  rename_i hall
  split at h
  · cases h
  rename_i hsum
  split at h
  · cases h
    have hpos : ∀ ratio ∈ ratios, ∃ q, ratio = some q ∧ 0 < q := by
      intro ratio hr
      have hbad : ¬ratio.all (· ≤ 0) = true := fun hb => hall (List.any_eq_true.mpr ⟨ratio, hr, hb⟩)
      cases ratio with
      | none => simp at hbad
      | some q => exact ⟨q, rfl, by simpa using hbad⟩
    have hcount : ratios.reduceOption.length = ratios.length := by
      rw [List.reduceOption_length_eq_iff]
      intro ratio hr
      obtain ⟨q, rfl, -⟩ := hpos ratio hr
      rfl
    refine ⟨?_, ?_, ?_⟩
    · rw [List.length_map, hcount]
      exact not_not.mp hlength
    · intro ratio hr
      obtain ⟨q, hq, rfl⟩ := List.mem_map.mp hr
      obtain ⟨q', hq', hq0⟩ := hpos (some q) (List.reduceOption_mem_iff.mp hq)
      cases hq'
      exact div_pos hq0 (not_le.mp hsum)
    · rw [show (fun q : ℚ => q / ratios.reduceOption.sum) =
        (fun q => q * (ratios.reduceOption.sum)⁻¹) from funext fun q => div_eq_mul_inv ..,
        List.sum_map_mul_right, List.map_id']
      exact mul_inv_cancel₀ (not_le.mp hsum).ne'
  · cases h

theorem WellSplit.setView (h : WellSplit node) : WellSplit (node.setView panel view) := by
  induction h with
  | leaf => exact .leaf
  | split two divides all ih =>
    rw [PanelNode.setView, setViews_eq]
    refine .split (by simpa using two) (by simpa using divides) ?_
    intro child hchild
    obtain ⟨old, hold, rfl⟩ := List.mem_map.mp hchild
    exact ih old hold

theorem WellSplit.mapNode {replace : Leaf V → PanelNode V} (h : WellSplit node)
    (hreplace : ∀ pane, WellSplit (replace pane)) : WellSplit (node.mapNode replace) := by
  induction h with
  | leaf => exact hreplace _
  | split two divides all ih =>
    rw [PanelNode.mapNode, mapNodes_eq]
    refine .split (by simpa using two) (by simpa using divides) ?_
    intro child hchild
    obtain ⟨old, hold, rfl⟩ := List.mem_map.mp hchild
    exact ih old hold

theorem wellSplit_replaceLeaf (pane : Leaf V) :
    WellSplit (replaceLeaf panel created view edge pane) := by
  unfold replaceLeaf
  dsimp only
  split
  · split
    · exact .split le_rfl divides_half (by simp [WellSplit.leaf])
    · exact .split le_rfl divides_half (by simp [WellSplit.leaf])
  · exact .leaf

theorem wellSplit_withChildren (kind : SplitKind) (h : ∀ child ∈ children, WellSplit child)
    (hnode : withChildren kind children = some node) : WellSplit node := by
  match children, hnode with
  | [child], hnode =>
    cases hnode
    exact h _ (List.mem_cons_self ..)
  | child :: next :: children, hnode =>
    cases hnode
    exact .split (by simp) (divides_rebalance (by simp)) h

theorem WellSplit.removePanel {node' : PanelNode V} (h : WellSplit node)
    (hnode : node.removePanel panel = some node') : WellSplit node' := by
  induction h generalizing node' with
  | leaf =>
    rw [PanelNode.removePanel] at hnode
    split at hnode
    · cases hnode
    · cases hnode
      exact .leaf
  | @split kind children ratios two divides all ih =>
    rw [PanelNode.removePanel, removePanels_eq] at hnode
    refine wellSplit_withChildren kind ?_ hnode
    intro child hchild
    obtain ⟨old, hold, hremoved⟩ := List.mem_filterMap.mp hchild
    exact ih old hold hremoved

theorem WellSplit.setSplitRatios {ratios : List (Option ℚ)} {node' : PanelNode V}
    (h : WellSplit node) (hnode : PanelNode.setSplitRatios ratios path node = some node') :
    WellSplit node' := by
  induction path generalizing node node' with
  | nil =>
    cases h with
    | leaf => simp [PanelNode.setSplitRatios] at hnode
    | split two divides all =>
      obtain ⟨next, hnext, rfl⟩ := Option.map_eq_some_iff.mp hnode
      exact .split two (divides_normalize hnext) all
  | cons index path ih =>
    cases h with
    | leaf => simp [PanelNode.setSplitRatios] at hnode
    | split two divides all =>
      obtain ⟨child, hchild, hnode⟩ := Option.bind_eq_some_iff.mp hnode
      obtain ⟨child', hset, rfl⟩ := Option.map_eq_some_iff.mp hnode
      refine .split (by simpa using two) (by simpa using divides) ?_
      intro c hc
      rcases List.mem_or_eq_of_mem_set hc with hc | rfl
      · exact all c hc
      · exact ih (all child (List.mem_of_getElem? hchild)) hset

end PanelNode
end PiDeck.Panels
