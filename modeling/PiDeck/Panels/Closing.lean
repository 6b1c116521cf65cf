import Mathlib
import PiDeck.Panels.Workspace

/-! What the closing of a panel does to the splits around it. A closing is described by the ratios
that a split gets for the children that remain; the code and a closing that keeps to the sides of
the panel are two of these descriptions, and they agree where their ratios agree. -/
namespace PiDeck.Panels

namespace PanelNode
variable {V : Type*} {node sub : PanelNode V} {children : List (PanelNode V)} {kind : SplitKind}
  {ratios : List ℚ} {panel : ℕ}

/-- What remains of a split, with the ratios that `share` gives to two or more children. -/
def collapse (kind : SplitKind) (share : List (PanelNode V) → List ℚ) :
    List (PanelNode V) → Option (PanelNode V)
  | [] => none
  | [child] => some child
  | children => some (.split kind children (share children))

mutual
/-- The closing of a panel where `share` sees the children and ratios that a split had and the
children that remain. -/
def closeWith (share : List (PanelNode V) → List ℚ → List (PanelNode V) → List ℚ) (panel : ℕ) :
    PanelNode V → Option (PanelNode V)
  | .leaf pane => if pane.panelId = panel then none else some (.leaf pane)
  | .split kind children ratios =>
    collapse kind (share children ratios) (closeAllWith share panel children)
def closeAllWith (share : List (PanelNode V) → List ℚ → List (PanelNode V) → List ℚ) (panel : ℕ) :
    List (PanelNode V) → List (PanelNode V)
  | [] => []
  | child :: children => (child.closeWith share panel).toList ++ closeAllWith share panel children
end

/-- The panel itself, and not a split around it. -/
def isPanel (panel : ℕ) : PanelNode V → Bool
  | .leaf pane => pane.panelId = panel
  | .split .. => false

/-- The panel is a direct child. -/
def holdsPanel (panel : ℕ) (children : List (PanelNode V)) : Bool := children.any (isPanel panel)

/-- Something else than the panel is shown there. -/
def remains (panel : ℕ) (node : PanelNode V) : Bool :=
  node.leaves.any (fun pane => pane.panelId ≠ panel)

/-- A split that holds the panel gets what `share` gives; every other split keeps its ratios. -/
def closeLocally (share : List (PanelNode V) → List ℚ) (panel : ℕ) :
    PanelNode V → Option (PanelNode V) :=
  closeWith (fun children ratios kept => if holdsPanel panel children then share kept else ratios)
    panel

/-- A node and the nodes below it. -/
inductive Within (sub : PanelNode V) : PanelNode V → Prop
  | refl : Within sub sub
  | deeper {kind : SplitKind} {children : List (PanelNode V)} {ratios : List ℚ}
      {child : PanelNode V} : child ∈ children → Within sub child →
      Within sub (.split kind children ratios)

/-- Every split that does not hold the panel divides its area evenly between the children that
remain, or has less than two of these. -/
def EvenElsewhere (panel : ℕ) (node : PanelNode V) : Prop :=
  ∀ kind children ratios, Within (.split kind children ratios) node →
    holdsPanel panel children = false → 2 ≤ (children.filter (remains panel)).length →
    ratios = rebalanceRatios (children.filter (remains panel)).length

def Branching (node : PanelNode V) : Prop :=
  ∀ kind children ratios, Within (.split kind children ratios) node → 2 ≤ children.length

theorem within_leaf {pane : Leaf V} : Within sub (.leaf pane) ↔ sub = .leaf pane := by
  constructor
  · intro h
    cases h
    rfl
  · rintro rfl
    exact .refl

theorem within_split : Within sub (.split kind children ratios) ↔
    sub = .split kind children ratios ∨ ∃ child ∈ children, Within sub child := by
  constructor
  · intro h
    cases h with
    | refl => exact .inl rfl
    | deeper hmem hsub => exact .inr ⟨_, hmem, hsub⟩
  · rintro (rfl | ⟨child, hmem, hsub⟩)
    · exact .refl
    · exact .deeper hmem hsub

/-- A statement about all splits below a split is one about the split and one about its children. -/
theorem forall_within_split {P : SplitKind → List (PanelNode V) → List ℚ → Prop} :
    (∀ k c r, Within (.split k c r) (.split kind children ratios) → P k c r) ↔
      P kind children ratios ∧
        ∀ child ∈ children, ∀ k c r, Within (.split k c r) child → P k c r := by
  constructor
  · intro h
    exact ⟨h _ _ _ .refl, fun child hmem k c r hsub => h k c r (.deeper hmem hsub)⟩
  · rintro ⟨hself, hbelow⟩ k c r hsub
    rcases within_split.mp hsub with heq | ⟨child, hmem, hsub⟩
    · cases heq
      exact hself
    · exact hbelow child hmem k c r hsub

theorem branching_split : (PanelNode.split kind children ratios).Branching ↔
    2 ≤ children.length ∧ ∀ child ∈ children, child.Branching :=
  forall_within_split (P := fun _ children _ => 2 ≤ children.length)

theorem closeAllWith_eq {share : List (PanelNode V) → List ℚ → List (PanelNode V) → List ℚ} :
    ∀ children : List (PanelNode V),
      closeAllWith share panel children = children.filterMap (closeWith share panel)
  | [] => rfl
  | child :: children => by
    rw [closeAllWith, closeAllWith_eq children]
    cases h : child.closeWith share panel <;> simp [h]

theorem collapse_eq_none {share : List (PanelNode V) → List ℚ} :
    collapse kind share children = none ↔ children = [] := by
  match children with
  | [] => simp [collapse]
  | [child] => simp [collapse]
  | child :: next :: children => simp [collapse]

theorem collapse_inj {share other : List (PanelNode V) → List ℚ} {kept : List (PanelNode V)}
    (h : children.length = kept.length) :
    collapse kind share children = collapse kind other kept ↔
      children = kept ∧ (2 ≤ children.length → share children = other kept) := by
  match children, kept, h with
  | [], [], _ => simp [collapse]
  | [child], [other], _ => simp [collapse]
  | child :: next :: children, other :: after :: kept, _ =>
    simp only [collapse, Option.some.injEq, PanelNode.split.injEq, true_and]
    simp

/-- Two descriptions of a closing remove the same nodes. -/
theorem closeWith_eq_none {share : List (PanelNode V) → List ℚ → List (PanelNode V) → List ℚ}
    (node : PanelNode V) :
    node.closeWith share panel = none ↔ node.remains panel = false := by
  induction node using induct with
  | leaf pane => by_cases h : pane.panelId = panel <;> simp [closeWith, remains, h]
  | split kind children ratios ih =>
    rw [closeWith, collapse_eq_none, closeAllWith_eq, List.filterMap_eq_nil_iff]
    have hsplit : (PanelNode.split kind children ratios).remains panel = false ↔
        ∀ child ∈ children, child.remains panel = false := by
      simp only [remains, leaves_split, List.any_flatMap, List.any_eq_false, Bool.not_eq_true]
    rw [hsplit]
    exact forall₂_congr ih

theorem filterMap_length {α β : Type*} {f : α → Option β} {p : α → Bool} {xs : List α}
    (h : ∀ x ∈ xs, f x = none ↔ p x = false) :
    (xs.filterMap f).length = (xs.filter p).length := by
  rw [List.length_filterMap_eq_countP, List.countP_eq_length_filter]
  congr 1
  apply List.filter_congr
  intro x hx
  rw [Bool.eq_iff_iff, Option.isSome_iff_ne_none, ne_eq, h x hx, Bool.not_eq_false]

/-- Two maps that drop the same elements agree on a list where they agree on its elements. -/
theorem filterMap_inj {α β : Type*} {f g : α → Option β} {xs : List α}
    (h : ∀ x ∈ xs, f x = none ↔ g x = none) :
    xs.filterMap f = xs.filterMap g ↔ ∀ x ∈ xs, f x = g x := by
  induction xs with
  | nil => simp
  | cons x xs ih =>
    have hrest := ih fun y hy => h y (List.mem_cons_of_mem _ hy)
    have hx := h x (List.mem_cons_self ..)
    rw [List.forall_mem_cons, ← hrest]
    cases hf : f x with
    | none =>
      have hg : g x = none := hx.mp hf
      simp [hf, hg]
    | some y =>
      cases hg : g x with
      | none => simp [hf, hg] at hx
      | some z => simp [hf, hg]

theorem length_closeAllWith
    {share : List (PanelNode V) → List ℚ → List (PanelNode V) → List ℚ} :
    (closeAllWith share panel children).length = (children.filter (remains panel)).length := by
  rw [closeAllWith_eq]
  exact filterMap_length fun child _ => closeWith_eq_none child

/-- Two descriptions of a closing agree on a node where they give the same ratios to every split of
it that stays a split. -/
theorem closeWith_eq_iff
    {share other : List (PanelNode V) → List ℚ → List (PanelNode V) → List ℚ}
    (node : PanelNode V) :
    node.closeWith share panel = node.closeWith other panel ↔
      ∀ kind children ratios, Within (.split kind children ratios) node →
        2 ≤ (children.filter (remains panel)).length →
        share children ratios (closeAllWith share panel children) =
          other children ratios (closeAllWith other panel children) := by
  induction node using induct with
  | leaf pane => simp [closeWith, within_leaf]
  | split kind children ratios ih =>
    have hlength : (closeAllWith share panel children).length =
        (closeAllWith other panel children).length := by
      rw [length_closeAllWith, length_closeAllWith]
    rw [closeWith, closeWith, collapse_inj hlength, length_closeAllWith, forall_within_split,
      and_comm]
    apply and_congr_right
    intro _
    rw [closeAllWith_eq, closeAllWith_eq, filterMap_inj]
    · exact forall₂_congr ih
    · intro child _
      rw [closeWith_eq_none, closeWith_eq_none]

/-- The code shares the area of every split anew. -/
theorem removePanel_eq (node : PanelNode V) : node.removePanel panel =
    node.closeWith (fun _ _ kept => rebalanceRatios kept.length) panel := by
  induction node using induct with
  | leaf pane => rfl
  | split kind children ratios ih =>
    rw [removePanel, closeWith, removePanels_eq, closeAllWith_eq, List.filterMap_congr ih]
    generalize children.filterMap _ = kept
    rcases kept with - | ⟨child, - | ⟨next, kept⟩⟩ <;> rfl

theorem removePanel_eq_none :
    node.removePanel panel = none ↔ node.remains panel = false := by
  rw [removePanel_eq, closeWith_eq_none]

theorem removePanel_local_iff :
    (∃ share, node.removePanel panel = node.closeLocally share panel) ↔
      node.EvenElsewhere panel := by
  constructor
  · rintro ⟨share, h⟩ kind children ratios hsub hholds htwo
    rw [removePanel_eq, closeLocally, closeWith_eq_iff] at h
    have hratios := h kind children ratios hsub htwo
    rw [length_closeAllWith, hholds] at hratios
    exact hratios.symm
  · intro h
    refine ⟨fun kept => rebalanceRatios kept.length, ?_⟩
    rw [removePanel_eq, closeLocally, closeWith_eq_iff]
    intro kind children ratios hsub htwo
    rw [length_closeAllWith]
    cases hholds : holdsPanel panel children with
    | true => rw [if_pos rfl, length_closeAllWith]
    | false => exact (h kind children ratios hsub hholds htwo).symm

mutual
def nodes : PanelNode V → ℕ
  | .leaf _ => 1
  | .split _ children _ => 1 + nodesOf children
def nodesOf : List (PanelNode V) → ℕ
  | [] => 0
  | child :: children => child.nodes + nodesOf children
end

theorem nodesOf_eq : ∀ children : List (PanelNode V), nodesOf children = (children.map nodes).sum
  | [] => rfl
  | child :: children => by rw [nodesOf, nodesOf_eq children, List.map_cons, List.sum_cons]

theorem nodes_lt_split {child : PanelNode V} (h : child ∈ children) :
    child.nodes < (PanelNode.split kind children ratios).nodes := by
  have hle := List.single_le_sum (fun _ _ => Nat.zero_le _) child.nodes
    (List.mem_map_of_mem (f := nodes) h)
  rw [nodes, nodesOf_eq]
  omega

theorem nodes_removePanel (node : PanelNode V) :
    ((node.removePanel panel).toList.map nodes).sum ≤ node.nodes := by
  induction node using induct with
  | leaf pane => by_cases h : pane.panelId = panel <;> simp [removePanel, h, nodes]
  | split kind children ratios ih =>
    have hkept : (((children.filterMap (removePanel panel))).map nodes).sum ≤
        (children.map nodes).sum := by
      induction children with
      | nil => simp
      | cons child children ihc =>
        have hchild := ih child (List.mem_cons_self ..)
        have hrest := ihc fun c hc => ih c (List.mem_cons_of_mem _ hc)
        cases h : child.removePanel panel with
        | none =>
          rw [List.filterMap_cons_none h, List.map_cons, List.sum_cons]
          omega
        | some kept =>
          simp only [h, Option.toList_some, List.map_cons, List.map_nil, List.sum_cons,
            List.sum_nil] at hchild
          rw [List.filterMap_cons_some h, List.map_cons, List.map_cons, List.sum_cons,
            List.sum_cons]
          omega
    rw [removePanel, removePanels_eq, nodes, nodesOf_eq]
    generalize children.filterMap (removePanel panel) = kept at hkept
    rcases kept with - | ⟨child, - | ⟨next, kept⟩⟩
    · simp [withChildren]
    · simp only [List.map_cons, List.map_nil, List.sum_cons, List.sum_nil] at hkept
      simp only [withChildren, Option.toList_some, List.map_cons, List.map_nil, List.sum_cons,
        List.sum_nil]
      omega
    · simp only [withChildren, Option.toList_some, List.map_cons, List.map_nil, List.sum_cons,
        List.sum_nil, nodes, nodesOf_eq] at hkept ⊢
      omega

theorem eq_some_of_filterMap_self {α : Type*} {f : α → Option α} {xs : List α}
    (h : xs.filterMap f = xs) : ∀ x ∈ xs, f x = some x := by
  induction xs with
  | nil => simp
  | cons x xs ih =>
    cases hf : f x with
    | none =>
      have hle := List.length_filterMap_le f xs
      rw [List.filterMap_cons_none hf] at h
      rw [h, List.length_cons] at hle
      omega
    | some y =>
      rw [List.filterMap_cons_some hf, List.cons.injEq] at h
      rw [List.forall_mem_cons, hf, h.1]
      exact ⟨rfl, ih h.2⟩

/-- A node with a split of one child comes out smaller. -/
theorem branching_of_removePanel (h : node.removePanel panel = some node) : node.Branching := by
  induction node using induct with
  | leaf pane =>
    intro kind children ratios hsub
    cases within_leaf.mp hsub
  | split kind children ratios ih =>
    rw [removePanel, removePanels_eq] at h
    apply branching_split.mpr
    cases hkept : children.filterMap (removePanel panel) with
    | nil => simp [hkept, withChildren] at h
    | cons first kept =>
      cases kept with
      | nil =>
        -- The only child that remains would have to be the whole split.
        simp only [hkept, withChildren, Option.some.injEq] at h
        have hmem : first ∈ children.filterMap (removePanel panel) := by simp [hkept]
        obtain ⟨child, hchild, hremoved⟩ := List.mem_filterMap.mp hmem
        have hle : ((child.removePanel panel).toList.map nodes).sum ≤ child.nodes :=
          nodes_removePanel child
        have hlt : child.nodes < (split kind children ratios).nodes := nodes_lt_split hchild
        simp only [hremoved, h, Option.toList_some, List.map_cons, List.map_nil, List.sum_cons,
          List.sum_nil] at hle
        omega
      | cons next kept =>
        simp only [hkept, withChildren, Option.some.injEq, PanelNode.split.injEq, true_and] at h
        rw [h.1] at hkept
        have hall := eq_some_of_filterMap_self hkept
        refine ⟨?_, fun child hmem => ih child hmem (hall child hmem)⟩
        rw [← h.1]
        simp

theorem remains_of_removePanel (h : node.removePanel panel = some node) :
    node.remains panel = true := by
  have hne : ¬node.removePanel panel = none := by simp [h]
  rw [removePanel_eq_none] at hne
  simpa using hne

/-- A tree that does not show the panel comes out as it was. -/
theorem removePanel_unknown (hunknown : ∀ pane ∈ node.leaves, pane.panelId ≠ panel)
    (heven : node.EvenElsewhere panel) (hbranching : node.Branching) :
    node.removePanel panel = some node := by
  induction node using induct with
  | leaf pane => simpa [removePanel] using hunknown
  | split kind children ratios ih =>
    obtain ⟨hself, hbelow⟩ := forall_within_split.mp heven
    obtain ⟨htwo, hbranches⟩ := branching_split.mp hbranching
    have hall : ∀ child ∈ children, child.removePanel panel = some child := by
      intro child hmem
      refine ih child hmem ?_ (hbelow child hmem) (hbranches child hmem)
      intro pane hpane
      exact hunknown pane (by
        rw [leaves_split]
        exact List.mem_flatMap.mpr ⟨child, hmem, hpane⟩)
    have hkept : children.filterMap (removePanel panel) = children := by
      rw [List.filterMap_congr hall, List.filterMap_some]
    have hfilter : children.filter (remains panel) = children :=
      List.filter_eq_self.mpr fun child hmem => remains_of_removePanel (hall child hmem)
    have hholds : holdsPanel panel children = false := by
      rw [holdsPanel, List.any_eq_false]
      intro child hmem
      cases child with
      | leaf pane =>
        have hne := hunknown pane (by
          rw [leaves_split]
          exact List.mem_flatMap.mpr ⟨_, hmem, by simp⟩)
        simpa [isPanel] using hne
      | split k c r => simp [isPanel]
    have hratios := hself hholds (by rwa [hfilter])
    rw [hfilter] at hratios
    rw [removePanel, removePanels_eq, hkept, hratios]
    rcases children with - | ⟨child, - | ⟨next, children⟩⟩
    · cases htwo
    · exact absurd htwo (by simp)
    · rfl

end PanelNode

namespace PanelTree
variable {V : Type*}

/-- What a local closing of a panel leads to: only a split that holds the panel divides its area
anew, a split of one child gives way to it, and without the panel nothing happens. -/
def ClosedLocally (tree : PanelTree V) (emptyView : V) (panel : ℕ) (closed : PanelTree V) : Prop :=
  (∃ share, closed.root =
    (tree.root.closeLocally share panel).getD (.leaf ⟨tree.nextPanelId, emptyView⟩)) ∧
  (¬tree.Exists panel → closed = tree)

theorem closePanel_root (tree : PanelTree V) (emptyView : V) (panel : ℕ) :
    (tree.closePanel emptyView panel).root =
      (tree.root.removePanel panel).getD (.leaf ⟨tree.nextPanelId, emptyView⟩) := by
  cases h : tree.root.removePanel panel <;> simp [closePanel, h]

theorem closePanel_local_iff (tree : PanelTree V) (emptyView : V) (panel : ℕ) :
    tree.ClosedLocally emptyView panel (tree.closePanel emptyView panel) ↔
      tree.root.EvenElsewhere panel ∧ (¬tree.Exists panel → tree.root.Branching) := by
  have hshare : (∃ share, (tree.closePanel emptyView panel).root =
      (tree.root.closeLocally share panel).getD (.leaf ⟨tree.nextPanelId, emptyView⟩)) ↔
      tree.root.EvenElsewhere panel := by
    rw [← PanelNode.removePanel_local_iff, closePanel_root]
    apply exists_congr
    intro share
    have hnone : tree.root.removePanel panel = none ↔
        tree.root.closeLocally share panel = none := by
      rw [PanelNode.removePanel_eq_none, PanelNode.closeLocally, PanelNode.closeWith_eq_none]
    cases hcode : tree.root.removePanel panel with
    | none => simp [hnone.mp hcode]
    | some root =>
      cases hlocal : tree.root.closeLocally share panel with
      | none => simp [hnone.mpr hlocal] at hcode
      | some root' => simp
  unfold ClosedLocally
  rw [hshare]
  apply and_congr_right
  intro heven
  apply forall_congr'
  intro hunknown
  constructor
  · intro hclosed
    refine PanelNode.branching_of_removePanel (?_ : tree.root.removePanel panel = some tree.root)
    cases h : tree.root.removePanel panel with
    | none =>
      have hnext := congrArg PanelTree.nextPanelId hclosed
      simp [closePanel, h] at hnext
    | some root =>
      have hroot := closePanel_root tree emptyView panel
      rw [hclosed, h, Option.getD_some] at hroot
      rw [hroot]
  · intro hbranching
    have hroot : tree.root.removePanel panel = some tree.root :=
      PanelNode.removePanel_unknown (fun pane hmem heq => hunknown ⟨pane, hmem, heq⟩) heven hbranching
    simp [closePanel, hroot]

/-- A row of the first panel and of a column that was dragged to three quarters. -/
def draggedTree : PanelTree Unit where
  root := .split .row [.leaf ⟨1, ()⟩, .split .column [.leaf ⟨2, ()⟩, .leaf ⟨3, ()⟩] [3 / 4, 1 / 4]]
    [1 / 2, 1 / 2]
  nextPanelId := 4

theorem dragged_sizes_lost : ¬draggedTree.ClosedLocally () 1 (draggedTree.closePanel () 1) := by
  rintro ⟨⟨share, hroot⟩, -⟩
  -- The column comes out with its halves, and nothing but its own ratios was allowed.
  simp [draggedTree, closePanel, PanelNode.removePanel, PanelNode.removePanels,
    PanelNode.withChildren, PanelNode.closeLocally, PanelNode.closeWith, PanelNode.closeAllWith,
    PanelNode.collapse, PanelNode.holdsPanel, PanelNode.isPanel, PanelNode.rebalanceRatios,
    List.replicate] at hroot

end PanelTree

end PiDeck.Panels
