import Mathlib
import PiDeck.Panels.Closing

/-! Pruning empty panes. Panes are closed by their identifiers, one after the other, in a tree that
each closing rewrites; what a closing does to the list of leaves is all that counts. -/
namespace PiDeck.Panels

/-- `isEmpty` of the terminal panes. -/
def TerminalPaneView.isEmpty (view : TerminalPaneView) : Bool := decide (view = .empty)

namespace PanelTree
variable {V : Type*} {tree : PanelTree V} {isEmpty : V → Bool} {emptyView : V} {panel : ℕ}
  {panels : List ℕ} {pane other : Leaf V}

/-- The empty leaves, in the order in which they are visited. -/
def emptyPanels (tree : PanelTree V) (isEmpty : V → Bool) : List ℕ :=
  (tree.leaves.filter fun pane => isEmpty pane.view).map Leaf.panelId

def closePanels (tree : PanelTree V) (emptyView : V) (panels : List ℕ) : PanelTree V :=
  panels.foldl (fun tree panel => tree.closePanel emptyView panel) tree

/-- The rounds of `pruneEmptyLeaves`. -/
def pruneRounds (isEmpty : V → Bool) (emptyView : V) : ℕ → PanelTree V → PanelTree V
  | 0, tree => tree
  | guard + 1, tree =>
    if tree.emptyPanels isEmpty = [] ∨ tree.leaves.length ≤ 1 then tree
    else pruneRounds isEmpty emptyView guard
      (tree.closePanels emptyView (tree.emptyPanels isEmpty))

def pruneEmptyLeaves (tree : PanelTree V) (isEmpty : V → Bool) (emptyView : V) : PanelTree V :=
  pruneRounds isEmpty emptyView 64 tree

/-- What pruning is for: the leaves that show something stay, in their order, the empty ones go if
there is another, and some leaf remains. -/
structure Pruned (isEmpty : V → Bool) (before after : List (Leaf V)) : Prop where
  kept : (before.filter fun pane => !isEmpty pane.view).Sublist after
  removed : (∃ pane ∈ before, isEmpty pane.view = false) → ∀ pane ∈ after, isEmpty pane.view = false
  remains : after ≠ []

/-- Closing the last panel puts a new leaf in its place. -/
theorem leaves_closePanel_last (h : ∀ pane ∈ tree.leaves, pane.panelId = panel) :
    (tree.closePanel emptyView panel).leaves = [⟨tree.nextPanelId, emptyView⟩] := by
  have hgone : tree.root.remains panel = false := by
    refine List.any_eq_false.mpr fun pane hpane => ?_
    simpa using h pane hpane
  rw [leaves, closePanel_root, PanelNode.removePanel_eq_none.mpr hgone]
  rfl

/-- A closing leaves a leaf, if only a new one. -/
theorem leaves_closePanel_ne_nil : (tree.closePanel emptyView panel).leaves ≠ [] := by
  by_cases h : ∀ pane ∈ tree.leaves, pane.panelId = panel
  · rw [leaves_closePanel_last h]
    exact List.cons_ne_nil _ _
  · push Not at h
    obtain ⟨pane, hpane, hne⟩ := h
    obtain ⟨root, -, hclosed, hleaves⟩ := closePanel_of_other emptyView hpane hne
    have hmem : pane ∈ root.leaves := hleaves ▸ List.mem_filter.mpr ⟨hpane, by simpa using hne⟩
    rw [hclosed]
    exact List.ne_nil_of_mem hmem

theorem leaves_closePanels_ne_nil (h : tree.leaves ≠ []) :
    (tree.closePanels emptyView panels).leaves ≠ [] := by
  induction panels generalizing tree with
  | nil => exact h
  | cons panel panels ih => exact ih leaves_closePanel_ne_nil

/-- As long as a leaf is not to be closed, exactly those to be closed go. -/
theorem leaves_closePanels (hpane : pane ∈ tree.leaves) (hkept : pane.panelId ∉ panels) :
    (tree.closePanels emptyView panels).leaves =
      tree.leaves.filter fun pane => decide (pane.panelId ∉ panels) := by
  induction panels generalizing tree with
  | nil => simp [closePanels]
  | cons panel panels ih =>
    obtain ⟨hne, hrest⟩ := List.ne_and_not_mem_of_not_mem_cons hkept
    obtain ⟨root, -, hclosed, hleaves⟩ := closePanel_of_other emptyView hpane hne
    have hstays : pane ∈ (tree.closePanel emptyView panel).leaves := by
      rw [hclosed]
      change pane ∈ root.leaves
      rw [hleaves]
      exact List.mem_filter.mpr ⟨hpane, by simpa using hne⟩
    have hnext := ih hstays hrest
    rw [closePanels, List.foldl_cons, ← closePanels, hnext, hclosed]
    change root.leaves.filter _ = _
    rw [hleaves, List.filter_filter]
    refine List.filter_congr fun other _ => ?_
    by_cases hother : other.panelId = panel <;> simp [hother]

theorem leaves_pruneRounds_ne_nil {guard : ℕ} (h : tree.leaves ≠ []) :
    (pruneRounds isEmpty emptyView guard tree).leaves ≠ [] := by
  induction guard generalizing tree with
  | zero => exact h
  | succ guard ih =>
    rw [pruneRounds]
    split
    · exact h
    · exact ih (leaves_closePanels_ne_nil h)

/-- A round that finds no empty leaf is the last. -/
theorem pruneRounds_done {guard : ℕ} (h : ∀ pane ∈ tree.leaves, isEmpty pane.view = false) :
    pruneRounds isEmpty emptyView guard tree = tree := by
  cases guard with
  | zero => rfl
  | succ guard =>
    have hnone : tree.emptyPanels isEmpty = [] := by
      rw [emptyPanels, List.filter_eq_nil_iff.mpr fun pane hpane => by simp [h pane hpane]]
      rfl
    rw [pruneRounds, if_pos (.inl hnone)]

/-- An empty leaf and one that shows something do not share an identifier. -/
def Apart (isEmpty : V → Bool) (panes : List (Leaf V)) : Prop :=
  ∀ pane ∈ panes, ∀ other ∈ panes, pane.panelId = other.panelId →
    isEmpty pane.view = isEmpty other.view

theorem apart_of_distinct {panes : List (Leaf V)} (h : (panes.map Leaf.panelId).Nodup) :
    Apart isEmpty panes := by
  intro pane hpane other hother hid
  rw [List.inj_on_of_nodup_map h hpane hother hid]

theorem mem_emptyPanels_iff (hapart : Apart isEmpty tree.leaves) (hpane : pane ∈ tree.leaves) :
    pane.panelId ∈ tree.emptyPanels isEmpty ↔ isEmpty pane.view = true := by
  constructor
  · intro h
    obtain ⟨other, hother, hid⟩ := List.mem_map.mp h
    obtain ⟨hmem, hempty⟩ := List.mem_filter.mp hother
    rw [hapart pane hpane other hmem hid.symm]
    exact hempty
  · intro h
    exact List.mem_map.mpr ⟨pane, List.mem_filter.mpr ⟨hpane, h⟩, rfl⟩

/-- With a leaf that shows something, one round does all. -/
theorem leaves_pruneEmptyLeaves (hapart : Apart isEmpty tree.leaves) (hpane : pane ∈ tree.leaves)
    (hshown : isEmpty pane.view = false) :
    (tree.pruneEmptyLeaves isEmpty emptyView).leaves =
      tree.leaves.filter fun pane => !isEmpty pane.view := by
  rw [pruneEmptyLeaves, pruneRounds]
  split
  next hstop =>
    refine (List.filter_eq_self.mpr fun other hother => ?_).symm
    rcases hstop with hnone | hone
    · have hother' := (mem_emptyPanels_iff hapart hother).not.mp (by simp [hnone])
      simpa using hother'
    · -- A single leaf is the one that shows something.
      obtain rfl : other = pane := by
        obtain ⟨only, honly⟩ := List.length_eq_one_iff.mp
          (Nat.le_antisymm hone (List.length_pos_of_mem hpane))
        rw [honly, List.mem_singleton] at hother hpane
        rw [hother, hpane]
      simp [hshown]
  next =>
    have hkept : pane.panelId ∉ tree.emptyPanels isEmpty := by
      rw [mem_emptyPanels_iff hapart hpane, hshown]
      simp
    have hclosed : (tree.closePanels emptyView (tree.emptyPanels isEmpty)).leaves =
        tree.leaves.filter fun pane => !isEmpty pane.view := by
      rw [leaves_closePanels hpane hkept]
      refine List.filter_congr fun other hother => ?_
      simp only [mem_emptyPanels_iff hapart hother]
      cases isEmpty other.view <;> rfl
    rw [pruneRounds_done]
    · exact hclosed
    · intro other hother
      rw [hclosed] at hother
      simpa using (List.mem_filter.mp hother).2

/-- Pruning does what it is for in every tree that has a leaf and in which no empty leaf shares its
identifier with one that shows something. -/
theorem pruned_pruneEmptyLeaves (hleaf : tree.leaves ≠ []) (hapart : Apart isEmpty tree.leaves) :
    Pruned isEmpty tree.leaves (tree.pruneEmptyLeaves isEmpty emptyView).leaves := by
  have hremains : (tree.pruneEmptyLeaves isEmpty emptyView).leaves ≠ [] :=
    leaves_pruneRounds_ne_nil hleaf
  by_cases hshown : ∃ pane ∈ tree.leaves, isEmpty pane.view = false
  · obtain ⟨pane, hpane, hview⟩ := hshown
    have hpruned : (tree.pruneEmptyLeaves isEmpty emptyView).leaves =
        tree.leaves.filter fun pane => !isEmpty pane.view :=
      leaves_pruneEmptyLeaves hapart hpane hview
    refine ⟨hpruned ▸ List.Sublist.refl _, fun _ other hother => ?_, hremains⟩
    rw [hpruned] at hother
    simpa using (List.mem_filter.mp hother).2
  · have hnone : tree.leaves.filter (fun pane => !isEmpty pane.view) = [] := by
      refine List.filter_eq_nil_iff.mpr fun pane hpane => ?_
      simpa using fun hview => hshown ⟨pane, hpane, hview⟩
    exact ⟨hnone ▸ List.nil_sublist _, fun h => absurd h hshown, hremains⟩

/-- A terminal between two empty panes. -/
def prunable : PanelTree TerminalPaneView where
  root := .split .row [.leaf ⟨1, .empty⟩, .split .column
    [.leaf ⟨2, .terminal "a"⟩, .leaf ⟨3, .empty⟩] [1 / 2, 1 / 2]] [1 / 2, 1 / 2]
  nextPanelId := 4

theorem pruned_prunable : Pruned TerminalPaneView.isEmpty prunable.leaves
    (prunable.pruneEmptyLeaves TerminalPaneView.isEmpty .empty).leaves :=
  pruned_pruneEmptyLeaves (by decide) (apart_of_distinct (by decide))

/-- An empty pane with the identifier of a terminal. -/
def clashing : PanelTree TerminalPaneView where
  root := .split .row [.leaf ⟨1, .empty⟩, .leaf ⟨1, .terminal "a"⟩] [1 / 2, 1 / 2]
  nextPanelId := 2

/-- The terminal goes with the empty pane. -/
theorem clashing_not_pruned : ¬Pruned TerminalPaneView.isEmpty clashing.leaves
    (clashing.pruneEmptyLeaves TerminalPaneView.isEmpty .empty).leaves := by
  intro h
  have hkept := h.kept.subset (List.mem_filter.mpr
    ⟨(by decide : (⟨1, .terminal "a"⟩ : Leaf TerminalPaneView) ∈ clashing.leaves), by decide⟩)
  revert hkept
  decide

end PanelTree
end PiDeck.Panels
