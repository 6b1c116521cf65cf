import Mathlib
import PiDeck.Panels.Restore

/-! What holds of every workspace that was read from a stored layout, and what closing panes keeps of
it. Identifiers and terminals may repeat, so that none of this rests on their being distinct. -/
namespace PiDeck.Panels
open PiDeck.Tasks (Value)

/-! ### Decoding -/

theorem nesting_le_of_mem {value : Value} {values : List Value} (h : value ∈ values) :
    nesting value ≤ nestingOf values := by
  induction values with
  | nil => cases h
  | cons first values ih =>
    rw [nestingOf]
    rcases List.mem_cons.mp h with rfl | hmem
    · exact le_max_left ..
    · exact (ih hmem).trans (le_max_right ..)

theorem nesting_le_of_field {key : String} {value : Value} {fields : List (String × Value)}
    (h : (key, value) ∈ fields) : nesting value ≤ fieldsNesting fields := by
  induction fields with
  | nil => cases h
  | cons first fields ih =>
    rw [fieldsNesting]
    rcases List.mem_cons.mp h with rfl | hmem
    · exact le_max_left ..
    · exact (ih hmem).trans (le_max_right ..)

theorem nesting_get {value field : Value} {key : String} (h : value.get key = some field) :
    nesting field < nesting value := by
  cases value with
  | object fields =>
    obtain ⟨⟨name, found⟩, hfound, rfl⟩ := Option.map_eq_some_iff.mp h
    have hle := nesting_le_of_field (List.mem_of_find?_eq_some hfound)
    rw [nesting]
    exact Nat.lt_succ_of_le hle
  | null => cases h
  | bool _ => cases h
  | number _ => cases h
  | string _ => cases h
  | array _ => cases h

/-- What the schema says of a node. -/
inductive Persisted : PanelNode TerminalPaneView → Prop
  | leaf {pane : Leaf TerminalPaneView} (positive : 0 < pane.panelId)
      (safe : pane.panelId ≤ maxSafeInteger) : Persisted (.leaf pane)
  | split {kind : SplitKind} {children : List (PanelNode TerminalPaneView)} {ratios : List ℚ}
      (two : 2 ≤ children.length) (positive : ∀ ratio ∈ ratios, 0 < ratio)
      (all : ∀ child ∈ children, Persisted child) : Persisted (.split kind children ratios)

theorem runtimePanelNodes_eq {V : Type*} (children : List (PanelNode V)) :
    runtimePanelNodes children = children.mapM runtimePanelNode := by
  induction children with
  | nil => rfl
  | cons child children ih =>
    rw [runtimePanelNodes, List.mapM_cons, ih]
    cases runtimePanelNode child with
    | none => rfl
    | some child => cases children.mapM runtimePanelNode <;> rfl

theorem Persisted.safe {node : PanelNode TerminalPaneView} (h : Persisted node) :
    ∀ pane ∈ node.leaves, 0 < pane.panelId ∧ pane.panelId ≤ maxSafeInteger := by
  induction h with
  | leaf positive safe => simpa using ⟨positive, safe⟩
  | split two positive all ih =>
    intro pane hpane
    rw [PanelNode.leaves_split] at hpane
    obtain ⟨child, hchild, hmem⟩ := List.mem_flatMap.mp hpane
    exact ih child hchild pane hmem

theorem foldl_max_le {ids : List ℕ} {start bound : ℕ} :
    ids.foldl max start ≤ bound ↔ start ≤ bound ∧ ∀ id ∈ ids, id ≤ bound := by
  induction ids generalizing start with
  | nil => simp
  | cons id ids ih =>
    rw [List.foldl_cons, ih, max_le_iff, List.forall_mem_cons]
    tauto

theorem maxPanelId_le {V : Type*} {node : PanelNode V} {bound : ℕ} :
    maxPanelId node ≤ bound ↔ ∀ pane ∈ node.leaves, pane.panelId ≤ bound := by
  rw [maxPanelId, foldl_max_le]
  simp

/-! ### Workspaces that were read -/

open PanelTree

/-- What holds whether or not identifiers and terminals repeat. -/
structure TerminalWorkspace.Sturdy (workspace : TerminalWorkspace) : Prop where
  splits : workspace.tree.root.WellSplit
  below : ∀ pane ∈ workspace.tree.leaves, pane.panelId < workspace.tree.nextPanelId
  focused : workspace.tree.Exists workspace.focusedPanelId
  zoomed : ∀ panel, workspace.zoomedPanelId = some panel → workspace.tree.Exists panel
  /-- The counter is one that doubles count up to, or has given out the last identifier. -/
  counts : workspace.tree.nextPanelId ≤ 2 ^ 53 ∨ workspace.tree.nextPanelId = 2 ^ 53 + 1 ∧
    workspace.tree.leaves = [⟨2 ^ 53, .empty⟩]

section Closing
variable {tree : PanelTree TerminalPaneView} {panel : ℕ}

/-- The last pane is emptied; else the panes under the identifier go, and a tree that would have none
left gets a new one. -/
theorem removeTerminalPanel_cases (hexists : tree.Exists panel) :
    (tree.leaves.length = 1 ∧ removeTerminalPanel tree panel = tree.setView panel .empty) ∨
    tree.leaves.length ≠ 1 ∧ ((∃ root, tree.root.removePanel panel = some root ∧
      removeTerminalPanel tree panel = { tree with root := root } ∧
      root.leaves = tree.leaves.filter fun pane => pane.panelId ≠ panel) ∨
    (removeTerminalPanel tree panel = ⟨.leaf ⟨tree.nextPanelId, .empty⟩, tree.nextPanelId + 1⟩ ∧
      ∀ pane ∈ tree.leaves, pane.panelId = panel)) := by
  have hfound : tree.getLeaf panel ≠ none := by
    rw [← Option.isSome_iff_ne_none]
    exact getLeaf_isSome.mpr hexists
  rw [removeTerminalPanel, if_neg hfound]
  by_cases hone : tree.leaves.length = 1
  · exact .inl ⟨hone, if_pos hone⟩
  · refine .inr ⟨hone, ?_⟩
    rw [if_neg hone, PanelTree.closePanel]
    have hleaves := PanelNode.leaves_removePanel panel tree.root
    cases hroot : tree.root.removePanel panel with
    | none =>
      rw [hroot] at hleaves
      refine .inr ⟨rfl, fun pane hpane => ?_⟩
      simpa using List.filter_eq_nil_iff.mp hleaves.symm pane hpane
    | some root =>
      rw [hroot] at hleaves
      exact .inl ⟨root, rfl, rfl, by simpa [PanelTree.leaves] using hleaves⟩

theorem ne_nil_of_exists (h : tree.Exists panel) : tree.leaves ≠ [] := by
  obtain ⟨pane, hpane, -⟩ := h
  exact List.ne_nil_of_mem hpane

namespace TerminalWorkspace
variable {workspace : TerminalWorkspace}

theorem Sturdy.ne_nil (hw : workspace.Sturdy) : workspace.tree.leaves ≠ [] :=
  ne_nil_of_exists hw.focused

theorem closeTerminalPanel_of_exists (h : workspace.tree.Exists panel) :
    workspace.closeTerminalPanel panel =
      let tree := Panels.removeTerminalPanel workspace.tree panel
      ⟨tree, resolvedFocus tree workspace.focusedPanelId,
        if workspace.zoomedPanelId = some panel then none else workspace.zoomedPanelId⟩ :=
  if_pos (panelExists_iff.mpr h)

theorem resolvedFocus_exists (h : tree.leaves ≠ []) (preferred : ℕ) :
    tree.Exists (resolvedFocus tree preferred) :=
  exists_resolvedFocus (List.length_pos_iff.mpr h) preferred

theorem Sturdy.closeTerminalPanel (hw : workspace.Sturdy) (panel : ℕ) :
    (workspace.closeTerminalPanel panel).Sturdy := by
  by_cases hexists : workspace.tree.Exists panel
  · rw [closeTerminalPanel_of_exists hexists]
    dsimp only
    have hzoom : ∀ tree : PanelTree TerminalPaneView,
        (∀ kept ≠ panel, workspace.tree.Exists kept → tree.Exists kept) → ∀ zoomed,
        (if workspace.zoomedPanelId = some panel then none else workspace.zoomedPanelId) =
          some zoomed → tree.Exists zoomed := by
      intro tree hkept zoomed hzoomed
      split at hzoomed
      · cases hzoomed
      · rename_i hne
        refine hkept zoomed ?_ (hw.zoomed zoomed hzoomed)
        rintro rfl
        exact hne hzoomed
    have hmany : workspace.tree.leaves.length ≠ 1 → workspace.tree.nextPanelId ≤ 2 ^ 53 := by
      intro hmany
      rcases hw.counts with hle | ⟨-, honly⟩
      · exact hle
      · rw [honly] at hmany
        exact absurd rfl hmany
    rcases removeTerminalPanel_cases hexists with ⟨-, hset⟩ |
      ⟨hlength, ⟨root, hroot, hclosed, hleaves⟩ | ⟨hfresh, hall⟩⟩
    · rw [hset]
      refine ⟨hw.splits.setView, ?_, ?_, hzoom _ fun _ _ hkept => exists_setView.mpr hkept, ?_⟩
      · intro pane hpane
        have hid := List.mem_map_of_mem (f := Leaf.panelId) hpane
        rw [ids_setView] at hid
        obtain ⟨old, hold, hid⟩ := List.mem_map.mp hid
        rw [← hid]
        exact hw.below old hold
      · exact resolvedFocus_exists (ne_nil_of_exists (exists_setView.mpr hexists)) _
      · refine hw.counts.imp_right fun ⟨hnext, honly⟩ => ⟨hnext, ?_⟩
        rw [leaves_setView, honly]
        simp
    · rw [hclosed]
      have hwell := hw.splits.removePanel hroot
      have hleaf : root.leaves ≠ [] := by
        clear hclosed hleaves hroot
        induction hwell with
        | leaf => simp
        | @split kind children ratios two divides all ih =>
          rw [PanelNode.leaves_split]
          obtain ⟨child, hchild⟩ := List.exists_mem_of_length_pos (by omega : 0 < children.length)
          obtain ⟨pane, hpane⟩ := List.exists_mem_of_ne_nil _ (ih child hchild)
          exact List.ne_nil_of_mem (List.mem_flatMap.mpr ⟨child, hchild, hpane⟩)
      have hkept : ∀ kept ≠ panel, workspace.tree.Exists kept →
          (⟨root, workspace.tree.nextPanelId⟩ : PanelTree TerminalPaneView).Exists kept := by
        rintro kept hne ⟨pane, hpane, rfl⟩
        refine ⟨pane, ?_, rfl⟩
        rw [PanelTree.leaves, hleaves]
        exact List.mem_filter.mpr ⟨hpane, by simpa using hne⟩
      have hleft : (⟨root, workspace.tree.nextPanelId⟩ : PanelTree TerminalPaneView).leaves ≠ [] := hleaf
      refine ⟨hwell, ?_, resolvedFocus_exists hleft _, hzoom _ hkept, .inl (hmany hlength)⟩
      intro pane hpane
      rw [PanelTree.leaves, hleaves] at hpane
      exact hw.below pane (List.mem_of_mem_filter hpane)
    · rw [hfresh]
      refine ⟨.leaf, ?_, resolvedFocus_exists (by simp [PanelTree.leaves]) _,
        hzoom _ ?_, ?_⟩
      · intro pane hpane
        obtain rfl := List.mem_singleton.mp hpane
        exact Nat.lt_succ_self _
      · rintro kept hne ⟨pane, hpane, rfl⟩
        exact absurd (hall pane hpane) hne
      · have hle := hmany hlength
        rcases Nat.lt_or_ge workspace.tree.nextPanelId (2 ^ 53) with hlt | hge
        · exact .inl hlt
        · refine .inr ⟨?_, ?_⟩
          · dsimp only
            omega
          · simp [PanelTree.leaves, le_antisymm hle hge]
  · have hclosed : workspace.closeTerminalPanel panel = workspace :=
      if_neg fun h => hexists (panelExists_iff.mp h)
    rw [hclosed]
    exact hw

theorem Sturdy.removeMissingTerminalViews (hw : workspace.Sturdy) (live : String → Bool) :
    (workspace.removeMissingTerminalViews live).Sturdy := by
  unfold TerminalWorkspace.removeMissingTerminalViews
  dsimp only
  generalize List.filterMap _ workspace.tree.leaves = missing
  induction missing generalizing workspace with
  | nil => exact hw
  | cons item missing ih =>
    have hclosed : (workspace.closeTerminalTab item.1 item.2).Sturdy := by
      rw [closeTerminalTab]
      split
      · exact hw.closeTerminalPanel item.1
      · exact hw
    exact ih hclosed

theorem capRestoredTerminalPanes_of_le (h : workspace.terminalPaneCount ≤ maxTerminalTiles) :
    workspace.capRestoredTerminalPanes = workspace := by
  rw [capRestoredTerminalPanes]
  cases workspace.terminalPaneCount with
  | zero => rfl
  | succ turns =>
    rw [capPanes, if_neg (not_lt.mpr h)]

end TerminalWorkspace
end Closing

end PiDeck.Panels
