import Mathlib
import PiDeck.Panels.Tiling

/-! Every workspace that the operations reach is well formed: identifiers and terminals are unique,
the number of panes is bounded, splits divide their area, and what is focused or zoomed exists. -/
namespace PiDeck.Panels

namespace PanelTree
variable {V : Type*} {tree : PanelTree V} {panel other : ℕ} {view emptyView : V} {edge : Edge}
  {pane : Leaf V}

def Exists (tree : PanelTree V) (panel : ℕ) : Prop := ∃ pane ∈ tree.leaves, pane.panelId = panel

theorem leaf_of_getView (h : tree.getView panel = some view) : ⟨panel, view⟩ ∈ tree.leaves := by
  obtain ⟨pane, hpane, rfl⟩ := Option.map_eq_some_iff.mp h
  have hmem := List.mem_reverse.mp (List.mem_of_find?_eq_some hpane)
  have hid : pane.panelId = panel := by simpa using List.find?_some hpane
  rwa [← hid]

theorem getLeaf_isSome : (tree.getLeaf panel).isSome = true ↔ tree.Exists panel := by
  simp [getLeaf, Exists, List.find?_isSome]

theorem leaves_setView : (tree.setView panel view).leaves =
    tree.leaves.map (fun pane => if pane.panelId = panel then ⟨pane.panelId, view⟩ else pane) :=
  PanelNode.leaves_setView tree.root

theorem ids_setView :
    (tree.setView panel view).leaves.map Leaf.panelId = tree.leaves.map Leaf.panelId := by
  rw [leaves_setView, List.map_map]
  apply List.map_congr_left
  intro pane _
  by_cases h : pane.panelId = panel <;> simp [h]

/-- A pane of the tree after `setView` is the one that was set or was there before. -/
theorem mem_setView (h : pane ∈ (tree.setView panel view).leaves) :
    pane.panelId = panel ∧ pane.view = view ∨ pane.panelId ≠ panel ∧ pane ∈ tree.leaves := by
  rw [leaves_setView] at h
  obtain ⟨old, hold, rfl⟩ := List.mem_map.mp h
  by_cases hid : old.panelId = panel
  · rw [if_pos hid]
    exact .inl ⟨hid, rfl⟩
  · rw [if_neg hid]
    exact .inr ⟨hid, hold⟩

theorem exists_iff_ids : tree.Exists panel ↔ panel ∈ tree.leaves.map Leaf.panelId := by
  simp [Exists]

@[simp] theorem exists_setView : (tree.setView panel view).Exists other ↔ tree.Exists other := by
  rw [exists_iff_ids, exists_iff_ids, ids_setView]

theorem leaves_splitAtEdge : (tree.splitAtEdge emptyView panel edge).1.leaves =
    tree.leaves.flatMap fun pane =>
      (PanelNode.replaceLeaf panel tree.nextPanelId emptyView edge pane).leaves :=
  PanelNode.leaves_mapNode _ tree.root

theorem leaves_replaceLeaf_of_ne {created : ℕ} (h : pane.panelId ≠ panel) :
    (PanelNode.replaceLeaf panel created view edge pane).leaves = [pane] := by
  simp [PanelNode.replaceLeaf, h]

theorem leaves_replaceLeaf_perm {created : ℕ} (h : pane.panelId = panel) :
    (PanelNode.replaceLeaf panel created view edge pane).leaves.Perm [⟨created, view⟩, pane] := by
  unfold PanelNode.replaceLeaf
  by_cases hedge : edge = .right ∨ edge = .bottom
  · simpa [h, hedge] using List.Perm.swap (⟨created, view⟩ : Leaf V) pane []
  · simp [h, hedge]

/-- A split adds one pane. -/
theorem splitAtEdge_perm (emptyView : V) (edge : Edge)
    (nodup : (tree.leaves.map Leaf.panelId).Nodup) (h : tree.Exists panel) :
    (tree.splitAtEdge emptyView panel edge).1.leaves.Perm
      (⟨tree.nextPanelId, emptyView⟩ :: tree.leaves) := by
  rw [leaves_splitAtEdge]
  obtain ⟨pane, hpane, hid⟩ := h
  revert nodup hpane
  generalize tree.leaves = panes
  intro nodup hpane
  induction panes with
  | nil => cases hpane
  | cons first panes ih =>
    rw [List.map_cons, List.nodup_cons] at nodup
    rw [List.flatMap_cons]
    by_cases hfirst : first.panelId = panel
    · -- No other pane has the identifier, so the others stay.
      have hrest : panes.flatMap (fun pane => (PanelNode.replaceLeaf panel tree.nextPanelId
          emptyView edge pane).leaves) = panes := by
        refine (List.flatMap_congr ?_).trans (List.flatMap_singleton' panes)
        intro pane hmem
        apply leaves_replaceLeaf_of_ne
        rintro rfl
        exact nodup.1 (hfirst ▸ List.mem_map_of_mem hmem)
      rw [hrest]
      exact (leaves_replaceLeaf_perm hfirst).append_right panes
    · rw [leaves_replaceLeaf_of_ne hfirst]
      have hmem : pane ∈ panes := by
        rcases List.mem_cons.mp hpane with rfl | hmem
        · exact absurd hid hfirst
        · exact hmem
      exact ((ih nodup.2 hmem).cons first).trans (.swap ..)

/-- A tree that keeps a pane loses exactly the closed one. -/
theorem closePanel_of_other (emptyView : V) (h : pane ∈ tree.leaves) (hne : pane.panelId ≠ panel) :
    ∃ root, tree.root.removePanel panel = some root ∧
      tree.closePanel emptyView panel = { tree with root := root } ∧
      root.leaves = tree.leaves.filter (fun pane => pane.panelId ≠ panel) := by
  have hleaves := PanelNode.leaves_removePanel panel tree.root
  have hkept : pane ∈ tree.root.leaves.filter (fun pane => pane.panelId ≠ panel) :=
    List.mem_filter.mpr ⟨h, by simpa using hne⟩
  cases hroot : tree.root.removePanel panel with
  | none =>
    rw [hroot] at hleaves
    rw [← hleaves] at hkept
    cases hkept
  | some root =>
    rw [hroot] at hleaves
    exact ⟨root, rfl, by simp [closePanel, hroot], by simpa [PanelTree.leaves] using hleaves⟩

end PanelTree

open PanelTree

/-- What holds of the tree of a workspace. -/
structure Tiled (tree : PanelTree TerminalPaneView) : Prop where
  distinct : (tree.leaves.map Leaf.panelId).Nodup
  below : ∀ pane ∈ tree.leaves, pane.panelId < tree.nextPanelId
  once : ∀ muxTerminalId, ∀ pane ∈ tree.leaves, ∀ pane' ∈ tree.leaves,
    pane.view = .terminal muxTerminalId → pane'.view = .terminal muxTerminalId → pane = pane'
  atMost : tree.leaves.length ≤ maxTerminalTiles
  atLeast : 1 ≤ tree.leaves.length
  splits : tree.root.WellSplit

structure TerminalWorkspace.WellFormed (workspace : TerminalWorkspace) : Prop where
  tiled : Tiled workspace.tree
  focused : workspace.tree.Exists workspace.focusedPanelId
  zoomed : ∀ panel, workspace.zoomedPanelId = some panel → workspace.tree.Exists panel

section Trees
variable {tree : PanelTree TerminalPaneView} {panel source target : ℕ} {view : TerminalPaneView}
  {edge : Edge} {muxTerminalId other : String} {pane pane' : Leaf TerminalPaneView}

theorem panelExists_iff : panelExists tree panel = true ↔ tree.Exists panel := getLeaf_isSome

theorem exists_of_findTerminalPanel (h : findTerminalPanel tree muxTerminalId = some panel) :
    ⟨panel, .terminal muxTerminalId⟩ ∈ tree.leaves := by
  obtain ⟨pane, hpane, rfl⟩ := Option.map_eq_some_iff.mp h
  have hview : pane.view = .terminal muxTerminalId := by simpa using List.find?_some hpane
  rw [← hview]
  exact List.mem_of_find?_eq_some hpane

theorem not_shown_of_findTerminalPanel (h : findTerminalPanel tree muxTerminalId = none) :
    ∀ pane ∈ tree.leaves, pane.view ≠ .terminal muxTerminalId := by
  intro pane hpane hview
  have hnone := List.find?_eq_none.mp (Option.map_eq_none_iff.mp h) pane hpane
  simp [hview] at hnone

theorem exists_firstPanel (h : 1 ≤ tree.leaves.length) : tree.Exists (firstPanel tree) := by
  obtain ⟨first, rest, hleaves⟩ := List.exists_cons_of_length_pos h
  exact ⟨first, by simp [hleaves], by simp [firstPanel, hleaves]⟩

theorem exists_resolvedFocus (h : 1 ≤ tree.leaves.length) (preferred : ℕ) :
    tree.Exists (resolvedFocus tree preferred) := by
  unfold resolvedFocus
  split
  · rename_i hexists
    exact panelExists_iff.mp hexists
  · exact exists_firstPanel h

namespace Tiled

/-- Another view in a pane; a terminal must not be shown in any other pane. -/
theorem setView (ht : Tiled tree)
    (hview : ∀ muxTerminalId, view = .terminal muxTerminalId → ∀ pane ∈ tree.leaves,
      pane.view = .terminal muxTerminalId → pane.panelId = panel) :
    Tiled (tree.setView panel view) where
  distinct := by
    rw [ids_setView]
    exact ht.distinct
  below := by
    intro pane hpane
    have hid := List.mem_map_of_mem (f := Leaf.panelId) hpane
    rw [ids_setView] at hid
    obtain ⟨old, hold, hid⟩ := List.mem_map.mp hid
    rw [← hid]
    exact ht.below old hold
  once := by
    intro muxTerminalId pane hpane pane' hpane' hshown hshown'
    rcases mem_setView hpane with ⟨hid, hset⟩ | ⟨hid, hmem⟩
    · rcases mem_setView hpane' with ⟨hid', hset'⟩ | ⟨hid', hmem'⟩
      · cases pane
        cases pane'
        simp_all
      · exact absurd (hview _ (hset.symm.trans hshown) pane' hmem' hshown') hid'
    · rcases mem_setView hpane' with ⟨hid', hset'⟩ | ⟨hid', hmem'⟩
      · exact absurd (hview _ (hset'.symm.trans hshown') pane hmem hshown) hid
      · exact ht.once muxTerminalId pane hmem pane' hmem' hshown hshown'
  atMost := by
    rw [leaves_setView, List.length_map]
    exact ht.atMost
  atLeast := by
    rw [leaves_setView, List.length_map]
    exact ht.atLeast
  splits := ht.splits.setView

theorem splitAtEdge (ht : Tiled tree) (hexists : tree.Exists panel)
    (hroom : tree.leaves.length < maxTerminalTiles) :
    Tiled (tree.splitAtEdge .empty panel edge).1 := by
  have hperm := splitAtEdge_perm .empty edge ht.distinct hexists
  have hlength := hperm.length_eq
  have hcreated : tree.nextPanelId ∉ tree.leaves.map Leaf.panelId := by
    intro hmem
    obtain ⟨pane, hpane, hid⟩ := List.mem_map.mp hmem
    exact (ht.below pane hpane).ne hid
  refine ⟨?_, ?_, ?_, ?_, ?_, ?_⟩
  · rw [(hperm.map Leaf.panelId).nodup_iff]
    exact List.nodup_cons.mpr ⟨hcreated, ht.distinct⟩
  · intro pane hpane
    rcases List.mem_cons.mp (hperm.mem_iff.mp hpane) with rfl | hmem
    · exact Nat.lt_succ_self _
    · exact (ht.below pane hmem).trans (Nat.lt_succ_self _)
  · intro muxTerminalId pane hpane pane' hpane' hshown hshown'
    rcases List.mem_cons.mp (hperm.mem_iff.mp hpane) with rfl | hmem
    · cases hshown
    rcases List.mem_cons.mp (hperm.mem_iff.mp hpane') with rfl | hmem'
    · cases hshown'
    exact ht.once muxTerminalId pane hmem pane' hmem' hshown hshown'
  · rw [hlength]
    exact hroom
  · rw [hlength]
    exact Nat.le_add_left 1 _
  · exact ht.splits.mapNode PanelNode.wellSplit_replaceLeaf

theorem exists_splitAtEdge (ht : Tiled tree) (hexists : tree.Exists panel) :
    (tree.splitAtEdge .empty panel edge).1.Exists (tree.splitAtEdge .empty panel edge).2 :=
  ⟨_, (splitAtEdge_perm .empty edge ht.distinct hexists).mem_iff.mpr (List.mem_cons_self ..), rfl⟩

theorem not_shown_splitAtEdge (ht : Tiled tree) (hexists : tree.Exists panel)
    (hnew : ∀ pane ∈ tree.leaves, pane.view ≠ .terminal muxTerminalId) :
    ∀ pane ∈ (tree.splitAtEdge .empty panel edge).1.leaves,
      pane.view ≠ .terminal muxTerminalId := by
  intro pane hpane
  rcases List.mem_cons.mp ((splitAtEdge_perm .empty edge ht.distinct hexists).mem_iff.mp hpane) with rfl | hmem
  · exact nofun
  · exact hnew pane hmem

/-- The tree without one pane, as long as another pane is left. -/
theorem closePanel (ht : Tiled tree) (h : pane ∈ tree.leaves) (hne : pane.panelId ≠ panel) :
    Tiled (tree.closePanel .empty panel) ∧ (tree.closePanel .empty panel).leaves =
      tree.leaves.filter (fun pane => pane.panelId ≠ panel) := by
  obtain ⟨root, hroot, hclosed, hleaves⟩ :=
    closePanel_of_other TerminalPaneView.empty h hne
  rw [hclosed]
  have hsub : (⟨root, tree.nextPanelId⟩ : PanelTree TerminalPaneView).leaves.Sublist
      tree.leaves := by
    rw [PanelTree.leaves, hleaves]
    exact List.filter_sublist
  refine ⟨⟨?_, ?_, ?_, ?_, ?_, ?_⟩, hleaves⟩
  · exact ht.distinct.sublist (hsub.map Leaf.panelId)
  · exact fun pane hpane => ht.below pane (hsub.subset hpane)
  · exact fun muxTerminalId pane hpane pane' hpane' =>
      ht.once muxTerminalId pane (hsub.subset hpane) pane' (hsub.subset hpane')
  · exact hsub.length_le.trans ht.atMost
  · refine List.length_pos_of_mem (a := pane) ?_
    rw [PanelTree.leaves, hleaves]
    exact List.mem_filter.mpr ⟨h, by simpa using hne⟩
  · exact ht.splits.removePanel hroot

/-- A second pane beside the given one. -/
theorem exists_other (ht : Tiled tree) (hlength : tree.leaves.length ≠ 1) (panel : ℕ) :
    ∃ pane ∈ tree.leaves, pane.panelId ≠ panel := by
  by_contra hnone
  push Not at hnone
  have hreplicate : tree.leaves.map Leaf.panelId = List.replicate tree.leaves.length panel := by
    refine List.eq_replicate_iff.mpr ⟨List.length_map .., ?_⟩
    intro id hid
    obtain ⟨pane, hpane, rfl⟩ := List.mem_map.mp hid
    exact hnone pane hpane
  have hnodup := ht.distinct
  rw [hreplicate, List.nodup_replicate] at hnodup
  have := ht.atLeast
  omega

/-- What `removeTerminalPanel` leaves; the last pane is only emptied. -/
theorem removeTerminalPanel (ht : Tiled tree) (panel : ℕ) :
    Tiled (removeTerminalPanel tree panel) ∧
      (∀ kept ≠ panel, tree.Exists kept → (Panels.removeTerminalPanel tree panel).Exists kept) ∧
      ∀ kept, (Panels.removeTerminalPanel tree panel).Exists kept → tree.Exists kept := by
  unfold Panels.removeTerminalPanel
  split
  · exact ⟨ht, fun _ _ hkept => hkept, fun _ hkept => hkept⟩
  split
  · exact ⟨ht.setView nofun, fun _ _ hkept => exists_setView.mpr hkept,
      fun _ hkept => exists_setView.mp hkept⟩
  · rename_i hlength
    obtain ⟨other, hother, hne⟩ := ht.exists_other hlength panel
    obtain ⟨hclosed, hleaves⟩ := ht.closePanel hother hne
    refine ⟨hclosed, ?_, ?_⟩
    · rintro kept hkept ⟨pane, hpane, rfl⟩
      refine ⟨pane, ?_, rfl⟩
      rw [hleaves]
      exact List.mem_filter.mpr ⟨hpane, by simpa using hkept⟩
    · rintro kept ⟨pane, hpane, rfl⟩
      rw [hleaves] at hpane
      exact ⟨pane, (List.mem_filter.mp hpane).1, rfl⟩

/-- Beside another pane the source is closed. -/
theorem removeTerminalPanel_of_other (ht : Tiled tree) (hsource : tree.Exists source)
    (htarget : tree.Exists target) (hne : source ≠ target) :
    Panels.removeTerminalPanel tree source = tree.closePanel .empty source ∧
      (Panels.removeTerminalPanel tree source).leaves =
        tree.leaves.filter (fun pane => pane.panelId ≠ source) := by
  obtain ⟨pane, hpane, rfl⟩ := hsource
  obtain ⟨pane', hpane', rfl⟩ := htarget
  have hfound : tree.getLeaf pane.panelId ≠ none := by
    rw [← Option.isSome_iff_ne_none]
    exact getLeaf_isSome.mpr ⟨pane, hpane, rfl⟩
  have hlength : tree.leaves.length ≠ 1 := by
    intro hone
    obtain ⟨only, honly⟩ := List.length_eq_one_iff.mp hone
    rw [honly, List.mem_singleton] at hpane hpane'
    exact hne (by rw [hpane, hpane'])
  have heq : Panels.removeTerminalPanel tree pane.panelId =
      tree.closePanel .empty pane.panelId := by
    rw [Panels.removeTerminalPanel, if_neg hfound, if_neg hlength]
  exact ⟨heq, by rw [heq, (ht.closePanel hpane' hne.symm).2]⟩

/-- A terminal that leaves its pane is shown nowhere. -/
theorem not_shown_filter (ht : Tiled tree)
    (hshown : ⟨source, .terminal muxTerminalId⟩ ∈ tree.leaves) :
    ∀ pane ∈ tree.leaves.filter (fun pane => pane.panelId ≠ source),
      pane.view ≠ .terminal muxTerminalId := by
  intro pane hpane hview
  obtain ⟨hmem, hid⟩ := List.mem_filter.mp hpane
  have heq := ht.once muxTerminalId pane hmem _ hshown hview rfl
  simp [heq] at hid

theorem setSplitRatios {tree' : PanelTree TerminalPaneView} {path : List ℕ}
    {ratios : List (Option ℚ)} (ht : Tiled tree) (h : tree.setSplitRatios path ratios = some tree') :
    Tiled tree' ∧ tree'.leaves = tree.leaves := by
  obtain ⟨root, hroot, rfl⟩ := Option.map_eq_some_iff.mp h
  have hleaves : root.leaves = tree.root.leaves := PanelNode.leaves_setSplitRatios hroot
  refine ⟨⟨?_, ?_, ?_, ?_, ?_, ht.splits.setSplitRatios hroot⟩, hleaves⟩
  all_goals simp only [PanelTree.leaves, hleaves]
  · exact ht.distinct
  · exact ht.below
  · exact ht.once
  · exact ht.atMost
  · exact ht.atLeast

end Tiled
end Trees

namespace TerminalWorkspace
variable {workspace : TerminalWorkspace} {tree : PanelTree TerminalPaneView}
  {panel source target : ℕ} {muxTerminalId : String} {edge : Edge}

theorem wellFormed_createTerminalWorkspace : createTerminalWorkspace.WellFormed where
  tiled := ⟨by decide, by decide, by simp [createTerminalWorkspace, PanelTree.leaves], by decide,
    by decide, .leaf⟩
  focused := ⟨⟨1, .empty⟩, by decide, rfl⟩
  zoomed := nofun

theorem WellFormed.focusTerminalPanel (hw : workspace.WellFormed) (panel : ℕ) :
    (workspace.focusTerminalPanel panel).WellFormed := by
  unfold TerminalWorkspace.focusTerminalPanel
  split
  · rename_i hexists
    split
    · exact hw
    · exact ⟨hw.tiled, panelExists_iff.mp hexists, nofun⟩
  · exact hw

theorem wellFormed_showIn (ht : Tiled tree) (hexists : tree.Exists panel)
    (hnew : ∀ pane ∈ tree.leaves, pane.view ≠ .terminal muxTerminalId) :
    (showIn tree panel muxTerminalId).WellFormed where
  tiled := ht.setView fun _ hview pane hpane hshown =>
    absurd (hshown.trans (congrArg _ (TerminalPaneView.terminal.inj hview).symm)) (hnew pane hpane)
  focused := exists_setView.mpr hexists
  zoomed := nofun

theorem wellFormed_showBeside (ht : Tiled tree) (hexists : tree.Exists panel)
    (hroom : tree.leaves.length < maxTerminalTiles)
    (hnew : ∀ pane ∈ tree.leaves, pane.view ≠ .terminal muxTerminalId) :
    (showBeside tree panel edge muxTerminalId).WellFormed :=
  wellFormed_showIn (ht.splitAtEdge hexists hroom) (ht.exists_splitAtEdge hexists)
    (ht.not_shown_splitAtEdge hexists hnew)

theorem WellFormed.openTerminalView (hw : workspace.WellFormed) (muxTerminalId : String) :
    (workspace.openTerminalView muxTerminalId).WellFormed := by
  unfold TerminalWorkspace.openTerminalView
  split
  · exact hw.focusTerminalPanel _
  rename_i hnone
  have hnew := not_shown_of_findTerminalPanel hnone
  have htarget := exists_resolvedFocus hw.tiled.atLeast workspace.focusedPanelId
  dsimp only
  split
  · exact wellFormed_showIn hw.tiled htarget hnew
  · exact wellFormed_showIn hw.tiled htarget hnew
  · split
    · exact hw
    · rename_i hroom
      exact wellFormed_showBeside hw.tiled htarget (not_le.mp hroom) hnew

theorem WellFormed.openTerminalViewInPanel (hw : workspace.WellFormed) (panel : ℕ)
    (muxTerminalId : String) :
    (workspace.openTerminalViewInPanel panel muxTerminalId).WellFormed := by
  unfold TerminalWorkspace.openTerminalViewInPanel
  split
  · exact hw.focusTerminalPanel _
  rename_i hnone
  split
  · rename_i hview
    exact wellFormed_showIn hw.tiled ⟨_, leaf_of_getView hview, rfl⟩
      (not_shown_of_findTerminalPanel hnone)
  · exact hw.openTerminalView muxTerminalId

theorem WellFormed.splitTerminalPanel (hw : workspace.WellFormed) (panel : ℕ) (edge : Edge) :
    (workspace.splitTerminalPanel panel edge).WellFormed := by
  unfold TerminalWorkspace.splitTerminalPanel
  split
  · rename_i hexists
    split
    · exact hw
    · rename_i hroom
      have hexists := panelExists_iff.mp hexists
      exact ⟨hw.tiled.splitAtEdge hexists (not_le.mp hroom), hw.tiled.exists_splitAtEdge hexists,
        nofun⟩
  · exact hw

theorem WellFormed.toggleTerminalPanelZoom (hw : workspace.WellFormed) (panel : ℕ) :
    (workspace.toggleTerminalPanelZoom panel).WellFormed := by
  unfold TerminalWorkspace.toggleTerminalPanelZoom
  split
  · exact hw
  · rename_i hok
    have hexists : workspace.tree.Exists panel := by
      rw [← panelExists_iff]
      simpa using fun h => hok (.inl h)
    refine ⟨hw.tiled, hexists, ?_⟩
    intro zoomed hzoomed
    dsimp only at hzoomed
    split at hzoomed
    · cases hzoomed
    · cases hzoomed
      exact hexists

theorem WellFormed.closeTerminalPanel (hw : workspace.WellFormed) (panel : ℕ) :
    (workspace.closeTerminalPanel panel).WellFormed := by
  unfold TerminalWorkspace.closeTerminalPanel
  split
  · obtain ⟨htiled, hkept, -⟩ := hw.tiled.removeTerminalPanel panel
    refine ⟨htiled, exists_resolvedFocus htiled.atLeast _, ?_⟩
    intro zoomed hzoomed
    dsimp only at hzoomed
    split at hzoomed
    · cases hzoomed
    · rename_i hne
      refine hkept zoomed ?_ (hw.zoomed zoomed hzoomed)
      rintro rfl
      exact hne hzoomed
  · exact hw

theorem WellFormed.closeTerminalTab (hw : workspace.WellFormed) (panel : ℕ)
    (muxTerminalId : String) : (workspace.closeTerminalTab panel muxTerminalId).WellFormed := by
  unfold TerminalWorkspace.closeTerminalTab
  split
  · exact hw.closeTerminalPanel panel
  · exact hw

theorem WellFormed.activateTerminalTab (hw : workspace.WellFormed) (panel : ℕ)
    (muxTerminalId : String) : (workspace.activateTerminalTab panel muxTerminalId).WellFormed := by
  unfold TerminalWorkspace.activateTerminalTab
  split
  · exact hw.focusTerminalPanel panel
  · exact hw

theorem WellFormed.resizeTerminalSplit (hw : workspace.WellFormed) (path : List ℕ)
    (ratios : List (Option ℚ)) : (workspace.resizeTerminalSplit path ratios).WellFormed := by
  unfold TerminalWorkspace.resizeTerminalSplit
  split
  · rename_i tree htree
    obtain ⟨htiled, hleaves⟩ := hw.tiled.setSplitRatios htree
    have hexists : ∀ panel, workspace.tree.Exists panel → tree.Exists panel := by
      intro panel hpanel
      rwa [PanelTree.Exists, hleaves]
    exact ⟨htiled, hexists _ hw.focused, fun panel hzoomed => hexists _ (hw.zoomed panel hzoomed)⟩
  · exact hw

/-- The terminal leaves its pane before the target is split. -/
theorem WellFormed.dockAtEdge (hw : workspace.WellFormed) (target : ℕ) (edge : Edge)
    (htarget : workspace.tree.Exists target)
    (hne : findTerminalPanel workspace.tree muxTerminalId ≠ some target) :
    (workspace.dockAtEdge muxTerminalId (findTerminalPanel workspace.tree muxTerminalId) target
      edge).WellFormed := by
  unfold TerminalWorkspace.dockAtEdge
  cases hsource : findTerminalPanel workspace.tree muxTerminalId with
  | none =>
    by_cases hroom : maxTerminalTiles ≤ workspace.terminalPaneCount
    · simpa [hroom] using hw
    · have hnew := not_shown_of_findTerminalPanel hsource
      simpa [hroom, panelExists_iff.mpr htarget] using
        wellFormed_showBeside hw.tiled htarget (not_le.mp hroom) hnew
  | some source =>
    have hshown := exists_of_findTerminalPanel hsource
    have hst : source ≠ target := fun h => hne (hsource.trans (congrArg some h))
    obtain ⟨htiled, hkept, -⟩ := hw.tiled.removeTerminalPanel source
    obtain ⟨-, hleaves⟩ := hw.tiled.removeTerminalPanel_of_other ⟨_, hshown, rfl⟩ htarget hst
    have hexists := hkept target hst.symm htarget
    have hlt : (removeTerminalPanel workspace.tree source).leaves.length < maxTerminalTiles := by
      rw [hleaves]
      refine lt_of_lt_of_le ?_ hw.tiled.atMost
      exact List.length_filter_lt_length_iff_exists.mpr ⟨_, hshown, by simp⟩
    have hnew := hw.tiled.not_shown_filter hshown
    rw [← hleaves] at hnew
    simpa [panelExists_iff.mpr hexists] using wellFormed_showBeside htiled hexists hlt hnew

/-- Two terminals change places; to see that none is shown twice, the target is emptied first. -/
theorem wellFormed_swap {other moved : String} (ht : Tiled tree) (hst : source ≠ target)
    (htarget : ⟨target, .terminal other⟩ ∈ tree.leaves)
    (hsource : ⟨source, .terminal moved⟩ ∈ tree.leaves) :
    WellFormed ⟨(tree.setView source (.terminal other)).setView target (.terminal moved), target,
      none⟩ := by
  have hshadow : (tree.setView source (.terminal other)).setView target (.terminal moved) =
      ((tree.setView target .empty).setView source (.terminal other)).setView target
        (.terminal moved) := by
    rw [PanelTree.setView, PanelTree.setView, PanelTree.setView]
    exact congrArg (PanelTree.mk · tree.nextPanelId) (PanelNode.setView_shadow hst tree.root).symm
  have hempty : Tiled (tree.setView target .empty) := ht.setView nofun
  have hother : Tiled ((tree.setView target .empty).setView source (.terminal other)) := by
    refine hempty.setView ?_
    intro shown hview pane hpane hshown
    rcases mem_setView hpane with ⟨-, hset⟩ | ⟨hid, hmem⟩
    · rw [hset] at hshown
      cases hshown
    · rw [← hview] at hshown
      exact absurd (congrArg Leaf.panelId (ht.once other pane hmem _ htarget hshown rfl)) hid
  have hmoved : Tiled (((tree.setView target .empty).setView source (.terminal other)).setView
      target (.terminal moved)) := by
    refine hother.setView ?_
    intro shown hview pane hpane hshown
    rw [← hview] at hshown
    rcases mem_setView hpane with ⟨-, hset⟩ | ⟨hid, hmem⟩
    · -- The source now shows the other terminal, which is not the one that moved.
      rw [hset] at hshown
      obtain rfl := TerminalPaneView.terminal.inj hshown
      exact absurd (congrArg Leaf.panelId (ht.once _ _ hsource _ htarget rfl rfl)) hst
    · rcases mem_setView hmem with ⟨htid, -⟩ | ⟨-, hmem⟩
      · exact htid
      · exact absurd (congrArg Leaf.panelId (ht.once moved pane hmem _ hsource hshown rfl)) hid
  refine ⟨hshadow ▸ hmoved, ?_, nofun⟩
  exact exists_setView.mpr (exists_setView.mpr ⟨_, htarget, rfl⟩)

/-- The terminal leaves its pane for the target, which shows none. -/
theorem wellFormed_move {view : TerminalPaneView} (ht : Tiled tree) (hst : source ≠ target)
    (htarget : ⟨target, view⟩ ∈ tree.leaves)
    (hsource : ⟨source, .terminal muxTerminalId⟩ ∈ tree.leaves) :
    WellFormed ⟨removeTerminalPanel (tree.setView target (.terminal muxTerminalId)) source, target,
      none⟩ := by
  have hfound : tree.getLeaf source ≠ none := by
    rw [← Option.isSome_iff_ne_none]
    exact getLeaf_isSome.mpr ⟨_, hsource, rfl⟩
  have hfound' : (tree.setView target (.terminal muxTerminalId)).getLeaf source ≠ none := by
    rw [← Option.isSome_iff_ne_none]
    exact getLeaf_isSome.mpr (exists_setView.mpr ⟨_, hsource, rfl⟩)
  obtain ⟨hclosed, hleaves⟩ :=
    ht.removeTerminalPanel_of_other ⟨_, hsource, rfl⟩ ⟨_, htarget, rfl⟩ hst
  obtain ⟨htiled, hkept, -⟩ := ht.removeTerminalPanel source
  have hcommute : removeTerminalPanel (tree.setView target (.terminal muxTerminalId)) source =
      (removeTerminalPanel tree source).setView target (.terminal muxTerminalId) := by
    obtain ⟨root, hroot, heq, -⟩ :=
      closePanel_of_other TerminalPaneView.empty htarget hst.symm
    have hlength : tree.leaves.length ≠ 1 := by
      intro hone
      obtain ⟨only, honly⟩ := List.length_eq_one_iff.mp hone
      rw [honly, List.mem_singleton] at hsource htarget
      exact hst (congrArg Leaf.panelId (hsource.trans htarget.symm))
    rw [hclosed, heq, removeTerminalPanel, if_neg hfound', if_neg (by
      rwa [leaves_setView, List.length_map]), closePanel, PanelTree.setView,
      PanelNode.removePanel_setView, hroot]
    rfl
  have hnew := ht.not_shown_filter hsource
  rw [← hleaves] at hnew
  rw [hcommute]
  exact wellFormed_showIn htiled (hkept target hst.symm ⟨_, htarget, rfl⟩) hnew

theorem WellFormed.dockAtCenter (hw : workspace.WellFormed) (target : ℕ)
    (htarget : workspace.tree.Exists target)
    (hne : findTerminalPanel workspace.tree muxTerminalId ≠ some target) :
    (workspace.dockAtCenter muxTerminalId (findTerminalPanel workspace.tree muxTerminalId)
      target).WellFormed := by
  unfold TerminalWorkspace.dockAtCenter
  dsimp only
  split
  · rename_i source hsource
    have hshown := exists_of_findTerminalPanel hsource
    have hst : source ≠ target := fun h => hne (hsource.trans (congrArg some h))
    split
    · rename_i other moved hother hmoved
      exact wellFormed_swap hw.tiled hst (leaf_of_getView hother) (leaf_of_getView hmoved)
    · obtain ⟨pane, hpane, rfl⟩ := htarget
      exact wellFormed_move hw.tiled hst hpane hshown
  · rename_i hsource
    have hnew := not_shown_of_findTerminalPanel hsource
    split
    · exact wellFormed_showIn hw.tiled htarget hnew
    split
    · exact hw
    · rename_i hroom
      exact wellFormed_showBeside hw.tiled htarget (not_le.mp hroom) hnew

theorem WellFormed.dockTerminalView (hw : workspace.WellFormed) (muxTerminalId : String)
    (target : ℕ) (action : DropAction) :
    (workspace.dockTerminalView muxTerminalId target action).WellFormed := by
  unfold TerminalWorkspace.dockTerminalView
  split
  · rename_i hexists
    have htarget := panelExists_iff.mp hexists
    dsimp only
    split
    · exact hw.focusTerminalPanel target
    · rename_i hne
      split
      · exact hw.dockAtCenter target htarget hne
      · exact hw.dockAtCenter target htarget hne
      · exact hw.dockAtCenter target htarget hne
      · exact hw.dockAtEdge target _ htarget hne
  · exact hw

theorem WellFormed.removeMissingTerminalViews (hw : workspace.WellFormed) (live : String → Bool) :
    (workspace.removeMissingTerminalViews live).WellFormed := by
  unfold TerminalWorkspace.removeMissingTerminalViews
  dsimp only
  generalize List.filterMap _ workspace.tree.leaves = missing
  induction missing generalizing workspace with
  | nil => exact hw
  | cons item missing ih => exact ih (hw.closeTerminalTab item.1 item.2)

theorem WellFormed.act (hw : workspace.WellFormed) (act : TilingAct) :
    (workspace.act act).WellFormed := by
  cases act with
  | openTerminalView muxTerminalId => exact hw.openTerminalView muxTerminalId
  | openTerminalViewInPanel panel muxTerminalId => exact hw.openTerminalViewInPanel panel _
  | focusTerminalPanel panel => exact hw.focusTerminalPanel panel
  | activateTerminalTab panel muxTerminalId => exact hw.activateTerminalTab panel muxTerminalId
  | reorderTerminalTabs panel muxTerminalId toIndex => exact hw
  | splitTerminalPanel panel edge => exact hw.splitTerminalPanel panel edge
  | toggleTerminalPanelZoom panel => exact hw.toggleTerminalPanelZoom panel
  | closeTerminalPanel panel => exact hw.closeTerminalPanel panel
  | closeTerminalTab panel muxTerminalId => exact hw.closeTerminalTab panel muxTerminalId
  | resizeTerminalSplit path ratios => exact hw.resizeTerminalSplit path ratios
  | dockTerminalView muxTerminalId target action => exact hw.dockTerminalView _ target action
  | removeMissingTerminalViews live => exact hw.removeMissingTerminalViews live

/-- Every sequence of operations on a new workspace keeps it well formed. -/
theorem tiling_well_formed (acts : List TilingAct) :
    (acts.foldl TerminalWorkspace.act createTerminalWorkspace).WellFormed := by
  suffices h : ∀ workspace : TerminalWorkspace, workspace.WellFormed →
      (acts.foldl TerminalWorkspace.act workspace).WellFormed from
    h _ wellFormed_createTerminalWorkspace
  induction acts with
  | nil => exact fun _ hw => hw
  | cons act acts ih => exact fun _ hw => ih _ (hw.act act)

end TerminalWorkspace
end PiDeck.Panels
