import Mathlib
import PiDeck.Panels.Stored

/-! The loop that gives the terminals without a pane one. It fills the focused pane where that is
empty and splits the focused pane from then on; where the identifier of the focused pane repeats,
every pane under it is filled or split. -/
namespace PiDeck.Panels
open PiDeck.Tasks (Value)
open PanelTree

section Leaves
variable {tree : PanelTree TerminalPaneView} {panel created : ℕ} {view : TerminalPaneView}
  {pane : Leaf TerminalPaneView}

/-- The panes once every pane under `panel` has a new one to its right. -/
def besides (panel : ℕ) (added : Leaf TerminalPaneView) (panes : List (Leaf TerminalPaneView)) :
    List (Leaf TerminalPaneView) :=
  panes.flatMap fun pane => if pane.panelId = panel then [pane, added] else [pane]

theorem leaves_splitAtEdge_right : (tree.splitAtEdge .empty panel .right).1.leaves =
    besides panel ⟨tree.nextPanelId, .empty⟩ tree.leaves := by
  rw [leaves_splitAtEdge, besides]
  refine List.flatMap_congr fun pane _ => ?_
  by_cases h : pane.panelId = panel
  · simp [PanelNode.replaceLeaf, h]
  · simp [PanelNode.replaceLeaf, h]

theorem mem_besides {added : Leaf TerminalPaneView} {panes : List (Leaf TerminalPaneView)} :
    pane ∈ besides panel added panes ↔
      pane ∈ panes ∨ pane = added ∧ ∃ old ∈ panes, old.panelId = panel := by
  rw [besides, List.mem_flatMap]
  constructor
  · rintro ⟨old, hold, hmem⟩
    split at hmem
    · rename_i hid
      rcases List.mem_pair.mp hmem with rfl | rfl
      · exact .inl hold
      · exact .inr ⟨rfl, old, hold, hid⟩
    · obtain rfl := List.mem_singleton.mp hmem
      exact .inl hold
  · rintro (hmem | ⟨rfl, old, hold, hid⟩)
    · refine ⟨pane, hmem, ?_⟩
      split
      · exact List.mem_cons_self
      · exact List.mem_cons_self
    · exact ⟨old, hold, by simp [hid]⟩

end Leaves

namespace TerminalWorkspace
variable {workspace next : TerminalWorkspace} {muxTerminalId id : String} {live shown : List String}
  {panel counter : ℕ}

/-- Some pane shows the terminal. -/
def Shows (workspace : TerminalWorkspace) (muxTerminalId : String) : Prop :=
  ∃ pane ∈ workspace.tree.leaves, pane.view = .terminal muxTerminalId

theorem getView_setView {tree : PanelTree TerminalPaneView} {view : TerminalPaneView}
    (hexists : tree.Exists panel) : (tree.setView panel view).getView panel = some view := by
  obtain ⟨pane, hpane⟩ := Option.isSome_iff_exists.mp (getLeaf_isSome.mpr (exists_setView.mpr hexists))
  have hmem : ⟨panel, pane.view⟩ ∈ (tree.setView panel view).leaves :=
    leaf_of_getView (by rw [getView, hpane]; rfl)
  rw [getView, hpane]
  rcases mem_setView hmem with ⟨-, hview⟩ | ⟨hne, -⟩
  · exact congrArg some hview
  · exact absurd rfl hne

theorem shows_opened {tree : PanelTree TerminalPaneView} (hexists : tree.Exists panel) :
    (showIn tree panel muxTerminalId).Shows muxTerminalId :=
  ⟨_, leaf_of_getView (getView_setView hexists), rfl⟩

/-- Opening one terminal shows no other one. -/
theorem shows_of_openTerminalView (hne : id ≠ muxTerminalId)
    (h : (workspace.openTerminalView muxTerminalId).Shows id) : workspace.Shows id := by
  have hset : ∀ {tree : PanelTree TerminalPaneView} {panel : ℕ},
      (showIn tree panel muxTerminalId).Shows id → ∃ pane ∈ tree.leaves, pane.view = .terminal id := by
    rintro tree panel ⟨pane, hpane, hview⟩
    rcases mem_setView hpane with ⟨-, hset⟩ | ⟨-, hmem⟩
    · rw [hset] at hview
      exact absurd (TerminalPaneView.terminal.inj hview).symm hne
    · exact ⟨pane, hmem, hview⟩
  rw [openTerminalView] at h
  split at h
  · rw [TerminalWorkspace.focusTerminalPanel] at h
    split at h
    · split at h
      · exact h
      · exact h
    · exact h
  · dsimp only at h
    split at h
    · exact hset h
    · exact hset h
    · split at h
      · exact h
      · obtain ⟨pane, hpane, hview⟩ := hset h
        rcases mem_besides.mp (leaves_splitAtEdge_right ▸ hpane) with hmem | ⟨rfl, -⟩
        · exact ⟨pane, hmem, hview⟩
        · cases hview

theorem leaves_counted : workspace.counted.tree.leaves = workspace.tree.leaves := rfl

def toOpen (shown live : List String) : List String := (live.filter (· ∉ shown)).dedup

/-- The workspace of the loop, with a counter that goes on where that of the tree stays. -/
structure Filling (workspace : TerminalWorkspace) (counter : ℕ) : Prop where
  focused : workspace.tree.Exists workspace.focusedPanelId
  below : ∀ pane ∈ workspace.tree.leaves, pane.panelId < counter
  counts : workspace.tree.nextPanelId = min counter (2 ^ 53)
  top : counter ≤ 2 ^ 53 + 1

/-- The panes under the identifier of the focused one. -/
def focusPanes (workspace : TerminalWorkspace) : List (Leaf TerminalPaneView) :=
  workspace.tree.leaves.filter fun pane => pane.panelId = workspace.focusedPanelId

theorem leaves_showBeside {tree : PanelTree TerminalPaneView}
    (hfresh : ∀ pane ∈ tree.leaves, pane.panelId ≠ tree.nextPanelId) :
    (showBeside tree panel .right muxTerminalId).tree.leaves =
      besides panel ⟨tree.nextPanelId, .terminal muxTerminalId⟩ tree.leaves := by
  change ((tree.splitAtEdge .empty panel .right).1.setView tree.nextPanelId
    (.terminal muxTerminalId)).leaves = _
  rw [leaves_setView, leaves_splitAtEdge_right, besides, besides, List.map_flatMap]
  refine List.flatMap_congr fun pane hpane => ?_
  have hne := hfresh pane hpane
  by_cases h : pane.panelId = panel
  · rw [if_pos h, if_pos h]
    simp [hne]
  · rw [if_neg h, if_neg h]
    simp [hne]

/-- A split whose identifier is new. -/
theorem Filling.showBeside (hfill : workspace.Filling counter) (hcounter : counter ≤ 2 ^ 53)
    (hopened : next = TerminalWorkspace.showBeside workspace.tree workspace.focusedPanelId .right
      muxTerminalId) :
    next.counted.Filling (counter + 1) ∧ next.counted.focusedPanelId = counter ∧
      next.counted.tree.leaves =
        besides workspace.focusedPanelId ⟨counter, .terminal muxTerminalId⟩ workspace.tree.leaves := by
  have hnext : workspace.tree.nextPanelId = counter := hfill.counts.trans (min_eq_left hcounter)
  have hfresh : ∀ pane ∈ workspace.tree.leaves, pane.panelId ≠ workspace.tree.nextPanelId := by
    intro pane hpane
    rw [hnext]
    exact (hfill.below pane hpane).ne
  have hleaves : next.tree.leaves = besides workspace.focusedPanelId ⟨counter, .terminal muxTerminalId⟩
      workspace.tree.leaves := by
    rw [hopened, leaves_showBeside hfresh, hnext]
  have hfocus : next.focusedPanelId = counter := by
    rw [hopened, ← hnext]
    rfl
  have hcount : next.tree.nextPanelId = counter + 1 := by
    rw [hopened, ← hnext]
    rfl
  refine ⟨⟨?_, ?_, ?_, by omega⟩, hfocus, hleaves⟩
  · obtain ⟨pane, hpane, hid⟩ := hfill.focused
    refine ⟨⟨counter, .terminal muxTerminalId⟩, ?_, hfocus.symm⟩
    rw [leaves_counted, hleaves]
    exact mem_besides.mpr (.inr ⟨rfl, pane, hpane, hid⟩)
  · intro pane hpane
    rw [leaves_counted, hleaves] at hpane
    rcases mem_besides.mp hpane with hmem | ⟨rfl, -⟩
    · exact (hfill.below pane hmem).trans (Nat.lt_succ_self _)
    · exact Nat.lt_succ_self _
  · rw [counted, hcount]

/-- The loop once the focused pane shows a terminal: no terminal that is open has lost its pane, and
what was opened under the last identifier is shown under no other. -/
structure Splitting (workspace : TerminalWorkspace) (counter : ℕ) (wanted shown live : List String) :
    Prop where
  filling : workspace.Filling counter
  terminal : ∃ other, workspace.tree.getView workspace.focusedPanelId = some (.terminal other)
  opens : ∀ id, workspace.Shows id → id ∈ shown
  kept : ∀ id ∈ wanted, id ∈ shown → workspace.Shows id
  rest : ∀ id ∈ wanted, id ∈ shown ∨ id ∈ live
  wants : ∀ id ∈ live, id ∈ wanted
  last : counter = 2 ^ 53 + 1 → ∃ last ∈ wanted, last ∈ shown ∧
    ∀ pane ∈ workspace.tree.leaves, pane.view = .terminal last → pane.panelId = 2 ^ 53

namespace Splitting
variable {wanted : List String}

theorem skip (h : workspace.Splitting counter wanted shown (muxTerminalId :: live))
    (hmem : muxTerminalId ∈ shown) : workspace.Splitting counter wanted shown live where
  filling := h.filling
  terminal := h.terminal
  opens := h.opens
  kept := h.kept
  rest := by
    intro id hid
    rcases h.rest id hid with hshown | hcons
    · exact .inl hshown
    · rcases List.mem_cons.mp hcons with rfl | htail
      · exact .inl hmem
      · exact .inr htail
  wants := fun id hid => h.wants id (List.mem_cons_of_mem _ hid)
  last := h.last

theorem exists_created (h : workspace.Splitting counter wanted shown live) :
    (workspace.tree.splitAtEdge .empty workspace.focusedPanelId .right).1.Exists
      workspace.tree.nextPanelId := by
  obtain ⟨pane, hpane, hid⟩ := h.filling.focused
  refine ⟨⟨workspace.tree.nextPanelId, .empty⟩, ?_, rfl⟩
  rw [leaves_splitAtEdge_right]
  exact mem_besides.mpr (.inr ⟨rfl, pane, hpane, hid⟩)

/-- A split with a new identifier. -/
theorem split (h : workspace.Splitting counter wanted shown (muxTerminalId :: live))
    (hmem : muxTerminalId ∉ shown) (hcounter : counter ≤ 2 ^ 53)
    (hopened : workspace.openTerminalView muxTerminalId =
      TerminalWorkspace.showBeside workspace.tree workspace.focusedPanelId .right muxTerminalId) :
    (workspace.openTerminalView muxTerminalId).counted.Splitting (counter + 1) wanted
      (muxTerminalId :: shown) live := by
  obtain ⟨hfill, hfocus, hleaves⟩ := h.filling.showBeside hcounter hopened
  refine ⟨hfill, ⟨muxTerminalId, ?_⟩, ?_, ?_, ?_,
    fun id hid => h.wants id (List.mem_cons_of_mem _ hid), ?_⟩
  · rw [hfocus, hopened, ← min_eq_left hcounter, ← h.filling.counts]
    exact getView_setView h.exists_created
  · intro id hid
    by_cases hne : id = muxTerminalId
    · exact hne ▸ List.mem_cons_self
    · exact List.mem_cons_of_mem _ (h.opens id (shows_of_openTerminalView hne hid))
  · intro id hid hcons
    rcases List.mem_cons.mp hcons with rfl | hold
    · rw [hopened]
      exact shows_opened h.exists_created
    · obtain ⟨pane, hpane, hview⟩ := h.kept id hid hold
      refine ⟨pane, ?_, hview⟩
      rw [hleaves]
      exact mem_besides.mpr (.inl hpane)
  · intro id hid
    rcases h.rest id hid with hold | hcons
    · exact .inl (List.mem_cons_of_mem _ hold)
    · rcases List.mem_cons.mp hcons with rfl | htail
      · exact .inl List.mem_cons_self
      · exact .inr htail
  · intro hlast
    refine ⟨muxTerminalId, h.wants _ List.mem_cons_self, List.mem_cons_self, ?_⟩
    intro pane hpane hview
    rw [hleaves] at hpane
    rcases mem_besides.mp hpane with hold | ⟨rfl, -⟩
    · exact absurd (h.opens _ ⟨pane, hold, hview⟩) hmem
    · exact Nat.succ.inj hlast

end Splitting

/-- The terminal is shown in a pane that does not have the focused identifier. -/
def ShowsAside (workspace : TerminalWorkspace) (muxTerminalId : String) : Prop :=
  ∃ pane ∈ workspace.tree.leaves, pane.panelId ≠ workspace.focusedPanelId ∧
    pane.view = .terminal muxTerminalId

/-- Filling a pane moves no pane and gives out no identifier. -/
theorem filling_showIn (hfill : workspace.Filling counter)
    (hopened : next = showIn workspace.tree workspace.focusedPanelId muxTerminalId) :
    next.counted.Filling counter ∧ next.counted.terminalPaneCount = workspace.terminalPaneCount ∧
      next.counted.focusPanes.length = workspace.focusPanes.length := by
  subst hopened
  have hids : ((showIn workspace.tree workspace.focusedPanelId muxTerminalId).counted.tree.leaves.map
      Leaf.panelId) = workspace.tree.leaves.map Leaf.panelId := ids_setView
  refine ⟨⟨exists_setView.mpr hfill.focused, ?_, ?_, hfill.top⟩, ?_, ?_⟩
  · intro pane hpane
    have hid := List.mem_map_of_mem (f := Leaf.panelId) hpane
    rw [hids] at hid
    obtain ⟨old, hold, hid⟩ := List.mem_map.mp hid
    rw [← hid]
    exact hfill.below old hold
  · change min workspace.tree.nextPanelId (2 ^ 53) = min counter (2 ^ 53)
    rw [hfill.counts, min_assoc, min_self]
  · have hlength := congrArg List.length hids
    rw [List.length_map, List.length_map] at hlength
    exact hlength
  · have hcount : ∀ panes : List (Leaf TerminalPaneView),
        (panes.filter fun pane => pane.panelId = workspace.focusedPanelId).length =
        ((panes.map Leaf.panelId).filter (· = workspace.focusedPanelId)).length := by
      intro panes
      rw [List.filter_map, List.length_map]
      rfl
    exact (hcount _).trans ((congrArg (fun ids : List ℕ =>
      (ids.filter (· = workspace.focusedPanelId)).length) hids).trans (hcount _).symm)

/-- What is left of a stored window has room for the terminals without a pane: filling the focused
pane covers no other terminal, the splits keep below the bound, and no identifier is given out
twice. -/
def HasRoom (workspace : TerminalWorkspace) (live : List String) : Prop :=
  let missing := (toOpen workspace.terminalIds live).length
  let fills := workspace.tree.getView workspace.focusedPanelId = some .empty
  let splits := if fills then missing - 1 else missing
  0 < missing →
    (fills → ∀ id ∈ live, workspace.Shows id → workspace.ShowsAside id) ∧
    (0 < splits → workspace.terminalPaneCount + (splits - 1) * workspace.focusPanes.length <
        maxTerminalTiles ∧
      workspace.tree.nextPanelId + splits ≤ 2 ^ 53 + 1)

theorem Sturdy.filling (hw : workspace.Sturdy) :
    workspace.counted.Filling workspace.tree.nextPanelId where
  focused := hw.focused
  below := hw.below
  counts := rfl
  top := by
    rcases hw.counts with hle | ⟨heq, -⟩
    · omega
    · omega

end TerminalWorkspace

end PiDeck.Panels
