import Mathlib
import PiDeck.Panels.Adoption

/-! What the repair of a stored layout makes sure of. Splits, focus, zoom and the bound always come out
right; repeated identifiers and repeated terminals are never looked for, so that they are gone only
where their panes were closed for another reason. -/
namespace PiDeck.Panels
open PiDeck.Tasks (Value)
open PanelTree

/-- Panes with distinct identifiers and distinct terminals, all of which live. -/
structure Sound (panes : List (Leaf TerminalPaneView)) (live : List String) : Prop where
  distinct : (panes.map Leaf.panelId).Nodup
  once : ∀ muxTerminalId, ∀ pane ∈ panes, ∀ pane' ∈ panes,
    pane.view = .terminal muxTerminalId → pane'.view = .terminal muxTerminalId → pane = pane'
  lives : ∀ pane ∈ panes, ∀ muxTerminalId, pane.view = .terminal muxTerminalId →
    muxTerminalId ∈ live

section Panes
variable {panes : List (Leaf TerminalPaneView)} {added : Leaf TerminalPaneView} {panel : ℕ}

end Panes

namespace TerminalWorkspace
variable {workspace : TerminalWorkspace} {muxTerminalId : String} {live shown wanted : List String}
  {counter : ℕ}

/-- The workspace of the loop, whatever its identifiers. -/
structure Adopting (workspace : TerminalWorkspace) (counter : ℕ) (wanted shown live : List String) :
    Prop where
  filling : workspace.Filling counter
  splits : workspace.tree.root.WellSplit
  zoomed : ∀ panel, workspace.zoomedPanelId = some panel → workspace.tree.Exists panel
  opens : ∀ id, workspace.Shows id → id ∈ shown
  wants : ∀ id ∈ live, id ∈ wanted
  given : counter = 2 ^ 53 + 1 → workspace.tree.Exists (2 ^ 53)

theorem Adopting.skip (h : workspace.Adopting counter wanted shown (muxTerminalId :: live)) :
    workspace.Adopting counter wanted shown live :=
  { h with wants := fun id hid => h.wants id (List.mem_cons_of_mem _ hid) }

theorem Adopting.fill (h : workspace.Adopting counter wanted shown (muxTerminalId :: live))
    (hopened : workspace.openTerminalView muxTerminalId =
      showIn workspace.tree workspace.focusedPanelId muxTerminalId) :
    (workspace.openTerminalView muxTerminalId).counted.Adopting counter wanted
      (muxTerminalId :: shown) live := by
  refine ⟨(filling_showIn h.filling hopened).1, ?_, ?_, ?_, h.skip.wants, ?_⟩
  · rw [hopened]
    exact h.splits.setView
  · intro panel hzoomed
    rw [hopened] at hzoomed
    cases hzoomed
  · intro id hid
    by_cases hne : id = muxTerminalId
    · exact hne ▸ List.mem_cons_self
    · exact List.mem_cons_of_mem _ (h.opens id (shows_of_openTerminalView hne hid))
  · intro hcounter
    rw [hopened]
    exact exists_setView.mpr (h.given hcounter)

theorem Adopting.split (h : workspace.Adopting counter wanted shown (muxTerminalId :: live))
    (hcounter : counter ≤ 2 ^ 53)
    (hopened : workspace.openTerminalView muxTerminalId =
      showBeside workspace.tree workspace.focusedPanelId .right muxTerminalId) :
    (workspace.openTerminalView muxTerminalId).counted.Adopting (counter + 1) wanted
      (muxTerminalId :: shown) live := by
  obtain ⟨hfill, hfocus, hleaves⟩ := h.filling.showBeside hcounter hopened
  refine ⟨hfill, ?_, ?_, ?_, h.skip.wants, ?_⟩
  · rw [hopened]
    exact (h.splits.mapNode PanelNode.wellSplit_replaceLeaf).setView
  · intro panel hzoomed
    rw [hopened] at hzoomed
    cases hzoomed
  · intro id hid
    by_cases hne : id = muxTerminalId
    · exact hne ▸ List.mem_cons_self
    · exact List.mem_cons_of_mem _ (h.opens id (shows_of_openTerminalView hne hid))
  · intro hlast
    rw [← Nat.succ.inj hlast, ← hfocus]
    exact hfill.focused

end TerminalWorkspace
/-! ### What is left of the stored panes -/

section Survivors
variable {workspace : TerminalWorkspace} {panes : List (Leaf TerminalPaneView)} {panel other : ℕ}

end Survivors

end PiDeck.Panels
