import Mathlib
import PiDeck.Panels.Tree

/-! The panes of one window. Every operation gives a new workspace and leaves the old one alone. -/
namespace PiDeck.Panels

/-- Maximum number of panes in one window. -/
def maxTerminalTiles : ℕ := 6

structure PanelTree (V : Type*) where
  root : PanelNode V
  nextPanelId : ℕ

inductive TerminalPaneView
  | empty
  | terminal (muxTerminalId : String)
  deriving DecidableEq, Repr

def TerminalPaneView.terminal? : TerminalPaneView → Option String
  | .empty => none
  | .terminal muxTerminalId => some muxTerminalId

namespace PanelTree
variable {V : Type*}

def leaves (tree : PanelTree V) : List (Leaf V) := tree.root.leaves

/-- The last leaf under the identifier. -/
def getLeaf (tree : PanelTree V) (panel : ℕ) : Option (Leaf V) :=
  tree.leaves.reverse.find? (fun pane => pane.panelId = panel)

def getView (tree : PanelTree V) (panel : ℕ) : Option V := (tree.getLeaf panel).map Leaf.view

def findPanelWithView (tree : PanelTree V) (predicate : V → Bool) : Option ℕ :=
  (tree.leaves.find? (fun pane => predicate pane.view)).map Leaf.panelId

def setView (tree : PanelTree V) (panel : ℕ) (view : V) : PanelTree V :=
  { tree with root := tree.root.setView panel view }

/-- The tree after the split and the identifier of its new leaf. -/
def splitAtEdge (tree : PanelTree V) (emptyView : V) (panel : ℕ) (edge : Edge) :
    PanelTree V × ℕ :=
  let newPanelId := tree.nextPanelId
  ({ root := tree.root.mapNode (PanelNode.replaceLeaf panel newPanelId emptyView edge)
     nextPanelId := tree.nextPanelId + 1 }, newPanelId)

def closePanel (tree : PanelTree V) (emptyView : V) (panel : ℕ) : PanelTree V :=
  match tree.root.removePanel panel with
  | some root => { tree with root := root }
  | none => ⟨.leaf ⟨tree.nextPanelId, emptyView⟩, tree.nextPanelId + 1⟩

def setSplitRatios (tree : PanelTree V) (path : List ℕ) (ratios : List (Option ℚ)) :
    Option (PanelTree V) :=
  (PanelNode.setSplitRatios ratios path tree.root).map fun root => { tree with root := root }

end PanelTree

structure TerminalWorkspace where
  tree : PanelTree TerminalPaneView
  focusedPanelId : ℕ
  zoomedPanelId : Option ℕ

inductive DropAction
  | moveToPane
  | split (edge : Edge)
  | insertAtBoundary
  deriving DecidableEq, Repr

/-- Without a leaf an identifier would be allocated, from the tree that is at hand. -/
def firstPanel (tree : PanelTree TerminalPaneView) : ℕ :=
  (tree.leaves.head?.map Leaf.panelId).getD tree.nextPanelId

def panelExists (tree : PanelTree TerminalPaneView) (panel : ℕ) : Bool :=
  (tree.getLeaf panel).isSome

def resolvedFocus (tree : PanelTree TerminalPaneView) (preferred : ℕ) : ℕ :=
  if panelExists tree preferred then preferred else firstPanel tree

def findTerminalPanel (tree : PanelTree TerminalPaneView) (muxTerminalId : String) : Option ℕ :=
  tree.findPanelWithView (fun view => view = .terminal muxTerminalId)

def removeTerminalPanel (tree : PanelTree TerminalPaneView) (panel : ℕ) :
    PanelTree TerminalPaneView :=
  if tree.getLeaf panel = none then tree
  else if tree.leaves.length = 1 then tree.setView panel .empty
  else tree.closePanel .empty panel

def createTerminalWorkspace : TerminalWorkspace :=
  let tree : PanelTree TerminalPaneView := ⟨.leaf ⟨1, .empty⟩, 2⟩
  ⟨tree, firstPanel tree, none⟩

namespace TerminalWorkspace

def terminalPaneCount (workspace : TerminalWorkspace) : ℕ := workspace.tree.leaves.length

def focusTerminalPanel (workspace : TerminalWorkspace) (panel : ℕ) : TerminalWorkspace :=
  if panelExists workspace.tree panel then
    if workspace.focusedPanelId = panel ∧ workspace.zoomedPanelId = none then workspace
    else { workspace with focusedPanelId := panel, zoomedPanelId := none }
  else workspace

/-- The pane at `panel` shows the terminal. -/
def showIn (tree : PanelTree TerminalPaneView) (panel : ℕ) (muxTerminalId : String) :
    TerminalWorkspace :=
  ⟨tree.setView panel (.terminal muxTerminalId), panel, none⟩

/-- A new pane beside `panel` shows the terminal. -/
def showBeside (tree : PanelTree TerminalPaneView) (panel : ℕ) (edge : Edge)
    (muxTerminalId : String) : TerminalWorkspace :=
  let (tree, created) := tree.splitAtEdge .empty panel edge
  showIn tree created muxTerminalId

def openTerminalView (workspace : TerminalWorkspace) (muxTerminalId : String) :
    TerminalWorkspace :=
  match findTerminalPanel workspace.tree muxTerminalId with
  | some existing => workspace.focusTerminalPanel existing
  | none =>
    let target := resolvedFocus workspace.tree workspace.focusedPanelId
    match workspace.tree.getView target with
    | none | some .empty => showIn workspace.tree target muxTerminalId
    | some (.terminal _) =>
      if maxTerminalTiles ≤ workspace.terminalPaneCount then workspace
      else showBeside workspace.tree target .right muxTerminalId

def openTerminalViewInPanel (workspace : TerminalWorkspace) (panel : ℕ) (muxTerminalId : String) :
    TerminalWorkspace :=
  match findTerminalPanel workspace.tree muxTerminalId with
  | some existing => workspace.focusTerminalPanel existing
  | none =>
    if workspace.tree.getView panel = some .empty then
      showIn workspace.tree panel muxTerminalId
    else workspace.openTerminalView muxTerminalId

def activateTerminalTab (workspace : TerminalWorkspace) (panel : ℕ) (muxTerminalId : String) :
    TerminalWorkspace :=
  if workspace.tree.getView panel = some (.terminal muxTerminalId) then
    workspace.focusTerminalPanel panel
  else workspace

/-- A pane with one terminal has no order of its own. -/
def reorderTerminalTabs (workspace : TerminalWorkspace) (_panel : ℕ) (_muxTerminalId : String)
    (_toIndex : ℤ) : TerminalWorkspace :=
  workspace

def splitTerminalPanel (workspace : TerminalWorkspace) (panel : ℕ) (edge : Edge) :
    TerminalWorkspace :=
  if panelExists workspace.tree panel then
    if maxTerminalTiles ≤ workspace.terminalPaneCount then workspace
    else
      let (tree, created) := workspace.tree.splitAtEdge .empty panel edge
      ⟨tree, created, none⟩
  else workspace

def toggleTerminalPanelZoom (workspace : TerminalWorkspace) (panel : ℕ) : TerminalWorkspace :=
  if panelExists workspace.tree panel = false ∨ workspace.terminalPaneCount < 2 then workspace
  else { workspace with
    focusedPanelId := panel
    zoomedPanelId := if workspace.zoomedPanelId = some panel then none else some panel }

def closeTerminalPanel (workspace : TerminalWorkspace) (panel : ℕ) : TerminalWorkspace :=
  if panelExists workspace.tree panel then
    let tree := removeTerminalPanel workspace.tree panel
    { tree := tree
      focusedPanelId := resolvedFocus tree workspace.focusedPanelId
      zoomedPanelId :=
        if workspace.zoomedPanelId = some panel then none else workspace.zoomedPanelId }
  else workspace

def closeTerminalTab (workspace : TerminalWorkspace) (panel : ℕ) (muxTerminalId : String) :
    TerminalWorkspace :=
  if workspace.tree.getView panel = some (.terminal muxTerminalId) then
    workspace.closeTerminalPanel panel
  else workspace

def resizeTerminalSplit (workspace : TerminalWorkspace) (path : List ℕ)
    (ratios : List (Option ℚ)) : TerminalWorkspace :=
  match workspace.tree.setSplitRatios path ratios with
  | some tree => { workspace with tree := tree }
  | none => workspace

/-- A terminal dropped beside another pane, at one of its edges. -/
def dockAtEdge (workspace : TerminalWorkspace) (muxTerminalId : String) (source : Option ℕ)
    (target : ℕ) (edge : Edge) : TerminalWorkspace :=
  if source = none ∧ maxTerminalTiles ≤ workspace.terminalPaneCount then workspace
  else
    let tree := match source with
      | some source => removeTerminalPanel workspace.tree source
      | none => workspace.tree
    if panelExists tree target then showBeside tree target edge muxTerminalId else workspace

/-- A terminal dropped onto another pane. Two terminals change places. -/
def dockAtCenter (workspace : TerminalWorkspace) (muxTerminalId : String) (source : Option ℕ)
    (target : ℕ) : TerminalWorkspace :=
  let tree := workspace.tree
  match source with
  | some source =>
    match tree.getView target, tree.getView source with
    | some (.terminal other), some (.terminal moved) =>
      ⟨(tree.setView source (.terminal other)).setView target (.terminal moved), target, none⟩
    | _, _ =>
      ⟨removeTerminalPanel (tree.setView target (.terminal muxTerminalId)) source, target, none⟩
  | none =>
    if tree.getView target = some .empty then showIn tree target muxTerminalId
    else if maxTerminalTiles ≤ workspace.terminalPaneCount then workspace
    else showBeside tree target .right muxTerminalId

def dockTerminalView (workspace : TerminalWorkspace) (muxTerminalId : String) (target : ℕ)
    (action : DropAction) : TerminalWorkspace :=
  if panelExists workspace.tree target then
    let source := findTerminalPanel workspace.tree muxTerminalId
    if source = some target then workspace.focusTerminalPanel target
    else match action with
      | .split .center | .moveToPane | .insertAtBoundary =>
        workspace.dockAtCenter muxTerminalId source target
      | .split edge => workspace.dockAtEdge muxTerminalId source target edge
  else workspace

/-- The panes whose terminal is gone are closed one after the other. -/
def removeMissingTerminalViews (workspace : TerminalWorkspace) (live : String → Bool) :
    TerminalWorkspace :=
  let missing := workspace.tree.leaves.filterMap fun pane =>
    match pane.view with
    | .terminal muxTerminalId =>
      if live muxTerminalId then none else some (pane.panelId, muxTerminalId)
    | .empty => none
  missing.foldl (fun workspace item => workspace.closeTerminalTab item.1 item.2) workspace

end TerminalWorkspace

inductive TilingAct
  | openTerminalView (muxTerminalId : String)
  | openTerminalViewInPanel (panel : ℕ) (muxTerminalId : String)
  | focusTerminalPanel (panel : ℕ)
  | activateTerminalTab (panel : ℕ) (muxTerminalId : String)
  | reorderTerminalTabs (panel : ℕ) (muxTerminalId : String) (toIndex : ℤ)
  | splitTerminalPanel (panel : ℕ) (edge : Edge)
  | toggleTerminalPanelZoom (panel : ℕ)
  | closeTerminalPanel (panel : ℕ)
  | closeTerminalTab (panel : ℕ) (muxTerminalId : String)
  | resizeTerminalSplit (path : List ℕ) (ratios : List (Option ℚ))
  | dockTerminalView (muxTerminalId : String) (target : ℕ) (action : DropAction)
  | removeMissingTerminalViews (live : String → Bool)

def TerminalWorkspace.act (workspace : TerminalWorkspace) : TilingAct → TerminalWorkspace
  | .openTerminalView muxTerminalId => workspace.openTerminalView muxTerminalId
  | .openTerminalViewInPanel panel muxTerminalId =>
    workspace.openTerminalViewInPanel panel muxTerminalId
  | .focusTerminalPanel panel => workspace.focusTerminalPanel panel
  | .activateTerminalTab panel muxTerminalId => workspace.activateTerminalTab panel muxTerminalId
  | .reorderTerminalTabs panel muxTerminalId toIndex =>
    workspace.reorderTerminalTabs panel muxTerminalId toIndex
  | .splitTerminalPanel panel edge => workspace.splitTerminalPanel panel edge
  | .toggleTerminalPanelZoom panel => workspace.toggleTerminalPanelZoom panel
  | .closeTerminalPanel panel => workspace.closeTerminalPanel panel
  | .closeTerminalTab panel muxTerminalId => workspace.closeTerminalTab panel muxTerminalId
  | .resizeTerminalSplit path ratios => workspace.resizeTerminalSplit path ratios
  | .dockTerminalView muxTerminalId target action =>
    workspace.dockTerminalView muxTerminalId target action
  | .removeMissingTerminalViews live => workspace.removeMissingTerminalViews live

end PiDeck.Panels
