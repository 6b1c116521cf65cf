import Mathlib
import PiDeck.Panels.Workspace
import PiDeck.Tasks.Model

/-! The stored layout of a window. What is read back is checked field by field and its ratios are
made to sum to one; then the panes of terminals that are gone and the panes above the bound are
closed, and the terminals without a pane are opened. -/
namespace PiDeck.Panels
open PiDeck.Tasks (Value)

namespace PanelNode
variable {V : Type*}

mutual
def decEq [DecidableEq V] : (node other : PanelNode V) → Decidable (node = other)
  | .leaf pane, .leaf pane' => decidable_of_iff (pane = pane') (by simp)
  | .leaf _, .split .. => isFalse (by simp)
  | .split .., .leaf _ => isFalse (by simp)
  | .split kind children ratios, .split kind' children' ratios' =>
    have := decEqs children children'
    decidable_of_iff (kind = kind' ∧ children = children' ∧ ratios = ratios') (by simp)
def decEqs [DecidableEq V] : (children others : List (PanelNode V)) → Decidable (children = others)
  | [], [] => isTrue rfl
  | [], _ :: _ => isFalse (by simp)
  | _ :: _, [] => isFalse (by simp)
  | child :: children, child' :: children' =>
    have := decEq child child'
    have := decEqs children children'
    decidable_of_iff (child = child' ∧ children = children') (by simp)
end

instance [DecidableEq V] : DecidableEq (PanelNode V) := decEq

end PanelNode

deriving instance DecidableEq for PanelTree, TerminalWorkspace

/-! ### The schema -/

/-- `Number.MAX_SAFE_INTEGER`. -/
def maxSafeInteger : ℕ := 2 ^ 53 - 1

def positiveInteger : Value → Option ℕ
  | .number value =>
    if value.den = 1 ∧ 0 < value ∧ value ≤ maxSafeInteger then some value.num.toNat else none
  | _ => none

/-- The numbers of a layout are rationals, which are finite. -/
def positiveRatio : Value → Option ℚ
  | .number value => if 0 < value then some value else none
  | _ => none

def isIdCharacter (c : Char) : Bool := c.isAlphanum || c = '_' || c = '-'

/-- The pattern of a `MuxTerminalId`. -/
def isMuxTerminalId (text : String) : Bool :=
  match text.toList with
  | 't' :: 'e' :: 'r' :: 'm' :: '-' :: suffix => suffix ≠ [] && suffix.all isIdCharacter
  | _ => false

def muxTerminalId : Value → Option String
  | .string text => if isMuxTerminalId text then some text else none
  | _ => none

def kindOf (value : Value) : Option String := (value.get "kind").bind Value.asStr

def decodeView (value : Value) : Option TerminalPaneView :=
  if kindOf value = some "empty" then some .empty
  else if kindOf value = some "terminal" then
    ((value.get "muxTerminalId").bind muxTerminalId).map .terminal
  else none

def arrayOf : Value → Option (List Value)
  | .array values => some values
  | _ => none

def decodeLeaf (value : Value) : Option (Leaf TerminalPaneView) := do
  let panel ← value.get "panelId"
  let id ← panel.get "id"
  let panelId ← positiveInteger id
  let view ← value.get "view"
  return ⟨panelId, ← decodeView view⟩

/-- At least two values that all can be decoded. -/
def decodeItems {α : Type*} (decode : Value → Option α) (value : Value) : Option (List α) :=
  ((arrayOf value).bind (·.mapM decode)).filter (2 ≤ ·.length)

/-- `PersistedPanelNodeSchema`; every level of splits takes one of `depth`. -/
def decodeNode : ℕ → Value → Option (PanelNode TerminalPaneView)
  | 0, _ => none
  | depth + 1, value =>
    let decodeSplit (kind : SplitKind) : Option (PanelNode TerminalPaneView) := do
      let split ← value.get "split"
      let children ← split.get "children"
      let children ← decodeItems (decodeNode depth) children
      let ratios ← split.get "ratios"
      let ratios ← decodeItems positiveRatio ratios
      return .split kind children ratios
    match kindOf value with
    | some "leaf" => (decodeLeaf value).map .leaf
    | some "row" => decodeSplit .row
    | some "column" => decodeSplit .column
    | _ => none

mutual
/-- How deep arrays and objects are nested in the value. -/
def nesting : Value → ℕ
  | .array values => nestingOf values + 1
  | .object fields => fieldsNesting fields + 1
  | _ => 0
def nestingOf : List Value → ℕ
  | [] => 0
  | value :: values => max (nesting value) (nestingOf values)
def fieldNesting : String × Value → ℕ
  | (_, value) => nesting value
def fieldsNesting : List (String × Value) → ℕ
  | [] => 0
  | field :: fields => max (fieldNesting field) (fieldsNesting fields)
end

mutual
/-- The ratios of every split divided by their sum. -/
def runtimePanelNode {V : Type*} : PanelNode V → Option (PanelNode V)
  | .leaf pane => some (.leaf pane)
  | .split kind children ratios =>
    if children.length ≠ ratios.length then none
    else if ratios.sum ≤ 0 then none
    else (runtimePanelNodes children).map fun children =>
      .split kind children (ratios.map (· / ratios.sum))
def runtimePanelNodes {V : Type*} : List (PanelNode V) → Option (List (PanelNode V))
  | [] => some []
  | child :: children => (runtimePanelNode child).bind fun child =>
    (runtimePanelNodes children).map (child :: ·)
end

def maxPanelId {V : Type*} (node : PanelNode V) : ℕ := (node.leaves.map Leaf.panelId).foldl max 0

namespace PanelTree

/-- `fromJSON`: the counter of the snapshot, or one that is above all identifiers. -/
def fromJSON {V : Type*} (root : PanelNode V) (nextPanelId : ℕ) : PanelTree V :=
  let minimumNextId := maxPanelId root + 1
  ⟨root, if 0 < nextPanelId ∧ nextPanelId ≤ maxSafeInteger then max nextPanelId minimumNextId
    else minimumNextId⟩

end PanelTree

def decodeZoom : Value → Option (Option ℕ)
  | .null => some none
  | value => (positiveInteger value).map some

def isVersion : Value → Bool
  | .number version => version = 1
  | _ => false

/-- `PersistedTerminalWorkspaceSchema`: the root, the counter, the focus and the zoom. -/
def decodeWorkspace (value : Value) :
    Option (PanelNode TerminalPaneView × ℕ × ℕ × Option ℕ) := do
  let version ← value.get "version"
  guard (isVersion version)
  let tree ← value.get "tree"
  let root ← tree.get "root"
  let root ← decodeNode (nesting root) root
  let nextPanelId ← tree.get "nextPanelId"
  let nextPanelId ← positiveInteger nextPanelId
  let focusedPanelId ← value.get "focusedPanelId"
  let focusedPanelId ← positiveInteger focusedPanelId
  let zoomedPanelId ← value.get "zoomedPanelId"
  let zoomedPanelId ← decodeZoom zoomedPanelId
  return (root, nextPanelId, focusedPanelId, zoomedPanelId)

def runtimeWorkspace (root : PanelNode TerminalPaneView) (nextPanelId focusedPanelId : ℕ)
    (zoomedPanelId : Option ℕ) : Option TerminalWorkspace := do
  let root ← runtimePanelNode root
  let tree := PanelTree.fromJSON root nextPanelId
  guard (panelExists tree focusedPanelId)
  return ⟨tree, focusedPanelId, zoomedPanelId.filter (panelExists tree)⟩

section Restore
variable (jsonParse : String → Option Value)

def parseTerminalWorkspace (layoutJson : Option String) : Option TerminalWorkspace := do
  let text ← layoutJson
  guard (text ≠ "")
  let value ← jsonParse text
  let (root, nextPanelId, focusedPanelId, zoomedPanelId) ← decodeWorkspace value
  runtimeWorkspace root nextPanelId focusedPanelId zoomedPanelId

end Restore

/-! ### Repair -/

namespace TerminalWorkspace

/-- The pane that is closed above the bound: the first that shows nothing, else the last. -/
def surplusPanel (workspace : TerminalWorkspace) : Option ℕ :=
  let leaves := workspace.tree.leaves.map Leaf.panelId
  (leaves.find? (fun panel => workspace.tree.getView panel = some .empty)).or leaves.getLast?

/-- The loop of `capRestoredTerminalPanes`; every turn closes a pane at least. -/
def capPanes : ℕ → TerminalWorkspace → TerminalWorkspace
  | 0, workspace => workspace
  | turns + 1, workspace =>
    if maxTerminalTiles < workspace.terminalPaneCount then
      match workspace.surplusPanel with
      | some panel => capPanes turns (workspace.closeTerminalPanel panel)
      | none => workspace
    else workspace

def capRestoredTerminalPanes (workspace : TerminalWorkspace) : TerminalWorkspace :=
  capPanes workspace.terminalPaneCount workspace

/-- Identifiers are doubles: from `2 ^ 53` on adding one changes nothing. -/
def counted (workspace : TerminalWorkspace) : TerminalWorkspace :=
  { workspace with tree := { workspace.tree with
      nextPanelId := min workspace.tree.nextPanelId (2 ^ 53) } }

def terminalIds (workspace : TerminalWorkspace) : List String :=
  workspace.tree.leaves.filterMap fun pane => pane.view.terminal?

/-- The loop that opens the terminals that are not open. Only a workspace that has no room comes
back as it was. -/
def adopt : List String → List String → TerminalWorkspace → TerminalWorkspace
  | [], _, workspace => workspace
  | muxTerminalId :: live, shown, workspace =>
    if muxTerminalId ∈ shown then adopt live shown workspace
    else
      let next := workspace.openTerminalView muxTerminalId
      if next = workspace then workspace
      else adopt live (muxTerminalId :: shown) next.counted

end TerminalWorkspace

section Restore
variable (jsonParse : String → Option Value)

/-- The stored workspace once the panes that cannot stay are closed. No more than one identifier is
taken on the way. -/
def repairedWorkspace (layoutJson : Option String) (live : List String) : TerminalWorkspace :=
  ((parseTerminalWorkspace jsonParse layoutJson).getD
    createTerminalWorkspace).removeMissingTerminalViews (· ∈ live) |>.capRestoredTerminalPanes

def restoreTerminalWorkspace (layoutJson : Option String) (live : List String) :
    TerminalWorkspace :=
  let workspace := (repairedWorkspace jsonParse layoutJson live).counted
  workspace.adopt live workspace.terminalIds

end Restore

/-! ### Storing -/

def encodeView : TerminalPaneView → Value
  | .empty => .object [("kind", .string "empty")]
  | .terminal muxTerminalId =>
    .object [("kind", .string "terminal"), ("muxTerminalId", .string muxTerminalId)]

def SplitKind.name : SplitKind → String
  | .row => "row"
  | .column => "column"

mutual
def encodeNode : PanelNode TerminalPaneView → Value
  | .leaf pane => .object [("kind", .string "leaf"),
      ("panelId", .object [("id", .number pane.panelId)]), ("view", encodeView pane.view)]
  | .split kind children ratios => .object [("kind", .string kind.name),
      ("split", .object [("children", .array (encodeNodes children)),
        ("ratios", .array (ratios.map .number))])]
def encodeNodes : List (PanelNode TerminalPaneView) → List Value
  | [] => []
  | child :: children => encodeNode child :: encodeNodes children
end

def encodeWorkspace (workspace : TerminalWorkspace) : Value :=
  .object [("version", .number 1),
    ("tree", .object [("root", encodeNode workspace.tree.root),
      ("nextPanelId", .number workspace.tree.nextPanelId)]),
    ("focusedPanelId", .number workspace.focusedPanelId),
    ("zoomedPanelId", workspace.zoomedPanelId.elim .null fun panel => .number panel)]

def serializeTerminalWorkspace (stringify : Value → String) (workspace : TerminalWorkspace) : String :=
  stringify (encodeWorkspace workspace)

end PiDeck.Panels
