import Mathlib
import PiDeck.Panels.Stored

/-! A well formed workspace that is stored and read back: every check lets it pass, and every repair
leaves it alone. -/
namespace PiDeck.Panels
open PiDeck.Tasks (Value)

/-! ### What is decoded again -/

theorem positiveInteger_natCast {n : ℕ} (hpositive : 0 < n) (hsafe : n ≤ maxSafeInteger) :
    positiveInteger (.number n) = some n := by
  have hpos : (0 : ℚ) < n := by exact_mod_cast hpositive
  have hle : (n : ℚ) ≤ maxSafeInteger := by exact_mod_cast hsafe
  rw [positiveInteger, if_pos ⟨Rat.den_natCast n, hpos, hle⟩, Rat.num_natCast]
  rfl

/-- A pane that the schema lets pass. -/
def Storable (pane : Leaf TerminalPaneView) : Prop :=
  0 < pane.panelId ∧ pane.panelId ≤ maxSafeInteger ∧
    ∀ muxTerminalId, pane.view = .terminal muxTerminalId → isMuxTerminalId muxTerminalId = true

theorem decodeView_encodeView {view : TerminalPaneView}
    (h : ∀ muxTerminalId, view = .terminal muxTerminalId → isMuxTerminalId muxTerminalId = true) :
    decodeView (encodeView view) = some view := by
  cases view with
  | empty => rfl
  | terminal id =>
    have hid : muxTerminalId (.string id) = some id := if_pos (h id rfl)
    have hget : (encodeView (.terminal id)).get "muxTerminalId" = some (.string id) := rfl
    have hkind : kindOf (encodeView (.terminal id)) = some "terminal" := rfl
    simp [decodeView, hkind, hget, hid]

theorem decodeLeaf_encodeNode {pane : Leaf TerminalPaneView} (h : Storable pane) :
    decodeLeaf (encodeNode (.leaf pane)) = some pane := by
  obtain ⟨hpositive, hsafe, hview⟩ := h
  have hpanel : (encodeNode (.leaf pane)).get "panelId" =
      some (.object [("id", .number pane.panelId)]) := rfl
  have hid : (Value.object [("id", .number pane.panelId)]).get "id" = some (.number pane.panelId) := rfl
  have hget : (encodeNode (.leaf pane)).get "view" = some (encodeView pane.view) := rfl
  simp [decodeLeaf, hpanel, hid, hget, positiveInteger_natCast hpositive hsafe,
    decodeView_encodeView hview]

theorem encodeNodes_eq (children : List (PanelNode TerminalPaneView)) :
    encodeNodes children = children.map encodeNode := by
  induction children with
  | nil => rfl
  | cons child children ih => rw [encodeNodes, ih, List.map_cons]

theorem mapM_map_some {α β : Type*} {f : β → Option α} {g : α → β} {xs : List α}
    (h : ∀ x ∈ xs, f (g x) = some x) : (xs.map g).mapM f = some xs := by
  induction xs with
  | nil => rfl
  | cons x xs ih =>
    rw [List.map_cons, List.mapM_cons, h x List.mem_cons_self,
      ih fun y hy => h y (List.mem_cons_of_mem _ hy)]
    rfl

theorem decodeItems_encoded {α : Type*} {decode : Value → Option α} {encode : α → Value}
    {items : List α} (hitems : ∀ item ∈ items, decode (encode item) = some item)
    (htwo : 2 ≤ items.length) : decodeItems decode (.array (items.map encode)) = some items := by
  rw [decodeItems, arrayOf, Option.bind_some, mapM_map_some hitems]
  simp [Option.filter, htwo]

/-- A node is decoded as it was, by as many levels as it has and by more. -/
theorem decodeNode_encodeNode {node : PanelNode TerminalPaneView} (hwell : node.WellSplit)
    (hpanes : ∀ pane ∈ node.leaves, Storable pane) {depth : ℕ}
    (hdepth : nesting (encodeNode node) ≤ depth) : decodeNode depth (encodeNode node) = some node := by
  induction hwell generalizing depth with
  | @leaf pane =>
    cases depth with
    | zero =>
      rw [encodeNode, nesting] at hdepth
      omega
    | succ depth =>
      have hkind : kindOf (encodeNode (.leaf pane)) = some "leaf" := rfl
      rw [decodeNode]
      simp only [hkind, decodeLeaf_encodeNode (hpanes pane List.mem_cons_self), Option.map_some]
  | @split kind children ratios two divides all ih =>
    cases depth with
    | zero =>
      rw [encodeNode, nesting] at hdepth
      omega
    | succ depth =>
      have hkind : kindOf (encodeNode (.split kind children ratios)) = some kind.name := rfl
      have hsplit : (encodeNode (.split kind children ratios)).get "split" =
          some (.object [("children", .array (encodeNodes children)),
            ("ratios", .array (ratios.map .number))]) := rfl
      have hchildren : (Value.object [("children", .array (encodeNodes children)),
          ("ratios", .array (ratios.map .number))]).get "children" =
          some (.array (encodeNodes children)) := rfl
      have hratios : (Value.object [("children", .array (encodeNodes children)),
          ("ratios", .array (ratios.map .number))]).get "ratios" =
          some (.array (ratios.map .number)) := rfl
      have hnodes : decodeItems (decodeNode depth) (.array (encodeNodes children)) = some children := by
        rw [encodeNodes_eq]
        refine decodeItems_encoded (fun child hchild => ?_) two
        refine ih child hchild (fun pane hpane => ?_) ?_
        · apply hpanes pane
          rw [PanelNode.leaves_split]
          exact List.mem_flatMap.mpr ⟨child, hchild, hpane⟩
        · have hle := nesting_le_of_mem (List.mem_map_of_mem (f := encodeNode) hchild)
          have hlt := nesting_get hsplit
          have hlt' := nesting_get hchildren
          rw [← encodeNodes_eq] at hle
          rw [nesting] at hlt'
          omega
      have hshares : decodeItems positiveRatio (.array (ratios.map .number)) = some ratios := by
        refine decodeItems_encoded (fun ratio hratio => ?_) (divides.length ▸ two)
        exact if_pos (divides.pos ratio hratio)
      rw [decodeNode]
      cases kind with
      | row => simp [hkind, SplitKind.name, hsplit, hchildren, hratios, hnodes, hshares]
      | column => simp [hkind, SplitKind.name, hsplit, hchildren, hratios, hnodes, hshares]

/-- Ratios that have sum one are left as they are. -/
theorem runtimePanelNode_of_wellSplit {node : PanelNode TerminalPaneView} (h : node.WellSplit) :
    runtimePanelNode node = some node := by
  induction h with
  | leaf => rfl
  | @split kind children ratios two divides all ih =>
    have hchildren : children.mapM runtimePanelNode = some children := by
      have hmap := mapM_map_some (g := id) (f := runtimePanelNode) ih
      rwa [List.map_id] at hmap
    have hsum : ¬ ratios.sum ≤ 0 := by
      rw [divides.sum]
      norm_num
    rw [runtimePanelNode, if_neg (not_not.mpr divides.length.symm), if_neg hsum,
      runtimePanelNodes_eq, hchildren, divides.sum]
    simp

theorem fromJSON_of_below {root : PanelNode TerminalPaneView} {nextPanelId : ℕ}
    (hbelow : ∀ pane ∈ root.leaves, pane.panelId < nextPanelId) (hpositive : 0 < nextPanelId)
    (hsafe : nextPanelId ≤ maxSafeInteger) :
    PanelTree.fromJSON root nextPanelId = ⟨root, nextPanelId⟩ := by
  have hmax : maxPanelId root ≤ nextPanelId - 1 :=
    maxPanelId_le.mpr fun pane hpane => Nat.le_sub_one_of_lt (hbelow pane hpane)
  rw [PanelTree.fromJSON]
  simp only [if_pos (And.intro hpositive hsafe), PanelTree.mk.injEq, true_and]
  omega

open PanelTree

section RoundTrip
variable {jsonParse : String → Option Value} {stringify : Value → String}
  {workspace : TerminalWorkspace} {live : List String}

/-- What a stored workspace is read back as. -/
theorem parse_serialize (hempty : jsonParse "" = none)
    (hparse : jsonParse (serializeTerminalWorkspace stringify workspace) =
      some (encodeWorkspace workspace)) (hw : workspace.WellFormed)
    (hpanes : ∀ pane ∈ workspace.tree.leaves, 0 < pane.panelId ∧
      ∀ muxTerminalId, pane.view = .terminal muxTerminalId → isMuxTerminalId muxTerminalId = true)
    (hsafe : workspace.tree.nextPanelId ≤ maxSafeInteger) :
    parseTerminalWorkspace jsonParse (some (serializeTerminalWorkspace stringify workspace)) =
      some workspace := by
  obtain ⟨⟨root, next⟩, focused, zoomed⟩ := workspace
  have hbelow : ∀ panel, (⟨root, next⟩ : PanelTree TerminalPaneView).Exists panel →
      0 < panel ∧ panel < next := by
    rintro panel ⟨pane, hpane, rfl⟩
    exact ⟨(hpanes pane hpane).1, hw.tiled.below pane hpane⟩
  dsimp only at hsafe
  obtain ⟨hfocus, hfocusNext⟩ := hbelow focused hw.focused
  have hnode : decodeNode (nesting (encodeNode root)) (encodeNode root) = some root := by
    refine decodeNode_encodeNode hw.tiled.splits (fun pane hpane => ?_) le_rfl
    obtain ⟨hpositive, hview⟩ := hpanes pane hpane
    have hlt : pane.panelId < next := hw.tiled.below pane hpane
    exact ⟨hpositive, by omega, hview⟩
  have hzoom : decodeZoom (zoomed.elim .null fun panel => .number panel) = some zoomed := by
    cases hzoomed : zoomed with
    | none => rfl
    | some panel =>
      obtain ⟨hpositive, hlt⟩ := hbelow panel (hw.zoomed panel hzoomed)
      have hid : positiveInteger (.number (panel : ℚ)) = some panel :=
        positiveInteger_natCast hpositive (by omega)
      rw [Option.elim_some, decodeZoom, hid]
      · rfl
      · simp
  have hdecode : decodeWorkspace (encodeWorkspace ⟨⟨root, next⟩, focused, zoomed⟩) =
      some (root, next, focused, zoomed) := by
    have hversion : (encodeWorkspace ⟨⟨root, next⟩, focused, zoomed⟩).get "version" =
        some (.number 1) := rfl
    have hone : isVersion (.number 1) = true := by simp [isVersion]
    have htree : (encodeWorkspace ⟨⟨root, next⟩, focused, zoomed⟩).get "tree" =
        some (.object [("root", encodeNode root), ("nextPanelId", .number next)]) := rfl
    have hroot : (Value.object [("root", encodeNode root), ("nextPanelId", .number next)]).get "root" =
        some (encodeNode root) := rfl
    have hnext : (Value.object [("root", encodeNode root), ("nextPanelId", .number next)]).get
        "nextPanelId" = some (.number next) := rfl
    have hfocused : (encodeWorkspace ⟨⟨root, next⟩, focused, zoomed⟩).get "focusedPanelId" =
        some (.number focused) := rfl
    have hzoomed : (encodeWorkspace ⟨⟨root, next⟩, focused, zoomed⟩).get "zoomedPanelId" =
        some (zoomed.elim .null fun panel => .number panel) := rfl
    have hnextId : positiveInteger (.number (next : ℚ)) = some next :=
      positiveInteger_natCast (by omega) hsafe
    have hfocusId : positiveInteger (.number (focused : ℚ)) = some focused :=
      positiveInteger_natCast hfocus (by omega)
    simp [decodeWorkspace, hversion, hone, htree, hroot, hnode, hnext, hnextId, hfocused, hfocusId,
      hzoomed, hzoom]
  have htree : PanelTree.fromJSON root next = ⟨root, next⟩ :=
    fromJSON_of_below hw.tiled.below (by omega) hsafe
  have hexists : panelExists ⟨root, next⟩ focused = true := panelExists_iff.mpr hw.focused
  have hkept : zoomed.filter (panelExists ⟨root, next⟩) = zoomed := by
    cases hzoomed : zoomed with
    | none => rfl
    | some panel => exact if_pos (panelExists_iff.mpr (hw.zoomed panel hzoomed))
  have hruntime : runtimeWorkspace root next focused zoomed = some ⟨⟨root, next⟩, focused, zoomed⟩ := by
    simp [runtimeWorkspace, runtimePanelNode_of_wellSplit hw.tiled.splits, htree, hexists, hkept]
  have htext : serializeTerminalWorkspace stringify ⟨⟨root, next⟩, focused, zoomed⟩ ≠ "" := by
    intro heq
    rw [heq, hempty] at hparse
    cases hparse
  simp [parseTerminalWorkspace, htext, hparse, hdecode, hruntime]

/-- Nothing is closed where every terminal is there. -/
theorem removeMissing_of_live (hlive : ∀ muxTerminalId, muxTerminalId ∈ live ↔
    muxTerminalId ∈ workspace.terminalIds) :
    workspace.removeMissingTerminalViews (· ∈ live) = workspace := by
  refine congrArg (fun missing : List (ℕ × String) => missing.foldl (fun workspace item =>
    workspace.closeTerminalTab item.1 item.2) workspace)
    (List.filterMap_eq_nil_iff.mpr fun pane hpane => ?_)
  cases hview : pane.view with
  | empty => rfl
  | terminal muxTerminalId =>
    have hmem : muxTerminalId ∈ live := (hlive muxTerminalId).mpr
      (List.mem_filterMap.mpr ⟨pane, hpane, by rw [hview]; rfl⟩)
    simp [hmem]

theorem adopt_of_shown {shown : List String} (h : ∀ muxTerminalId ∈ live, muxTerminalId ∈ shown) :
    workspace.adopt live shown = workspace := by
  induction live with
  | nil => rfl
  | cons muxTerminalId live ih =>
    rw [TerminalWorkspace.adopt, if_pos (h muxTerminalId List.mem_cons_self)]
    exact ih fun id hid => h id (List.mem_cons_of_mem _ hid)

/-- A stored workspace comes back as it was, as long as its counter is a safe integer. -/
theorem restore_serialize (hempty : jsonParse "" = none)
    (hparse : jsonParse (serializeTerminalWorkspace stringify workspace) =
      some (encodeWorkspace workspace)) (hw : workspace.WellFormed)
    (hpanes : ∀ pane ∈ workspace.tree.leaves, 0 < pane.panelId ∧
      ∀ muxTerminalId, pane.view = .terminal muxTerminalId → isMuxTerminalId muxTerminalId = true)
    (hlive : ∀ muxTerminalId, muxTerminalId ∈ live ↔ muxTerminalId ∈ workspace.terminalIds)
    (hsafe : workspace.tree.nextPanelId ≤ maxSafeInteger) :
    restoreTerminalWorkspace jsonParse (some (serializeTerminalWorkspace stringify workspace)) live =
      workspace := by
  have hrepaired : repairedWorkspace jsonParse
      (some (serializeTerminalWorkspace stringify workspace)) live = workspace := by
    rw [repairedWorkspace, parse_serialize hempty hparse hw hpanes hsafe, Option.getD_some,
      removeMissing_of_live hlive]
    exact TerminalWorkspace.capRestoredTerminalPanes_of_le hw.tiled.atMost
  have hcounted : workspace.counted = workspace := by
    have hmin : min workspace.tree.nextPanelId (2 ^ 53) = workspace.tree.nextPanelId := by
      rw [maxSafeInteger] at hsafe
      omega
    rw [TerminalWorkspace.counted, hmin]
  rw [restoreTerminalWorkspace, hrepaired, hcounted]
  exact adopt_of_shown fun id hid => (hlive id).mp hid

/-- Two panes side by side. -/
def twoPanes : TerminalWorkspace :=
  (createTerminalWorkspace.openTerminalView "term-a").openTerminalView "term-b"

def twoPanesText : String :=
  "\x7b\"version\":1,\"tree\":\x7b\"root\":\x7b\"kind\":\"row\",\"split\":\x7b\"children\":[" ++
  "\x7b\"kind\":\"leaf\",\"panelId\":\x7b\"id\":1\x7d,\"view\":\x7b\"kind\":\"terminal\",\"muxTerminalId\":\"term-a\"\x7d\x7d," ++
  "\x7b\"kind\":\"leaf\",\"panelId\":\x7b\"id\":2\x7d,\"view\":\x7b\"kind\":\"terminal\",\"muxTerminalId\":\"term-b\"\x7d\x7d" ++
  "],\"ratios\":[0.5,0.5]\x7d\x7d,\"nextPanelId\":3\x7d,\"focusedPanelId\":2,\"zoomedPanelId\":null\x7d"

theorem restore_serialize_two_panes :
    restoreTerminalWorkspace (fun text => if text = twoPanesText then some (encodeWorkspace twoPanes)
        else none)
      (some (serializeTerminalWorkspace (fun _ => twoPanesText) twoPanes)) ["term-b", "term-a"] =
    twoPanes := by
  refine restore_serialize (if_neg (by decide +kernel)) (if_pos rfl) ?_ ?_ ?_ (by decide +kernel)
  · exact (TerminalWorkspace.wellFormed_createTerminalWorkspace.openTerminalView "term-a").openTerminalView
      "term-b"
  · have hleaves : twoPanes.tree.leaves =
        [⟨1, .terminal "term-a"⟩, ⟨2, .terminal "term-b"⟩] := by decide +kernel
    rw [hleaves]
    simp only [List.forall_mem_cons]
    refine ⟨⟨by decide, ?_⟩, ⟨by decide, ?_⟩, by simp⟩
    · rintro _ ⟨⟩
      decide +kernel
    · rintro _ ⟨⟩
      decide +kernel
  · intro muxTerminalId
    have hids : twoPanes.terminalIds = ["term-a", "term-b"] := by decide +kernel
    rw [hids]
    simp [or_comm]

/-- A new workspace with a counter that is no safe integer. -/
def farWorkspace : TerminalWorkspace := ⟨⟨.leaf ⟨1, .empty⟩, 2 ^ 53⟩, 1, none⟩

def farText : String :=
  "\x7b\"version\":1,\"tree\":\x7b\"root\":\x7b\"kind\":\"leaf\",\"panelId\":\x7b\"id\":1\x7d,\"view\":\x7b\"kind\":\"empty\"\x7d\x7d," ++
  "\"nextPanelId\":9007199254740992\x7d,\"focusedPanelId\":1,\"zoomedPanelId\":null\x7d"

theorem far_counter_lost : ¬ ∀ (jsonParse : String → Option Value) (stringify : Value → String)
    (workspace : TerminalWorkspace) (live : List String), jsonParse "" = none →
    jsonParse (serializeTerminalWorkspace stringify workspace) = some (encodeWorkspace workspace) →
    workspace.WellFormed →
    (∀ pane ∈ workspace.tree.leaves, 0 < pane.panelId ∧
      ∀ muxTerminalId, pane.view = .terminal muxTerminalId → isMuxTerminalId muxTerminalId = true) →
    (∀ muxTerminalId, muxTerminalId ∈ live ↔ muxTerminalId ∈ workspace.terminalIds) →
    restoreTerminalWorkspace jsonParse (some (serializeTerminalWorkspace stringify workspace)) live =
      workspace := by
  intro h
  have hw : farWorkspace.WellFormed := by
    refine ⟨⟨by decide, by decide +kernel, ?_, by decide, by decide, .leaf⟩, ⟨_, List.mem_cons_self, rfl⟩,
      by simp [farWorkspace]⟩
    simp [farWorkspace, PanelTree.leaves]
  have hback := h (fun text => if text = farText then some (encodeWorkspace farWorkspace) else none)
    (fun _ => farText) farWorkspace [] (if_neg (by decide +kernel)) (if_pos rfl) hw
    (by simp [farWorkspace, PanelTree.leaves]) (by simp [farWorkspace, TerminalWorkspace.terminalIds,
      PanelTree.leaves, TerminalPaneView.terminal?])
  have hnext := congrArg (fun workspace : TerminalWorkspace => workspace.tree.nextPanelId) hback
  revert hnext
  decide +kernel

end RoundTrip
end PiDeck.Panels
