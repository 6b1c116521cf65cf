import Mathlib
import PiDeck.Agents.RunStatus
import PiDeck.Collections.Groups

/-! The tree of all runs. A run is stored after its parent was found and runs are never deleted, so
every chain of parents leads to a run without one, and the tree that is grown from those reaches
every run. -/
namespace PiDeck.Agents
open Collections Transition

/-- The columns of `agent_runs` that the tree shows. -/
structure FleetRun where
  id : String
  agentId : String
  prompt : String
  cwd : String
  executionMode : String
  worktreeId : Option String
  parentRunId : Option String
  status : RunStatus
  createdAt : String
  startedAt : Option String
  completedAt : Option String
  deriving DecidableEq, Repr

inductive FleetNode
  | node (run : FleetRun) (agentName : String) (children : List FleetNode)

/-- `fleet_children`, which gives up without `fuel`. -/
def fleetChildren (agentNames : String → Option String) : ℕ → Option String →
    IndexMap (Option String) (List FleetRun) →
    Option (List FleetNode × IndexMap (Option String) (List FleetRun))
  | 0, _, _ => none
  | fuel + 1, parentId, runs =>
    thread (fun run runs =>
        (fleetChildren agentNames fuel (some run.id) runs).map fun (children, runs) =>
          (.node run ((agentNames run.agentId).getD "Deleted agent") children, runs))
      ((runs.get? parentId).getD []) (runs.shiftRemove parentId)

/-- `ORDER BY r.created_at DESC, r.id DESC`. -/
def newestFirst (a b : FleetRun) : Bool :=
  ((compare b.createdAt a.createdAt).then (compare b.id a.id)).isLE

/-- The roots of the tree of the stored runs. -/
def fleet (agentNames : String → Option String) (fuel : ℕ) (rows : List FleetRun) :
    Option (List FleetNode) :=
  let runs := rows.mergeSort newestFirst
  (fleetChildren agentNames fuel none (groupBy FleetRun.parentRunId runs)).map Prod.fst

/-! ## The stored runs -/

/-- The stored runs, and for every handler of a creation that has found its parent run, that
parent. -/
structure FleetHost where
  rows : List FleetRun
  admitted : ℕ → Option (Option String)

inductive FleetStep
  | findParent (handler : ℕ) (parent : Option String)
  | insert (handler : ℕ) (run : FleetRun)
  | giveUp (handler : ℕ)
  | updateRunStatus (id : String) (status : RunStatus) (now : String)
  | restart (now : String)

namespace FleetHost

def start : FleetHost := ⟨[], fun _ => none⟩

def hasRun (host : FleetHost) (id : String) : Bool := host.rows.any (·.id = id)

@[simps]
def setAdmitted (host : FleetHost) (handler : ℕ) (parent : Option (Option String)) : FleetHost :=
  { host with admitted := Function.update host.admitted handler parent }

/-- A run that the host left active has failed. -/
def reconcile (now : String) (run : FleetRun) : FleetRun :=
  if run.status.isActive then { run with status := .failed, completedAt := some now } else run

def step (host : FleetHost) : FleetStep → Option FleetHost
  | .findParent handler parent =>
    if parent.all host.hasRun then some (host.setAdmitted handler (some parent)) else none
  -- The identifier is a primary key, and an agent has one active run.
  | .insert handler run =>
    if host.admitted handler = some run.parentRunId ∧ run.status = .running ∧
        host.hasRun run.id = false ∧
        host.rows.any (fun other => other.agentId = run.agentId && other.status.isActive) = false then
      some ({ host with rows := host.rows ++ [run] }.setAdmitted handler none)
    else none
  | .giveUp handler => some (host.setAdmitted handler none)
  | .updateRunStatus id status now =>
    some { host with
      rows := modifyRow FleetRun.id id (fun run => { run with status, completedAt := some now })
        host.rows }
  | .restart now => some ⟨host.rows.map (reconcile now), fun _ => none⟩

def machine : Machine FleetHost FleetStep := ⟨step⟩

end FleetHost

/-- The identifier of a run and of its parent. -/
def FleetRun.link (run : FleetRun) : String × Option String := (run.id, run.parentRunId)

/-- Every parent is the identifier of an earlier run. -/
inductive Rooted : List (String × Option String) → Prop
  | nil : Rooted []
  | push {links : List (String × Option String)} {link : String × Option String}
      (rooted : Rooted links) (found : ∀ parent ∈ link.2, parent ∈ links.map Prod.fst) :
      Rooted (links ++ [link])

namespace FleetHost
variable {host host' : FleetHost}

structure Sound (host : FleetHost) : Prop where
  rooted : Rooted (host.rows.map FleetRun.link)
  found : ∀ handler parent, host.admitted handler = some (some parent) →
    parent ∈ (host.rows.map FleetRun.link).map Prod.fst

theorem hasRun_iff {id : String} :
    host.hasRun id = true ↔ id ∈ (host.rows.map FleetRun.link).map Prod.fst := by
  simp [hasRun, FleetRun.link]

theorem link_reconcile (now : String) (run : FleetRun) : (reconcile now run).link = run.link := by
  unfold reconcile
  split <;> rfl

theorem links_modifyRow {id : String} {f : FleetRun → FleetRun} (hf : ∀ run, (f run).link = run.link)
    (rows : List FleetRun) :
    (modifyRow FleetRun.id id f rows).map FleetRun.link = rows.map FleetRun.link := by
  induction rows with
  | nil => rfl
  | cons run rows ih =>
    by_cases h : run.id = id
    · simp [modifyRow, h, hf]
    · simp [modifyRow, h, ih]

/-- The links of the stored runs stay, and a creation adds one to an earlier run. -/
theorem Sound.step {a : FleetStep} (hs : host.Sound) (h : host.step a = some host') :
    host'.Sound := by
  cases a with
  | findParent handler parent =>
    obtain ⟨hparent, heq⟩ := Option.ite_none_right_eq_some.mp h
    cases heq
    refine ⟨hs.rooted, ?_⟩
    intro other q hq
    rw [setAdmitted_admitted, Function.update_apply] at hq
    split at hq
    · cases hq
      exact hasRun_iff.mp hparent
    · exact hs.found other q hq
  | insert handler run =>
    obtain ⟨⟨hadmitted, -, -, -⟩, heq⟩ := Option.ite_none_right_eq_some.mp h
    cases heq
    have hlinks : (host.rows ++ [run]).map FleetRun.link =
        host.rows.map FleetRun.link ++ [run.link] := by simp
    refine ⟨?_, ?_⟩
    · rw [setAdmitted_rows, hlinks]
      refine hs.rooted.push ?_
      intro parent hparent
      exact hs.found handler parent (hadmitted.trans (congrArg some hparent))
    · intro other q hq
      rw [setAdmitted_admitted, Function.update_apply] at hq
      split at hq
      · cases hq
      · rw [setAdmitted_rows, hlinks, List.map_append]
        exact List.mem_append_left _ (hs.found other q hq)
  | giveUp handler =>
    cases h
    refine ⟨hs.rooted, ?_⟩
    intro other q hq
    rw [setAdmitted_admitted, Function.update_apply] at hq
    split at hq
    · cases hq
    · exact hs.found other q hq
  | updateRunStatus id status now =>
    cases h
    have hlinks : (modifyRow FleetRun.id id (fun run => { run with status, completedAt := some now })
        host.rows).map FleetRun.link = host.rows.map FleetRun.link :=
      links_modifyRow (f := fun run => { run with status, completedAt := some now }) (fun _ => rfl) _
    exact ⟨hlinks ▸ hs.rooted, fun handler q hq => hlinks ▸ hs.found handler q hq⟩
  | restart now =>
    cases h
    have hlinks : (host.rows.map (reconcile now)).map FleetRun.link =
        host.rows.map FleetRun.link := by
      rw [List.map_map]
      exact List.map_congr_left fun run _ => link_reconcile now run
    exact ⟨hlinks ▸ hs.rooted, fun handler q hq => by cases hq⟩

theorem sound_start : start.Sound := ⟨.nil, fun handler q hq => by cases hq⟩

theorem sound_of_run {steps : List FleetStep} (h : machine.Run start steps host) : host.Sound :=
  h.invariant (fun _ _ _ hs _ hstep => hs.step hstep) sound_start

end FleetHost

/-! ## The tree -/

mutual
/-- The runs of a node, each with the identifier of the node above it. -/
def FleetNode.placed (parent : Option String) : FleetNode → List (Option String × FleetRun)
  | .node run _ children => (parent, run) :: placedAll (some run.id) children
def placedAll (parent : Option String) : List FleetNode → List (Option String × FleetRun)
  | [] => []
  | node :: nodes => node.placed parent ++ placedAll parent nodes
end

variable {agentNames : String → Option String} {fuel : ℕ} {parent : Option String}
  {runs rest : IndexMap (Option String) (List FleetRun)} {rows : List FleetRun}
  {nodes : List FleetNode}

/-- The recursion ends: every call takes a group out, or finds none. -/
theorem fleetChildren_terminates (h : runs.length < fuel) :
    ∃ nodes rest, fleetChildren agentNames fuel parent runs = some (nodes, rest) ∧
      rest.length ≤ runs.length := by
  induction fuel generalizing parent runs with
  | zero => omega
  | succ fuel ih =>
    rw [fleetChildren]
    cases hget : runs.get? parent with
    | none =>
      refine ⟨[], runs.shiftRemove parent, rfl, ?_⟩
      exact List.length_filter_le ..
    | some group =>
      have hlength := length_shiftRemove hget
      have hgrow : ∀ run ∈ group, ∀ groups : IndexMap (Option String) (List FleetRun),
          groups.length ≤ (runs.shiftRemove parent).length →
          ∃ node left, ((fleetChildren agentNames fuel (some run.id) groups).map fun (children, runs) =>
              (FleetNode.node run ((agentNames run.agentId).getD "Deleted agent") children, runs)) =
            some (node, left) ∧ left.length ≤ (runs.shiftRemove parent).length := by
        intro run _ groups hgroups
        have hgroups' : groups.length < fuel := by omega
        obtain ⟨children, left, hcall, hle⟩ : ∃ children left,
            fleetChildren agentNames fuel (some run.id) groups = some (children, left) ∧
              left.length ≤ groups.length := ih hgroups'
        exact ⟨_, left, by rw [hcall]; rfl, hle.trans hgroups⟩
      obtain ⟨nodes, left, hnodes, hle⟩ := thread_some hgrow le_rfl
      exact ⟨nodes, left, hnodes, by omega⟩

/-- What growing a part of the tree does to the groups: the runs that left them stand in the nodes,
each below its parent, and no group of such a run is left. -/
structure Grown (parent : Option String) (runs rest : IndexMap (Option String) (List FleetRun))
    (group : List FleetRun) (nodes : List FleetNode) : Prop where
  grouped : Grouped FleetRun.parentRunId rest
  shrinks : ∀ k, runs.get? k = none → rest.get? k = none
  counts : ∀ run, ((placedAll parent nodes).map Prod.snd).count run + tally rest run =
    group.count run + tally runs run
  placed : ∀ item ∈ placedAll parent nodes,
    item.1 = item.2.parentRunId ∧ rest.get? (some item.2.id) = none

/-- The loop over a group, when the calls for the runs below do what they should. -/
theorem grown_thread {group : List FleetRun}
    (hcalls : ∀ parent runs nodes rest, Grouped FleetRun.parentRunId runs →
      fleetChildren agentNames fuel parent runs = some (nodes, rest) →
      Grown parent runs rest [] nodes ∧ rest.get? parent = none)
    (hgrouped : Grouped FleetRun.parentRunId runs) (hgroup : ∀ run ∈ group, run.parentRunId = parent)
    (h : thread (fun run runs =>
        (fleetChildren agentNames fuel (some run.id) runs).map fun (children, runs) =>
          (FleetNode.node run ((agentNames run.agentId).getD "Deleted agent") children, runs))
      group runs = some (nodes, rest)) :
    Grown parent runs rest group nodes := by
  induction group generalizing runs nodes with
  | nil =>
    cases h
    exact ⟨hgrouped, fun _ h => h, fun run => by simp [placedAll], by simp [placedAll]⟩
  | cons run group ih =>
    obtain ⟨node, groups, nodes, hbody, hthread, rfl⟩ := thread_cons h
    obtain ⟨⟨children, left⟩, hcall, heq⟩ := Option.map_eq_some_iff.mp hbody
    cases heq
    obtain ⟨hbelow, hgone⟩ := hcalls _ _ _ _ hgrouped hcall
    have hafter := ih hbelow.grouped (fun run hrun => hgroup run (List.mem_cons_of_mem _ hrun)) hthread
    refine ⟨hafter.grouped, fun k hk => hafter.shrinks k (hbelow.shrinks k hk), ?_, ?_⟩
    · intro other
      have hb := hbelow.counts other
      have ha := hafter.counts other
      rw [List.count_nil] at hb
      rw [placedAll, FleetNode.placed, List.map_append, List.map_cons, List.count_append,
        List.count_cons, List.count_cons]
      dsimp only
      omega
    · intro item hitem
      rw [placedAll, FleetNode.placed, List.cons_append, List.mem_cons, List.mem_append] at hitem
      rcases hitem with rfl | hchild | hnext
      · exact ⟨(hgroup run (List.mem_cons_self ..)).symm, hafter.shrinks _ hgone⟩
      · obtain ⟨hparent, hnone⟩ := hbelow.placed item hchild
        exact ⟨hparent, hafter.shrinks _ hnone⟩
      · exact hafter.placed item hnext

theorem fleetChildren_grown (hgrouped : Grouped FleetRun.parentRunId runs)
    (h : fleetChildren agentNames fuel parent runs = some (nodes, rest)) :
    Grown parent runs rest [] nodes ∧ rest.get? parent = none := by
  induction fuel generalizing parent runs nodes rest with
  | zero => cases h
  | succ fuel ih =>
    rw [fleetChildren] at h
    have hgroup : ∀ run ∈ (runs.get? parent).getD [], run.parentRunId = parent := by
      intro run hrun
      cases hget : runs.get? parent with
      | none => simp [hget] at hrun
      | some group =>
        rw [hget] at hrun
        exact hgrouped parent group hget run hrun
    have hgrown := grown_thread (fun _ _ _ _ hg hc => ih hg hc) (grouped_shiftRemove hgrouped)
      hgroup h
    have hgone : (runs.shiftRemove parent).get? parent = none := by
      rw [IndexMap.get?_shiftRemove, if_pos rfl]
    refine ⟨⟨hgrown.grouped, ?_, ?_, hgrown.placed⟩, hgrown.shrinks _ hgone⟩
    · intro k hk
      apply hgrown.shrinks
      rw [IndexMap.get?_shiftRemove]
      split
      · rfl
      · exact hk
    · intro run
      have hcounts := hgrown.counts run
      have htally : tally (runs.shiftRemove parent) run + ((runs.get? parent).getD []).count run =
          tally runs run := tally_shiftRemove run
      rw [List.count_nil]
      omega

/-- In a grown tree no group is left: the run that was stored first among those in the groups would
have a placed parent. -/
theorem groups_empty (hrooted : Rooted (rows.map FleetRun.link))
    (hgrown : Grown none runs rest [] nodes) (hroots : rest.get? none = none)
    (hrows : ∀ run ∈ rows, tally runs run ≠ 0) :
    ∀ run ∈ rows, rest.get? run.parentRunId = none := by
  have hlinks : ∀ links, Rooted links → (∀ link ∈ links, ∃ run ∈ rows, run.link = link) →
      ∀ link ∈ links, rest.get? link.2 = none := by
    intro links hlinks
    induction hlinks with
    | nil => simp
    | @push links link _ found ih =>
      intro hmem l hl
      have hold := ih fun l hl => hmem l (List.mem_append_left _ hl)
      rcases List.mem_append.mp hl with hl | hl
      · exact hold l hl
      · rw [List.mem_singleton.mp hl]
        cases hparent : link.2 with
        | none => exact hroots
        | some parent =>
          obtain ⟨above, habove, rfl⟩ := List.mem_map.mp (found parent hparent)
          obtain ⟨run, hrun, rfl⟩ := hmem above (List.mem_append_left _ habove)
          -- The parent left the groups, so it stands in the tree and its own group is gone.
          have hzero : tally rest run = 0 := tally_eq_zero hgrown.grouped (hold _ habove)
          have hcounts := hgrown.counts run
          have hpos := hrows run hrun
          rw [List.count_nil, hzero] at hcounts
          obtain ⟨item, hitem, hsame⟩ := List.mem_map.mp
            (List.count_pos_iff.mp (show 0 < ((placedAll none nodes).map Prod.snd).count run by omega))
          have hnone := (hgrown.placed item hitem).2
          rwa [hsame] at hnone
  intro run hrun
  exact hlinks _ hrooted (fun link hlink => List.mem_map.mp hlink) run.link
    (List.mem_map_of_mem hrun)

/-- The tree is built, and it shows every stored run once, under the node of its parent run or as a
root. -/
theorem fleet_complete {host : FleetHost} {steps : List FleetStep}
    (h : FleetHost.machine.Run .start steps host) (agentNames : String → Option String) {fuel : ℕ}
    (hfuel : host.rows.length < fuel) :
    ∃ roots, fleet agentNames fuel host.rows = some roots ∧
      (placedAll none roots).Perm (host.rows.map fun run => (run.parentRunId, run)) := by
  have hperm := List.mergeSort_perm host.rows newestFirst
  have hlength : (groupBy FleetRun.parentRunId (host.rows.mergeSort newestFirst)).length < fuel := by
    have hle : (groupBy FleetRun.parentRunId (host.rows.mergeSort newestFirst)).length ≤
        (host.rows.mergeSort newestFirst).length := length_group_le
    rw [hperm.length_eq] at hle
    omega
  obtain ⟨nodes, rest, hcall, -⟩ : ∃ nodes rest, fleetChildren agentNames fuel none
      (groupBy FleetRun.parentRunId (host.rows.mergeSort newestFirst)) = some (nodes, rest) ∧ _ :=
    fleetChildren_terminates hlength
  obtain ⟨hgrown, hroots⟩ := fleetChildren_grown grouped_group hcall
  have htally : ∀ run, tally (groupBy FleetRun.parentRunId (host.rows.mergeSort newestFirst)) run =
      host.rows.count run := by
    intro run
    rw [tally_group, hperm.count_eq]
  have hempty := groups_empty (FleetHost.sound_of_run h).rooted hgrown hroots (by
    intro run hrun
    rw [htally]
    exact (List.count_pos_iff.mpr hrun).ne')
  refine ⟨nodes, by rw [fleet, hcall]; rfl, ?_⟩
  have hruns : ((placedAll none nodes).map Prod.snd).Perm host.rows := by
    rw [List.perm_iff_count]
    intro run
    have hcounts := hgrown.counts run
    rw [List.count_nil, htally] at hcounts
    by_cases hrun : run ∈ host.rows
    · have hzero := tally_eq_zero hgrown.grouped (hempty run hrun)
      omega
    · have hzero := List.count_eq_zero_of_not_mem hrun
      omega
  have hplaced : placedAll none nodes =
      ((placedAll none nodes).map Prod.snd).map fun run => (run.parentRunId, run) := by
    rw [List.map_map]
    refine (List.map_id _).symm.trans (List.map_congr_left ?_)
    intro item hitem
    exact Prod.ext (hgrown.placed item hitem).1 rfl
  rw [hplaced]
  exact hruns.map _

/-- A run of the agent, below the parent. -/
def exampleRun (id agentId : String) (parent : Option String) : FleetRun :=
  ⟨id, agentId, "prompt", "/work", "local", none, parent, .running, "now", some "now", none⟩

theorem fleet_complete_parent_and_child :
    ∃ roots, fleet (fun _ => none) 3
        [exampleRun "parent" "first" none, exampleRun "child" "second" (some "parent")] =
      some roots ∧
      (placedAll none roots).Perm
        [(none, exampleRun "parent" "first" none),
          (some "parent", exampleRun "child" "second" (some "parent"))] := by
  have hrun : FleetHost.machine.Run .start [.findParent 0 none,
      .insert 0 (exampleRun "parent" "first" none), .findParent 1 (some "parent"),
      .insert 1 (exampleRun "child" "second" (some "parent"))]
      ⟨[exampleRun "parent" "first" none, exampleRun "child" "second" (some "parent")], _⟩ :=
    .cons trivial rfl (.cons trivial rfl (.cons trivial rfl (.cons trivial rfl (.nil _))))
  exact fleet_complete hrun _ (by decide)

end PiDeck.Agents
