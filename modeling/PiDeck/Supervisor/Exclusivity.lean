import Mathlib
import PiDeck.Supervisor.Worktrees

/-! When a worktree belongs to one run. An admission claims a ready worktree together with the run
and the end of the run frees it, so a worktree is busy exactly while one active run refers to it,
unless a follow-up makes a run active without a claim or a release marks a worktree that has been
claimed since it was checked. -/
namespace PiDeck.Supervisor
open PiDeck.Collections PiDeck.Transition

namespace Tables
variable {tables tables' : Tables} {act : AgentAct} {w runId agentId id now : String}

/-- A worktree is busy exactly while an active run refers to it, and then one does. -/
structure Claimed (tables : Tables) (w : String) : Prop where
  single : tables.users w ≤ 1
  busy : tables.users w ≠ 0 ↔ tables.worktreeStatus w = some .busy

theorem Claimed.of_eq (h : tables.Claimed w) (hu : tables'.users w = tables.users w)
    (hs : tables'.worktreeStatus w = tables.worktreeStatus w) : tables'.Claimed w := by
  constructor
  · rw [hu]
    exact h.single
  · rw [hu, hs]
    exact h.busy

theorem users_of_runs (h : tables'.runs = tables.runs) : tables'.users w = tables.users w := by
  unfold users
  rw [h]

/-- What the agents' service may do to a row of the worktrees: claim or free it. -/
def Touched (tables tables' : Tables) : Prop :=
  (∀ w, tables'.getWorktree w = tables.getWorktree w ∨
    ∃ row status, tables.getWorktree w = some row ∧ (row.status = .ready ∨ row.status = .busy) ∧
      (status = .ready ∨ status = .busy) ∧ tables'.getWorktree w = some { row with status := status }) ∧
  tables'.worktrees.map WorktreeRow.id = tables.worktrees.map WorktreeRow.id ∧
  tables'.worktrees.map WorktreeRow.path = tables.worktrees.map WorktreeRow.path

theorem Touched.of_eq (h : tables'.worktrees = tables.worktrees) : Touched tables tables' := by
  refine ⟨fun w => .inl ?_, by rw [h], by rw [h]⟩
  unfold getWorktree
  rw [h]

theorem insertWorktree_cases {path : String} (h : tables.insertWorktree id path = some tables') :
    tables.getWorktree id = none ∧ (∀ row ∈ tables.worktrees, row.path ≠ path) ∧
      tables'.runs = tables.runs ∧ tables'.worktrees = tables.worktrees ++ [⟨id, path, .creating⟩] ∧
      ∀ w, tables'.getWorktree w =
        if w = id then some ⟨id, path, .creating⟩ else tables.getWorktree w := by
  unfold insertWorktree at h
  split at h
  · rename_i hfresh
    obtain rfl := Option.some.inj h
    refine ⟨hfresh.1, hfresh.2, rfl, rfl, fun w => ?_⟩
    have hnone : findRow WorktreeRow.id tables.worktrees
        (WorktreeRow.mk id path .creating).id = none := hfresh.1
    exact findRow_push hnone w
  · cases h

end Tables

namespace Services
variable {services services' : Services} {act : SupervisorAct} {acts : List SupervisorAct}
  {limits : QueueLimits}

/-- The step does not use a worktree that is not its own: a follow-up makes no run active that has
a worktree, and a release marks no worktree that an active run refers to. -/
def Reserved (services : Services) : SupervisorAct → Prop
  | .agent (.followUpMark agentId true) => ∀ runId generation run,
    services.service.command agentId = some (.marking runId generation) →
      services.tables.reactivates runId = some run → run.worktreeId = none
  | .markReleasing call true => ∀ row, services.call call = some (.probed row) →
    services.tables.users row.id = 0
  | _ => True

end Services
end PiDeck.Supervisor

namespace PiDeck.Supervisor

def WorktreeStatus.isGone : WorktreeStatus → Bool
  | .releasing | .deleted | .failed => true
  | .creating | .ready | .busy => false

namespace WorkspaceCall

/-- The worktree that a call creates. -/
@[simp] def creates : WorkspaceCall → Option String
  | .inserted id _ | .added id | .notAdded id => some id
  | _ => none

/-- The row that a release has read. -/
@[simp] def releases : WorkspaceCall → Option WorktreeRow
  | .read row _ | .idle row _ | .probed row | .marked row | .removed row | .notRemoved row => some row
  | _ => none

/-- The release has marked its worktree. -/
@[simp] def hasMarked : WorkspaceCall → Bool
  | .marked _ | .removed _ | .notRemoved _ => true
  | _ => false

end WorkspaceCall
end PiDeck.Supervisor

namespace PiDeck.Supervisor.Services
open PiDeck.Collections PiDeck.Transition
variable {services services' : Services} {act : SupervisorAct} {acts : List SupervisorAct}
  {limits : QueueLimits}

/-- What holds between the tables and the calls: a call that creates a worktree is alone with it, a
release works on a worktree that has been created, and once it has marked it nothing claims the
worktree any more. -/
structure Exclusive (services : Services) : Prop where
  sound : services.tables.Sound
  ids : (services.tables.worktrees.map WorktreeRow.id).Nodup
  paths : (services.tables.worktrees.map WorktreeRow.path).Nodup
  claimed : ∀ w, services.tables.Claimed w
  creating : ∀ call phase id, services.call call = some phase → phase.creates = some id →
    services.tables.worktreeStatus id = some .creating ∧
      ∀ other phase', services.call other = some phase' → phase'.creates = some id → other = call
  created : ∀ call phase row, services.call call = some phase → phase.releases = some row →
    ∃ stored, services.tables.getWorktree row.id = some stored ∧ stored.path = row.path ∧
      stored.status ≠ .creating ∧ (phase.hasMarked = true → stored.status.isGone = true)

theorem Exclusive.creating_row (hi : services.Exclusive) {call : ℕ} {phase : WorkspaceCall}
    {id : String} (hcall : services.call call = some phase) (hid : phase.creates = some id) :
    ∃ stored, services.tables.getWorktree id = some stored ∧ stored.status = .creating :=
  Option.map_eq_some_iff.mp (hi.creating call phase id hcall hid).1

/-- No call releases a worktree that is being created. -/
theorem Exclusive.apart (hi : services.Exclusive) {call other : ℕ} {phase phase' : WorkspaceCall}
    {row : WorktreeRow} (hcall : services.call call = some phase)
    (hother : services.call other = some phase') (hid : phase.creates = some row.id)
    (hrow : phase'.releases = some row) : False := by
  obtain ⟨stored, hstored, hcreating⟩ := hi.creating_row hcall hid
  obtain ⟨stored', hstored', -, hcreated, -⟩ := hi.created other phase' row hother hrow
  rw [hstored] at hstored'
  obtain rfl := Option.some.inj hstored'
  exact hcreated hcreating

/-- Tables in which worktrees have been claimed and freed, under calls that were there before. -/
theorem Exclusive.touched (hi : services.Exclusive) (sound : services'.tables.Sound)
    (htouched : Tables.Touched services.tables services'.tables)
    (hclaimed : ∀ w, services'.tables.Claimed w)
    (hcalls : ∀ call phase, services'.call call = some phase → services.call call = some phase) :
    services'.Exclusive := by
  obtain ⟨hrows, hids, hpaths⟩ := htouched
  refine ⟨sound, hids ▸ hi.ids, hpaths ▸ hi.paths, hclaimed, ?_, ?_⟩
  · intro call phase id hcall hid
    obtain ⟨hstatus, halone⟩ := hi.creating call phase id (hcalls call phase hcall) hid
    refine ⟨?_, fun other phase' hother => halone other phase' (hcalls other phase' hother)⟩
    obtain ⟨stored, hstored, hcreating⟩ := Option.map_eq_some_iff.mp hstatus
    rcases hrows id with hsame | ⟨row, status, hrow, hold, -, -⟩
    · unfold Tables.worktreeStatus
      rw [hsame]
      exact hstatus
    · rw [hstored] at hrow
      obtain rfl := Option.some.inj hrow
      rw [hcreating] at hold
      simp at hold
  · intro call phase row hcall hrelease
    obtain ⟨stored, hstored, hpath, hcreated, hgone⟩ :=
      hi.created call phase row (hcalls call phase hcall) hrelease
    rcases hrows row.id with hsame | ⟨stored', status, hrow, hold, hnew, hafter⟩
    · exact ⟨stored, hsame.trans hstored, hpath, hcreated, hgone⟩
    · rw [hstored] at hrow
      obtain rfl := Option.some.inj hrow
      refine ⟨_, hafter, hpath, ?_, ?_⟩
      · rcases hnew with rfl | rfl <;> simp
      · intro hmarked
        have hg := hgone hmarked
        rcases hold with hs | hs <;> rw [hs] at hg <;> cases hg

@[simp] theorem tables_setCall {call : ℕ} {phase : Option WorkspaceCall} :
    (services.setCall call phase).tables = services.tables := rfl

@[simp] theorem call_writeStatus {id : String} {status : WorktreeStatus} :
    (services.writeStatus id status).call = services.call := rfl

/-- A call goes on with the worktree it has, or ends. -/
theorem Exclusive.setCall (hi : services.Exclusive) {call : ℕ} {phase : WorkspaceCall}
    {next : Option WorkspaceCall} (hcall : services.call call = some phase)
    (hnext : ∀ phase', next = some phase' →
      (phase'.creates = none ∨ phase'.creates = phase.creates) ∧
      (phase'.releases = none ∨ phase'.releases = phase.releases) ∧
      (phase'.hasMarked = true → phase.hasMarked = true))
    (directories : List String) :
    ({ services with directories := directories }.setCall call next).Exclusive := by
  have hold : ∀ other phase', ({ services with directories := directories }.setCall call next).call
      other = some phase' → (other ≠ call ∧ services.call other = some phase') ∨
        (other = call ∧ next = some phase') := by
    intro other phase' hother
    by_cases ho : other = call
    · subst ho
      exact .inr ⟨rfl, by simpa [Services.setCall] using hother⟩
    · exact .inl ⟨ho, by simpa [Services.setCall, ho] using hother⟩
  have hcreates : ∀ other phase' id, ({ services with
      directories := directories }.setCall call next).call other = some phase' →
      phase'.creates = some id →
      ∃ phase, services.call other = some phase ∧ phase.creates = some id := by
    intro other phase' id hother hid
    rcases hold other phase' hother with ⟨-, h⟩ | ⟨rfl, h⟩
    · exact ⟨phase', h, hid⟩
    · rcases (hnext phase' h).1 with hnone | hsame
      · rw [hid] at hnone
        cases hnone
      · exact ⟨phase, hcall, hsame ▸ hid⟩
  refine ⟨hi.sound, hi.ids, hi.paths, hi.claimed, ?_, ?_⟩
  · intro other phase' id hother hid
    obtain ⟨before, hbefore, hcreates'⟩ := hcreates other phase' id hother hid
    obtain ⟨hstatus, halone⟩ := hi.creating other before id hbefore hcreates'
    refine ⟨hstatus, fun third phase'' hthird hid' => ?_⟩
    obtain ⟨before', hbefore', hcreates''⟩ := hcreates third phase'' id hthird hid'
    exact halone third before' hbefore' hcreates''
  · intro other phase' row hother hrow
    rcases hold other phase' hother with ⟨-, h⟩ | ⟨rfl, h⟩
    · exact hi.created other phase' row h hrow
    · obtain ⟨-, hreleases, hmarked⟩ := hnext phase' h
      rcases hreleases with hnone | hsame
      · rw [hrow] at hnone
        cases hnone
      · obtain ⟨stored, hstored, hpath, hcreated, hgone⟩ :=
          hi.created other phase row hcall (hsame ▸ hrow)
        exact ⟨stored, hstored, hpath, hcreated, fun hm => hgone (hmarked hm)⟩

/-- A call writes the status of a worktree that nothing uses, and goes on or ends. -/
theorem Exclusive.writeStatus (hi : services.Exclusive) {call : ℕ} {id : String}
    {status : WorktreeStatus} {next : Option WorkspaceCall}
    (hidle : services.tables.users id = 0) (hbusy : status ≠ .busy) (hcreating : status ≠ .creating)
    (hcreators : ∀ other phase, other ≠ call → services.call other = some phase →
      phase.creates ≠ some id)
    (hreleases : ∀ other phase row, other ≠ call → services.call other = some phase →
      phase.releases = some row → row.id = id → status.isGone = true)
    (hnext : ∀ phase, next = some phase → phase.creates = none ∧ ∃ row stored,
      phase.releases = some row ∧ row.id = id ∧ services.tables.getWorktree id = some stored ∧
        stored.path = row.path ∧ status.isGone = true) :
    ((services.writeStatus id status).setCall call next).Exclusive := by
  have hold : ∀ other phase, ((services.writeStatus id status).setCall call next).call other =
      some phase → (other ≠ call ∧ services.call other = some phase) ∨
        (other = call ∧ next = some phase) := by
    intro other phase hother
    by_cases ho : other = call
    · subst ho
      exact .inr ⟨rfl, by simpa [Services.setCall] using hother⟩
    · exact .inl ⟨ho, by simpa [Services.setCall, ho] using hother⟩
  have hget : ∀ w, ((services.writeStatus id status).setCall call next).tables.getWorktree w =
      (services.tables.getWorktree w).map fun row =>
        if row.id = id then { row with status := status } else row := by
    intro w
    change (services.tables.setWorktree id (fun _ => true) status).getWorktree w = _
    rw [Tables.getWorktree_setWorktree]
    simp
  have hothers : ∀ w, w ≠ id → ((services.writeStatus id status).setCall call
      next).tables.worktreeStatus w = services.tables.worktreeStatus w := by
    intro w hw
    change (services.tables.setWorktree id (fun _ => true) status).worktreeStatus w = _
    exact Tables.worktreeStatus_setWorktree_ne fun he => absurd he hw
  refine ⟨⟨hi.sound.ids, hi.sound.exclusive⟩, ?_, ?_, ?_, ?_, ?_⟩
  · change ((services.tables.setWorktree id (fun _ => true) status).worktrees.map _).Nodup
    rw [show (services.tables.setWorktree id (fun _ => true) status).worktrees.map WorktreeRow.id =
      services.tables.worktrees.map WorktreeRow.id from map_updateWhere fun _ _ => rfl]
    exact hi.ids
  · change ((services.tables.setWorktree id (fun _ => true) status).worktrees.map _).Nodup
    rw [show (services.tables.setWorktree id (fun _ => true) status).worktrees.map WorktreeRow.path =
      services.tables.worktrees.map WorktreeRow.path from map_updateWhere fun _ _ => rfl]
    exact hi.paths
  · intro w
    by_cases hw : w = id
    · subst hw
      have hstatus : (services.tables.setWorktree w (fun _ => true) status).worktreeStatus w ≠
          some .busy := by
        rw [Tables.worktreeStatus_setWorktree]
        cases services.tables.worktreeStatus w with
        | none => simp
        | some old => simp [hbusy]
      exact ⟨hidle.trans_le (Nat.zero_le 1), fun hu => absurd hidle hu, fun hs => absurd hs hstatus⟩
    · exact (hi.claimed w).of_eq rfl (hothers w hw)
  · intro other phase id' hother hid
    rcases hold other phase hother with ⟨ho, h⟩ | ⟨rfl, h⟩
    · have hne : id' ≠ id := by
        rintro rfl
        exact hcreators other phase ho h hid
      obtain ⟨hstatus, halone⟩ := hi.creating other phase id' h hid
      refine ⟨?_, ?_⟩
      · rw [← hstatus]
        exact hothers id' hne
      · intro third phase' hthird hid'
        rcases hold third phase' hthird with ⟨-, h'⟩ | ⟨-, h'⟩
        · exact halone third phase' h' hid'
        · rw [(hnext phase' h').1] at hid'
          cases hid'
    · rw [(hnext phase h).1] at hid
      cases hid
  · intro other phase row hother hrow
    rcases hold other phase hother with ⟨ho, h⟩ | ⟨rfl, h⟩
    · obtain ⟨stored, hstored, hpath, hcreated, hgone⟩ := hi.created other phase row h hrow
      have hid : stored.id = row.id := findRow_key hstored
      rw [hget, hstored]
      by_cases hr : row.id = id
      · refine ⟨_, rfl, ?_⟩
        dsimp only
        rw [if_pos (hid.trans hr)]
        exact ⟨hpath, hcreating, fun _ => hreleases other phase row ho h hrow hr⟩
      · refine ⟨_, rfl, ?_⟩
        dsimp only
        rw [if_neg (by rw [hid]; exact hr)]
        exact ⟨hpath, hcreated, hgone⟩
    · obtain ⟨-, row', stored, hrow', rfl, hstored, hpath, hgone⟩ := hnext phase h
      rw [hrow] at hrow'
      obtain rfl := Option.some.inj hrow'
      have hid : stored.id = row.id := findRow_key hstored
      rw [hget, hstored]
      refine ⟨_, rfl, ?_⟩
      dsimp only
      rw [if_pos hid]
      exact ⟨hpath, hcreating, fun _ => hgone⟩

/-- A worktree is inserted, under an identifier that no run refers to. -/
theorem Exclusive.insertWorktree (hi : services.Exclusive) {call : ℕ} {id path : String}
    {tables : Tables} (hfree : services.call call = none)
    (hinsert : services.tables.insertWorktree id path = some tables) :
    ((services.setTables tables).setCall call (some (.inserted id path))).Exclusive := by
  obtain ⟨hfresh, hpath, hruns, hworktrees, hget⟩ := Tables.insertWorktree_cases hinsert
  have hold : ∀ other phase, ((services.setTables tables).setCall call
      (some (.inserted id path))).call other = some phase →
      (other ≠ call ∧ services.call other = some phase) ∨
        (other = call ∧ phase = .inserted id path) := by
    intro other phase hother
    by_cases ho : other = call
    · subst ho
      exact .inr ⟨rfl, by simpa [Services.setCall, eq_comm] using hother⟩
    · exact .inl ⟨ho, by simpa [Services.setCall, Services.setTables, ho] using hother⟩
  have husers : ∀ w, tables.users w = services.tables.users w := fun w => Tables.users_of_runs hruns
  refine ⟨⟨?_, fun agentId => ?_⟩, ?_, ?_, ?_, ?_, ?_⟩
  · change (tables.runs.map AgentRunRow.id).Nodup
    rw [hruns]
    exact hi.sound.ids
  · change tables.activeRuns agentId ≤ 1
    unfold Tables.activeRuns
    rw [hruns]
    exact hi.sound.exclusive agentId
  · change (tables.worktrees.map WorktreeRow.id).Nodup
    rw [hworktrees]
    have hnone : findRow WorktreeRow.id services.tables.worktrees
        (WorktreeRow.mk id path .creating).id = none := hfresh
    exact nodup_push hnone hi.ids
  · change (tables.worktrees.map WorktreeRow.path).Nodup
    rw [hworktrees, List.map_append, List.nodup_append]
    refine ⟨hi.paths, List.nodup_singleton _, ?_⟩
    intro a ha b hb
    obtain ⟨other, hother, rfl⟩ := List.mem_map.mp ha
    obtain rfl : b = path := by simpa using hb
    exact hpath other hother
  · intro w
    change tables.Claimed w
    by_cases hw : w = id
    · subst hw
      have hnone : services.tables.worktreeStatus w = none := by
        rw [Tables.worktreeStatus, hfresh]
        rfl
      have hidle : tables.users w = 0 := by
        rw [husers]
        by_contra hu
        have hbusy := (hi.claimed w).busy.mp hu
        rw [hnone] at hbusy
        cases hbusy
      have hstatus : tables.worktreeStatus w = some .creating := by
        rw [Tables.worktreeStatus, hget, if_pos rfl]
        rfl
      refine ⟨hidle.trans_le (Nat.zero_le 1), fun hu => absurd hidle hu, fun hs => ?_⟩
      rw [hstatus] at hs
      cases hs
    · apply (hi.claimed w).of_eq (husers w)
      rw [Tables.worktreeStatus, hget, if_neg hw]
      rfl
  · intro other phase id' hother hid
    change tables.worktreeStatus id' = _ ∧ _
    have fresh_of : ∀ third phase', services.call third = some phase' → phase'.creates ≠ some id := by
      intro third phase' hthird hid'
      obtain ⟨stored, hstored, -⟩ := hi.creating_row hthird hid'
      rw [hfresh] at hstored
      cases hstored
    rcases hold other phase hother with ⟨ho, h⟩ | ⟨rfl, rfl⟩
    · have hne : id' ≠ id := by
        rintro rfl
        exact fresh_of other phase h hid
      obtain ⟨hstatus, halone⟩ := hi.creating other phase id' h hid
      refine ⟨?_, ?_⟩
      · rw [← hstatus, Tables.worktreeStatus, hget, if_neg hne]
        rfl
      · intro third phase' hthird hid'
        rcases hold third phase' hthird with ⟨-, h'⟩ | ⟨-, rfl⟩
        · exact halone third phase' h' hid'
        · exact absurd (Option.some.inj hid').symm hne
    · obtain rfl : id = id' := Option.some.inj hid
      refine ⟨?_, ?_⟩
      · rw [Tables.worktreeStatus, hget, if_pos rfl]
        rfl
      · intro third phase' hthird hid'
        rcases hold third phase' hthird with ⟨-, h'⟩ | ⟨rfl, -⟩
        · exact absurd hid' (fresh_of third phase' h')
        · rfl
  · intro other phase row' hother hrow
    change ∃ stored, tables.getWorktree row'.id = some stored ∧ _
    rcases hold other phase hother with ⟨-, h⟩ | ⟨rfl, rfl⟩
    · obtain ⟨stored, hstored, hrest⟩ := hi.created other phase row' h hrow
      have hne : row'.id ≠ id := by
        intro he
        rw [he, hfresh] at hstored
        cases hstored
      exact ⟨stored, by rw [hget, if_neg hne, hstored], hrest⟩
    · cases hrow

/-- A release reads a row that has been created. -/
theorem Exclusive.read (hi : services.Exclusive) {call : ℕ} {id : String} {row : WorktreeRow}
    {force : Bool} (hrow : services.tables.getWorktree id = some row)
    (hstatus : row.status = .ready ∨ row.status = .failed) :
    (services.setCall call (some (.read row force))).Exclusive := by
  have hold : ∀ other phase, (services.setCall call (some (.read row force))).call other =
      some phase → services.call other = some phase ∨ phase = .read row force := by
    intro other phase hother
    by_cases ho : other = call
    · subst ho
      exact .inr (by simpa [Services.setCall, eq_comm] using hother)
    · exact .inl (by simpa [Services.setCall, ho] using hother)
  refine ⟨hi.sound, hi.ids, hi.paths, hi.claimed, ?_, ?_⟩
  · intro other phase id' hother hid
    rcases hold other phase hother with h | rfl
    · obtain ⟨hcreating, halone⟩ := hi.creating other phase id' h hid
      refine ⟨hcreating, fun third phase' hthird hid' => ?_⟩
      rcases hold third phase' hthird with h' | rfl
      · exact halone third phase' h' hid'
      · cases hid'
    · cases hid
  · intro other phase row' hother hrow'
    rcases hold other phase hother with h | rfl
    · exact hi.created other phase row' h hrow'
    · obtain rfl : row = row' := Option.some.inj hrow'
      have hid : row.id = id := findRow_key hrow
      refine ⟨row, by rw [hid]; exact hrow, rfl, ?_, fun hmarked => by cases hmarked⟩
      rcases hstatus with h | h <;> rw [h] <;> decide

/-- A worktree is created. -/
def creation : List SupervisorAct :=
  [.createWorktree 0 "w" "/worktrees/w", .addWorktree 0 true, .createdWorktree 0 true]

/-- A run in the worktree is admitted. -/
def admissionInto (agentId runId : String) : List SupervisorAct :=
  (AgentService.admission agentId runId ⟨.worktreeMode, some "w"⟩).map .agent

/-- A completed run is followed up while another one has its worktree. -/
def followedUp : List SupervisorAct :=
  creation ++ admissionInto "a" "r" ++ (AgentService.completion "a" "r" 1).map .agent ++
    admissionInto "b" "q" ++
      [.agent (.followUpRun "r"), .agent (.followUp "a" false 2), .agent (.followUpMark "a" true)]

end PiDeck.Supervisor.Services
