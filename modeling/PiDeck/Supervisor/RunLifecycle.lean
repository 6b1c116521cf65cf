import Mathlib
import PiDeck.Supervisor.Writes

/-! The life of a run: which statuses follow each other, that a run ends together with its one
terminal event, and that an agent has one active run at most. -/
namespace PiDeck.Supervisor
open PiDeck.Collections PiDeck.Transition

def StoredEvent.isTerminal : StoredEvent → Bool
  | .terminal _ => true
  | .session _ | .custom _ => false

namespace Tables
variable {tables tables' : Tables} {act : AgentAct} {r runId agentId now : String}
  {p : AgentRunRow → Bool} {status : ManagedAgentRunStatus}

/-- How many terminal events of a run are stored. -/
def terminalEvents (tables : Tables) (runId : String) : ℕ :=
  tables.events.countP (fun row => row.runId = some runId && row.event.isTerminal)

/-- How many runs of an agent are queued or running. -/
def activeRuns (tables : Tables) (agentId : String) : ℕ :=
  tables.runs.countP (fun run => run.agentId = agentId && run.status.isActive)

theorem getRunRow_updateRuns : (tables.updateRuns p status).getRunRow r =
    (tables.getRunRow r).map (fun run => if p run then { run with status := status } else run) := by
  unfold getRunRow updateRuns
  dsimp only
  apply findRow_updateWhere
  exact fun _ _ => rfl

theorem runStatus_changeStatus (tables : Tables) (runId : String) (old new : ManagedAgentRunStatus)
    (r : String) : (tables.changeStatus runId old new).runStatus r =
    if r = runId ∧ tables.runStatus r = some old then some new else tables.runStatus r := by
  unfold changeStatus runStatus
  rw [getRunRow_updateRuns]
  cases hrow : tables.getRunRow r with
  | none => simp
  | some run =>
    have hid : run.id = r := findRow_key hrow
    by_cases hr : r = runId
    · by_cases hs : run.status = old
      · simp [hid, hr, hs]
      · simp [hid, hr, hs]
    · simp [hid, hr]

@[simp] theorem runStatus_insertEvent {target : Option String} {event : StoredEvent} :
    (tables.insertEvent agentId target event now).runStatus r = tables.runStatus r := rfl

@[simp] theorem runs_freeWorktree {worktree : Option String} :
    (tables.freeWorktree worktree).runs = tables.runs := by
  cases worktree <;> rfl

@[simp] theorem events_freeWorktree {worktree : Option String} :
    (tables.freeWorktree worktree).events = tables.events := by
  cases worktree <;> rfl

theorem runStatus_of_runs (h : tables'.runs = tables.runs) : tables'.runStatus r = tables.runStatus r := by
  unfold runStatus getRunRow
  rw [h]

theorem terminalEvents_of_events (h : tables'.events = tables.events) :
    tables'.terminalEvents r = tables.terminalEvents r := by
  unfold terminalEvents
  rw [h]

theorem terminalEvents_insertEvent {target : Option String} {event : StoredEvent} :
    (tables.insertEvent agentId target event now).terminalEvents r =
      tables.terminalEvents r + if target = some r ∧ event.isTerminal = true then 1 else 0 := by
  simp [terminalEvents, insertEvent, List.countP_append]

/-- The rows that `finalizeRun` updates. -/
def unfinished (agentId runId : String) (run : AgentRunRow) : Bool :=
  run.id = runId && run.agentId = agentId && run.status.isActive

theorem finalizeRun_cases (agentId runId : String) (final : FinalStatus) (eventType now : String) :
    (tables.runs.countP (unfinished agentId runId) = 0 ∧
      tables.finalizeRun agentId runId final eventType now = (tables, false)) ∨
    ∃ worktree, tables.runs.countP (unfinished agentId runId) ≠ 0 ∧
      worktree = (tables.runs.find? (fun run => run.id = runId && run.agentId = agentId)).bind
        AgentRunRow.worktreeId ∧
      tables.finalizeRun agentId runId final eventType now =
        (((tables.updateRuns (unfinished agentId runId) final.status).freeWorktree
          worktree).insertEvent agentId (some runId) (.terminal eventType) now, true) := by
  unfold finalizeRun
  by_cases h : tables.runs.countP (unfinished agentId runId) = 0
  · exact .inl ⟨h, if_pos h⟩
  · exact .inr ⟨_, h, rfl, if_neg h⟩

/-- Which run the transaction ends, if the run is of the agent that is named. -/
theorem unfinished_iff (nodup : (tables.runs.map AgentRunRow.id).Nodup) :
    tables.runs.countP (unfinished agentId runId) ≠ 0 ↔
      tables.runAgent runId = some agentId ∧
        (tables.runStatus runId).any ManagedAgentRunStatus.isActive = true := by
  rw [← Nat.pos_iff_ne_zero, List.countP_pos_iff]
  constructor
  · rintro ⟨run, hmem, hrun⟩
    obtain ⟨⟨rfl, rfl⟩, hactive⟩ : (run.id = runId ∧ run.agentId = agentId) ∧
        run.status.isActive = true := by simpa [unfinished] using hrun
    have hrow : tables.getRunRow run.id = some run := findRow_of_mem nodup hmem
    simp [runAgent, runStatus, hrow, hactive]
  · rintro ⟨hagent, hactive⟩
    obtain ⟨run, hrow, rfl⟩ := Option.map_eq_some_iff.mp hagent
    have hactive : run.status.isActive = true := by simpa [runStatus, hrow] using hactive
    have hid : run.id = runId := findRow_key hrow
    exact ⟨run, findRow_mem hrow, by simp [unfinished, hid, hactive]⟩

theorem runStatus_updateUnfinished {final : FinalStatus}
    (hagent : tables.runAgent runId = some agentId)
    (hactive : (tables.runStatus runId).any ManagedAgentRunStatus.isActive = true) :
    (tables.updateRuns (unfinished agentId runId) final.status).runStatus r =
      if r = runId then some final.status else tables.runStatus r := by
  unfold runStatus
  rw [getRunRow_updateRuns]
  by_cases hr : r = runId
  · subst hr
    obtain ⟨run, hrow, rfl⟩ := Option.map_eq_some_iff.mp hagent
    have hactive : run.status.isActive = true := by simpa [runStatus, hrow] using hactive
    have hid : run.id = r := findRow_key hrow
    simp [hrow, unfinished, hid, hactive]
  · cases hrow : tables.getRunRow r with
    | none => simp [hr]
    | some run =>
      have hid : run.id = r := findRow_key hrow
      simp [unfinished, hid, hr]

/-- The transaction of `finalizeRun` has a run to end. -/
def Ends (tables : Tables) (agentId runId : String) : Prop :=
  tables.runAgent runId = some agentId ∧
    (tables.runStatus runId).any ManagedAgentRunStatus.isActive = true

instance : Decidable (tables.Ends agentId runId) := by
  unfold Ends
  infer_instance

variable {final : FinalStatus} {eventType : String}

theorem runStatus_finalizeRun (nodup : (tables.runs.map AgentRunRow.id).Nodup)
    (agentId runId : String) (final : FinalStatus) (eventType now r : String) :
    (tables.finalizeRun agentId runId final eventType now).1.runStatus r =
      if r = runId ∧ tables.Ends agentId runId then some final.status else tables.runStatus r := by
  rcases finalizeRun_cases agentId runId final eventType now with ⟨hnone, h⟩ | ⟨worktree, hsome, -, h⟩
  · have hnot : ¬tables.Ends agentId runId := fun hends => (unfinished_iff nodup).mpr hends hnone
    simp [h, hnot]
  · have hends : tables.Ends agentId runId := (unfinished_iff nodup).mp hsome
    rw [h, runStatus_insertEvent, runStatus_of_runs runs_freeWorktree,
      runStatus_updateUnfinished hends.1 hends.2]
    simp [hends]

theorem terminalEvents_finalizeRun (nodup : (tables.runs.map AgentRunRow.id).Nodup)
    (agentId runId : String) (final : FinalStatus) (eventType now r : String) :
    (tables.finalizeRun agentId runId final eventType now).1.terminalEvents r =
      tables.terminalEvents r + if r = runId ∧ tables.Ends agentId runId then 1 else 0 := by
  rcases finalizeRun_cases agentId runId final eventType now with ⟨hnone, h⟩ | ⟨worktree, hsome, -, h⟩
  · have hnot : ¬tables.Ends agentId runId := fun hends => (unfinished_iff nodup).mpr hends hnone
    simp [h, hnot]
  · have hends : tables.Ends agentId runId := (unfinished_iff nodup).mp hsome
    rw [h, terminalEvents_insertEvent, terminalEvents_of_events events_freeWorktree]
    by_cases hr : r = runId
    · subst hr
      simp [hends, StoredEvent.isTerminal, terminalEvents, updateRuns]
    · have hr' : ¬runId = r := fun he => hr he.symm
      simp [hr, hr', terminalEvents, updateRuns]

theorem ids_finalizeRun :
    (tables.finalizeRun agentId runId final eventType now).1.runs.map AgentRunRow.id =
      tables.runs.map AgentRunRow.id := by
  rcases finalizeRun_cases agentId runId final eventType now with ⟨-, h⟩ | ⟨worktree, -, -, h⟩
  · rw [h]
  · rw [h]
    change ((tables.updateRuns _ _).freeWorktree worktree).runs.map _ = _
    rw [runs_freeWorktree]
    exact map_updateWhere fun _ _ => rfl

theorem activeRuns_finalizeRun_le :
    (tables.finalizeRun agentId runId final eventType now).1.activeRuns r ≤ tables.activeRuns r := by
  rcases finalizeRun_cases agentId runId final eventType now with ⟨-, h⟩ | ⟨worktree, -, -, h⟩
  · rw [h]
  · rw [h]
    change ((tables.updateRuns _ _).freeWorktree worktree).runs.countP _ ≤ _
    rw [runs_freeWorktree]
    have hdrop : (updateWhere (unfinished agentId runId)
        (fun run => { run with status := final.status }) tables.runs).countP
          (fun run => run.agentId = r && run.status.isActive) + _ = _ :=
      countP_updateWhere_of_drop fun run _ _ => by simp
    exact Nat.le.intro hdrop

theorem insertRun_cases {run : AgentRunRow} (h : tables.insertRun run = some tables') :
    tables.getRunRow run.id = none ∧ tables.agentBusy run.agentId = false ∧
      tables' = { tables with runs := tables.runs ++ [run] } := by
  unfold insertRun at h
  split at h
  · rename_i hguard
    exact ⟨hguard.1, hguard.2, (Option.some.inj h).symm⟩
  · cases h

/-- A run is inserted into the tables as they are, up to the claim of its worktree. -/
theorem admitRun_cases {run : AgentRunRow} (h : tables.admitRun run = some tables') :
    ∃ claimed, (claimed = tables ∧ run.worktreeId = none ∨
        ∃ worktree, run.worktreeId = some worktree ∧
          tables.worktrees.countP (fun row => row.id = worktree && row.status = .ready) = 1 ∧
          claimed = tables.setWorktree worktree (· = .ready) .busy) ∧
      claimed.insertRun run = some tables' := by
  unfold admitRun at h
  cases hw : run.worktreeId with
  | none =>
    rw [hw] at h
    exact ⟨tables, .inl ⟨rfl, rfl⟩, h⟩
  | some worktree =>
    rw [hw] at h
    dsimp only at h
    split at h
    · rename_i hone
      exact ⟨_, .inr ⟨worktree, rfl, hone, rfl⟩, h⟩
    · cases h

/-- What an admission does to the runs. -/
theorem runs_admitRun {run : AgentRunRow} (h : tables.admitRun run = some tables') :
    tables.getRunRow run.id = none ∧ tables.agentBusy run.agentId = false ∧
      tables'.runs = tables.runs ++ [run] ∧ tables'.events = tables.events := by
  obtain ⟨claimed, hclaimed, hinsert⟩ := admitRun_cases h
  obtain ⟨hfresh, hidle, rfl⟩ := insertRun_cases hinsert
  rcases hclaimed with ⟨rfl, -⟩ | ⟨worktree, -, -, rfl⟩
  · exact ⟨hfresh, hidle, rfl, rfl⟩
  · exact ⟨hfresh, hidle, rfl, rfl⟩

theorem runStatus_admitRun {run : AgentRunRow} (h : tables.admitRun run = some tables') (r : String) :
    tables'.runStatus r = if r = run.id then some run.status else tables.runStatus r := by
  obtain ⟨hfresh, -, hruns, -⟩ := runs_admitRun h
  unfold runStatus getRunRow
  rw [hruns, findRow_push hfresh]
  split <;> rfl

/-- How a statement changes the status of a run, and how many terminal events it stores for it. A
completed run becomes running only in the step that a follow-up makes. -/
inductive StatusChange (act : AgentAct) (r : String) (tables tables' : Tables) : Prop
  | kept (status : tables'.runStatus r = tables.runStatus r)
      (events : (∀ cutoff, act ≠ .restart (some cutoff)) →
        tables'.terminalEvents r = tables.terminalEvents r)
  | admitted (unknown : tables.runStatus r = none) (status : tables'.runStatus r = some .queued)
      (events : tables'.terminalEvents r = tables.terminalEvents r)
  | accepted (queued : tables.runStatus r = some .queued)
      (status : tables'.runStatus r = some .running)
      (events : tables'.terminalEvents r = tables.terminalEvents r)
  | followedUp (agentId : String) (hact : act = .followUpMark agentId true)
      (completed : tables.runStatus r = some .completed)
      (status : tables'.runStatus r = some .running)
      (events : tables'.terminalEvents r = tables.terminalEvents r)
  | ended (final : FinalStatus)
      (active : (tables.runStatus r).any ManagedAgentRunStatus.isActive = true)
      (status : tables'.runStatus r = some final.status)
      (events : tables'.terminalEvents r = tables.terminalEvents r + 1)

/-- The tables of a reachable service: no two runs have one identifier, and no two active runs one
agent. -/
structure Sound (tables : Tables) : Prop where
  ids : (tables.runs.map AgentRunRow.id).Nodup
  exclusive : ∀ agentId, tables.activeRuns agentId ≤ 1

theorem markRunRunning_cases (tables : Tables) (runId : String) :
    (∃ run ∈ tables.runs, run.id = runId ∧ run.status = .completed ∧
      tables.agentBusy run.agentId = false ∧
      tables.markRunRunning runId = (tables.changeStatus runId .completed .running, true)) ∨
    tables.markRunRunning runId = (tables, false) := by
  unfold markRunRunning
  cases hre : tables.reactivates runId with
  | none => exact .inr rfl
  | some run =>
    obtain ⟨hfind, hidle⟩ := Option.filter_eq_some_iff.mp hre
    have hmem := List.mem_of_find?_eq_some hfind
    obtain ⟨hid, hcompleted⟩ : run.id = runId ∧ run.status = .completed := by
      simpa using List.find?_some hfind
    exact .inl ⟨run, hmem, hid, hcompleted, by simpa using hidle, rfl⟩

theorem persistEvent_cases {target : Option String} {event : StoredEvent}
    (h : tables.persistEvent agentId target event now = some tables') :
    tables' = tables.insertEvent agentId target event now := by
  unfold persistEvent at h
  split at h
  · exact (Option.some.inj h).symm
  · cases h

theorem statusChange (h : Write act tables tables') (sound : tables.Sound) :
    StatusChange act r tables tables' := by
  cases h with
  | none => exact .kept rfl fun _ => rfl
  | agents agents => exact .kept rfl fun _ => rfl
  | worktrees worktrees => exact .kept rfl fun _ => rfl
  | admitRun run queued admitted =>
    obtain ⟨hfresh, -, -, hevents⟩ := runs_admitRun admitted
    have hstatus := runStatus_admitRun admitted r
    by_cases hr : r = run.id
    · subst hr
      rw [if_pos rfl, queued] at hstatus
      exact .admitted (by simp [runStatus, hfresh]) hstatus (terminalEvents_of_events hevents)
    · rw [if_neg hr] at hstatus
      exact .kept hstatus fun _ => terminalEvents_of_events hevents
  | setRunning runId =>
    have hstatus := runStatus_changeStatus tables runId .queued .running r
    by_cases hr : r = runId ∧ tables.runStatus r = some .queued
    · rw [if_pos hr] at hstatus
      exact .accepted hr.2 hstatus rfl
    · rw [if_neg hr] at hstatus
      exact .kept hstatus fun _ => rfl
  | markRunRunning agentId runId hact =>
    rcases markRunRunning_cases tables runId with ⟨run, -, -, -, -, hmark⟩ | hmark
    · rw [hmark]
      have hstatus := runStatus_changeStatus tables runId .completed .running r
      by_cases hr : r = runId ∧ tables.runStatus r = some .completed
      · rw [if_pos hr] at hstatus
        exact .followedUp agentId hact hr.2 hstatus rfl
      · rw [if_neg hr] at hstatus
        exact .kept hstatus fun _ => rfl
    · rw [hmark]
      exact .kept rfl fun _ => rfl
  | session agentId runId event now persisted =>
    rw [persistEvent_cases persisted]
    exact .kept rfl fun _ => by simp [terminalEvents_insertEvent, StoredEvent.isTerminal]
  | custom agentId runId type now persisted =>
    rw [persistEvent_cases persisted]
    exact .kept rfl fun _ => by simp [terminalEvents_insertEvent, StoredEvent.isTerminal]
  | finalize agentId runId final eventType now =>
    have hstatus := runStatus_finalizeRun sound.ids agentId runId final eventType now r
    have hevents := terminalEvents_finalizeRun sound.ids agentId runId final eventType now r
    by_cases hr : r = runId ∧ tables.Ends agentId runId
    · rw [if_pos hr] at hstatus hevents
      obtain ⟨rfl, hends⟩ := hr
      exact .ended final hends.2 hstatus hevents
    · rw [if_neg hr] at hstatus hevents
      exact .kept hstatus fun _ => hevents
  | compact cutoff hact => exact .kept rfl fun hoff => absurd hact (hoff cutoff)

theorem activeRuns_eq_zero : tables.activeRuns agentId = 0 ↔ tables.agentBusy agentId = false := by
  unfold activeRuns agentBusy
  rw [List.countP_eq_zero, List.any_eq_false]

theorem ids_changeStatus {old new : ManagedAgentRunStatus} :
    (tables.changeStatus runId old new).runs.map AgentRunRow.id =
      tables.runs.map AgentRunRow.id :=
  map_updateWhere fun _ _ => rfl

/-- A run that becomes active again is the only one of its agent. -/
theorem exclusive_changeStatus {run : AgentRunRow} (sound : tables.Sound) (hmem : run ∈ tables.runs)
    (hid : run.id = runId) (hidle : tables.agentBusy run.agentId = false)
    (agentId : String) :
    (tables.changeStatus runId .completed .running).activeRuns agentId ≤ 1 := by
  have hrow : tables.getRunRow runId = some run := hid ▸ findRow_of_mem sound.ids hmem
  have honly : ∀ other ∈ tables.runs, other.id = runId → other = run := by
    intro other hother hother'
    have hrow' : tables.getRunRow runId = some other := hother' ▸ findRow_of_mem sound.ids hother
    exact Option.some.inj (hrow'.symm.trans hrow)
  unfold activeRuns changeStatus updateRuns
  dsimp only
  by_cases hagent : agentId = run.agentId
  · subst hagent
    have hzero := activeRuns_eq_zero.mpr hidle
    rw [countP_updateWhere]
    refine countP_key_le_one (k := runId) sound.ids fun other hother hcounted => ?_
    by_contra hne
    have hbusy : (other.agentId = run.agentId && other.status.isActive) = true := by
      simpa [hne] using hcounted
    have hpos : 0 < tables.activeRuns run.agentId := List.countP_pos_iff.mpr ⟨other, hother, hbusy⟩
    omega
  · rw [countP_updateWhere_of_eq]
    · exact sound.exclusive agentId
    · intro other hother hp
      obtain ⟨hother', -⟩ : other.id = runId ∧ other.status = .completed := by simpa using hp
      obtain rfl := honly other hother hother'
      have hne : ¬other.agentId = agentId := fun he => hagent he.symm
      simp [hne]

theorem sound_write (h : Write act tables tables') (sound : tables.Sound) : tables'.Sound := by
  cases h with
  | none => exact sound
  | agents agents => exact ⟨sound.ids, sound.exclusive⟩
  | worktrees worktrees => exact ⟨sound.ids, sound.exclusive⟩
  | compact cutoff hact => exact ⟨sound.ids, sound.exclusive⟩
  | session agentId runId event now persisted =>
    rw [persistEvent_cases persisted]
    exact ⟨sound.ids, sound.exclusive⟩
  | custom agentId runId type now persisted =>
    rw [persistEvent_cases persisted]
    exact ⟨sound.ids, sound.exclusive⟩
  | admitRun run queued admitted =>
    obtain ⟨hfresh, hidle, hruns, -⟩ := runs_admitRun admitted
    constructor
    · rw [hruns]
      exact nodup_push hfresh sound.ids
    · intro agentId
      unfold activeRuns
      rw [hruns, List.countP_append]
      by_cases hagent : run.agentId = agentId
      · subst hagent
        have hzero := activeRuns_eq_zero.mpr hidle
        unfold activeRuns at hzero
        rw [hzero]
        simp [queued, ManagedAgentRunStatus.isActive]
      · have hle := sound.exclusive agentId
        unfold activeRuns at hle
        simpa [hagent] using hle
  | setRunning runId =>
    constructor
    · change ((tables.changeStatus runId .queued .running).runs.map AgentRunRow.id).Nodup
      rw [ids_changeStatus]
      exact sound.ids
    · intro agentId
      have hsame : (updateWhere (fun run : AgentRunRow => run.id = runId && run.status = .queued)
          (fun run => { run with status := .running }) tables.runs).countP
            (fun run => run.agentId = agentId && run.status.isActive) =
          tables.runs.countP (fun run => run.agentId = agentId && run.status.isActive) := by
        apply countP_updateWhere_of_eq
        intro run _ hp
        obtain ⟨-, hqueued⟩ : run.id = runId ∧ run.status = .queued := by simpa using hp
        simp [hqueued, ManagedAgentRunStatus.isActive]
      exact hsame.trans_le (sound.exclusive agentId)
  | markRunRunning agentId runId hact =>
    rcases markRunRunning_cases tables runId with ⟨run, hmem, hid, -, hidle, hmark⟩ | hmark
    · rw [hmark]
      constructor
      · rw [ids_changeStatus]
        exact sound.ids
      · exact exclusive_changeStatus sound hmem hid hidle
    · rw [hmark]
      exact sound
  | finalize agentId runId final eventType now =>
    constructor
    · rw [ids_finalizeRun]
      exact sound.ids
    · exact fun agentId => activeRuns_finalizeRun_le.trans (sound.exclusive agentId)

end Tables

namespace AgentService
variable {service service' : AgentService} {act : AgentAct} {acts : List AgentAct}
  {limits : QueueLimits} {runId : String}

theorem sound_fresh : (fresh limits).tables.Sound := ⟨List.nodup_nil, fun _ => Nat.zero_le 1⟩

theorem sound_run (h : machine.Run (fresh limits) acts service) : service.tables.Sound :=
  h.invariant (I := fun service => service.tables.Sound)
    (fun _ _ _ sound _ hstep => Tables.sound_write (writes_step hstep) sound) sound_fresh

/-- A failed or cancelled run keeps its status. -/
theorem ended_step (sound : service.tables.Sound) (h : machine.step service act = some service')
    {status : ManagedAgentRunStatus} (hstatus : service.tables.runStatus runId = some status)
    (hended : status = .failed ∨ status = .cancelled) :
    service'.tables.runStatus runId = some status := by
  cases Tables.statusChange (writes_step h) sound with
  | kept same events => exact same.trans hstatus
  | admitted unknown => simp [hstatus] at unknown
  | accepted queued =>
    obtain rfl := Option.some.inj (hstatus.symm.trans queued)
    simp at hended
  | followedUp agentId hact completed =>
    obtain rfl := Option.some.inj (hstatus.symm.trans completed)
    simp at hended
  | ended final active =>
    rcases hended with rfl | rfl <;> simp [hstatus, ManagedAgentRunStatus.isActive] at active

/-- The lifecycle of the runs of a service: a failed or cancelled run keeps its status for good; a
completed run only becomes running, in the step of a follow-up; a terminal event of a run is stored
in a step exactly if the run ends in it, and then one; and an agent has at most one active run. -/
theorem run_lifecycle (h : machine.Run (fresh limits) acts service) :
    (∀ runId status later service', machine.Run service later service' →
      service.tables.runStatus runId = some status → (status = .failed ∨ status = .cancelled) →
      service'.tables.runStatus runId = some status) ∧
    (∀ act service' runId, machine.step service act = some service' →
      service.tables.runStatus runId = some .completed →
      service'.tables.runStatus runId = some .completed ∨
        (∃ agentId, act = .followUpMark agentId true) ∧
          service'.tables.runStatus runId = some .running) ∧
    (∀ act service' runId, machine.step service act = some service' →
      (∀ cutoff, act ≠ .restart (some cutoff)) →
      service'.tables.terminalEvents runId = service.tables.terminalEvents runId +
        if service'.tables.runStatus runId ≠ service.tables.runStatus runId ∧
          (service'.tables.runStatus runId).any (fun status => !status.isActive) = true
        then 1 else 0) ∧
    ∀ agentId, service.tables.activeRuns agentId ≤ 1 := by
  have sound := sound_run h
  refine ⟨?_, ?_, ?_, sound.exclusive⟩
  · intro runId status later service' hrun hstatus hended
    have hboth := hrun.invariant
      (I := fun service => service.tables.Sound ∧ service.tables.runStatus runId = some status)
      (fun _ _ _ hi _ hstep =>
        ⟨Tables.sound_write (writes_step hstep) hi.1, ended_step hi.1 hstep hi.2 hended⟩)
      ⟨sound, hstatus⟩
    exact hboth.2
  · intro act service' runId hstep hstatus
    cases Tables.statusChange (r := runId) (writes_step hstep) sound with
    | kept same events => exact .inl (same.trans hstatus)
    | admitted unknown => simp [hstatus] at unknown
    | accepted queued => simp [hstatus] at queued
    | followedUp agentId hact completed status => exact .inr ⟨⟨agentId, hact⟩, status⟩
    | ended final active => simp [hstatus, ManagedAgentRunStatus.isActive] at active
  · intro act service' runId hstep hoff
    cases Tables.statusChange (r := runId) (writes_step hstep) sound with
    | kept same events => simp [same, events hoff]
    | admitted unknown status events => simp [status, events, ManagedAgentRunStatus.isActive]
    | accepted queued status events => simp [status, events, ManagedAgentRunStatus.isActive]
    | followedUp agentId hact completed status events =>
      simp [status, events, ManagedAgentRunStatus.isActive]
    | ended final active status events =>
      have hne : some final.status ≠ service.tables.runStatus runId := by
        intro he
        rw [← he] at active
        simp at active
      simp [status, events, hne]

/-- An agent is created, and a run of it up to the answer to its prompt. -/
def admission (agentId runId : String) (request : RunRequest) : List AgentAct :=
  [.createAgent agentId 2, .runWork agentId true "1", .createRunFind agentId request,
    .createRunResolve agentId true, .createRunInsert agentId runId true, .startSession agentId true,
    .identify agentId true, .startPrompt agentId, .preflight agentId true true, .announce agentId 2,
    .runWork agentId true "2", .announced agentId]

/-- The prompt of a run settles, and the run is completed. -/
def completion (agentId runId : String) (generation : ℕ) : List AgentAct :=
  [.settle runId generation .resolved, .operationCheck runId generation,
    .operationDrained runId generation, .runWork agentId true "3", .operationReturn runId generation]

theorem run_lifecycle_completed : ∃ service, machine.Run (fresh ⟨8, 4096⟩)
      (admission "a" "r" ⟨.localMode, none⟩ ++ completion "a" "r" 1) service ∧
    service.tables.runStatus "r" = some .completed ∧ service.tables.activeRuns "a" ≤ 1 := by
  have hexec : (machine.exec (fun _ _ => True) (fresh ⟨8, 4096⟩)
      (admission "a" "r" ⟨.localMode, none⟩ ++ completion "a" "r" 1)).map
        (fun service => service.tables.runStatus "r") = some (some .completed) := by decide +kernel
  obtain ⟨service, hrun, hstatus⟩ := Option.map_eq_some_iff.mp hexec
  have hrun := Machine.path_of_exec hrun
  exact ⟨service, hrun, hstatus, (run_lifecycle hrun).2.2.2 "a"⟩

end AgentService
end PiDeck.Supervisor
