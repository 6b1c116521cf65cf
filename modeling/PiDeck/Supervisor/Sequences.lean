import Mathlib
import PiDeck.Supervisor.RunLifecycle

/-! The sequences of the events of an agent over the whole history of a service, restarts and
compactions included. The next sequence is one more than the highest that is still stored. -/
namespace PiDeck.Supervisor
open PiDeck.Transition

/-- The highest sequence of an agent among some rows. -/
def lastOf (agentId : String) (rows : List AgentEventRow) : ℕ :=
  ((rows.filter (fun row => row.agentId = agentId)).map AgentEventRow.sequence).foldr max 0

section LastOf
variable {agentId : String} {rows : List AgentEventRow} {row : AgentEventRow} {n : ℕ}

theorem lastOf_le : lastOf agentId rows ≤ n ↔
    ∀ row ∈ rows, row.agentId = agentId → row.sequence ≤ n := by
  induction rows with
  | nil => simp [lastOf]
  | cons row rows ih =>
    by_cases hrow : row.agentId = agentId
    · have hcons : lastOf agentId (row :: rows) = max row.sequence (lastOf agentId rows) := by
        simp [lastOf, hrow]
      rw [hcons, Nat.max_le, ih]
      simp [hrow]
    · have hcons : lastOf agentId (row :: rows) = lastOf agentId rows := by
        simp [lastOf, hrow]
      rw [hcons, ih]
      simp [hrow]

theorem le_lastOf (hmem : row ∈ rows) : row.sequence ≤ lastOf row.agentId rows :=
  lastOf_le.mp le_rfl row hmem rfl

theorem lastOf_mono {rows' : List AgentEventRow} (h : ∀ row ∈ rows, row ∈ rows') :
    lastOf agentId rows ≤ lastOf agentId rows' := by
  rw [lastOf_le]
  rintro row hmem rfl
  exact le_lastOf (h row hmem)

end LastOf

/-- `listEvents` with a cursor: what a client that has seen everything up to it is sent. -/
def Tables.listEvents (tables : Tables) (agentId : String) (afterSequence : ℕ) :
    List AgentEventRow :=
  tables.events.filter (fun row => row.agentId = agentId && afterSequence < row.sequence)

/-- A service with all events that it has ever stored. -/
structure Journal where
  service : AgentService
  written : List AgentEventRow

/-- The events that a step stores; a restart only removes some. -/
def newEvents (tables tables' : Tables) : AgentAct → List AgentEventRow
  | .restart _ => []
  | _ => tables'.events.drop tables.events.length

namespace Journal

def step (journal : Journal) (act : AgentAct) : Option Journal :=
  (AgentService.machine.step journal.service act).map fun service =>
    ⟨service, journal.written ++ newEvents journal.service.tables service.tables act⟩

def machine : Machine Journal AgentAct := ⟨step⟩

def start (limits : QueueLimits) : Journal := ⟨AgentService.fresh limits, []⟩

/-- All events of an agent have been given sequences in the order in which they were stored. -/
def Increasing (journal : Journal) : Prop :=
  journal.written.Pairwise fun a b => a.agentId = b.agentId → a.sequence < b.sequence

instance (journal : Journal) : Decidable journal.Increasing := by
  unfold Increasing
  infer_instance

/-- When a step stores an event of an agent, the newest event that the agent has ever had is still
there: no compaction has removed it. -/
def Intact (journal : Journal) (act : AgentAct) : Prop :=
  ∀ journal', machine.step journal act = some journal' →
    ∀ row ∈ newEvents journal.service.tables journal'.service.tables act,
      journal.service.tables.lastSequence row.agentId = lastOf row.agentId journal.written

/-- Every client that had a cursor of an agent at some time is sent what was stored for the agent
after that. -/
def Delivers (limits : QueueLimits) (acts : List AgentAct) (journal : Journal) : Prop :=
  ∀ as bs earlier, acts = as ++ bs → machine.Run (start limits) as earlier →
    ∀ row ∈ journal.written.drop earlier.written.length, row ∈ journal.service.tables.events →
      ∀ cursor ≤ lastOf row.agentId earlier.written,
        row ∈ journal.service.tables.listEvents row.agentId cursor

variable {journal journal' : Journal} {act : AgentAct} {acts : List AgentAct} {limits : QueueLimits}

/-- What a statement does to the events. -/
theorem events_write {tables tables' : Tables} (h : Write act tables tables') :
    (∃ cutoff, act = .restart (some cutoff) ∧ tables' = tables.compactEvents cutoff) ∨
      tables'.events = tables.events ∨
      ∃ row, tables'.events = tables.events ++ [row] ∧
        row.sequence = tables.lastSequence row.agentId + 1 := by
  cases h with
  | none => exact .inr (.inl rfl)
  | agents agents => exact .inr (.inl rfl)
  | worktrees worktrees => exact .inr (.inl rfl)
  | admitRun run queued admitted => exact .inr (.inl (Tables.runs_admitRun admitted).2.2.2)
  | setRunning runId => exact .inr (.inl rfl)
  | markRunRunning agentId runId hact =>
    rcases Tables.markRunRunning_cases tables runId with ⟨run, -, -, -, -, hmark⟩ | hmark
    · rw [hmark]
      exact .inr (.inl rfl)
    · rw [hmark]
      exact .inr (.inl rfl)
  | session agentId runId event now persisted =>
    rw [Tables.persistEvent_cases persisted]
    exact .inr (.inr ⟨_, rfl, rfl⟩)
  | custom agentId runId type now persisted =>
    rw [Tables.persistEvent_cases persisted]
    exact .inr (.inr ⟨_, rfl, rfl⟩)
  | finalize agentId runId final eventType now =>
    rcases Tables.finalizeRun_cases agentId runId final eventType now with
      ⟨-, h⟩ | ⟨worktree, -, -, h⟩
    · rw [h]
      exact .inr (.inl rfl)
    · rw [h]
      refine .inr (.inr ⟨_, congrArg (· ++ [_]) Tables.events_freeWorktree, ?_⟩)
      change Tables.lastSequence _ agentId + 1 = tables.lastSequence agentId + 1
      unfold Tables.lastSequence
      rw [Tables.events_freeWorktree]
      rfl
  | compact cutoff hact => exact .inl ⟨cutoff, hact, rfl⟩

/-- A step of the journal stores one event at most, under the next sequence of its agent; only a
restart removes events. -/
theorem step_cases (h : machine.step journal act = some journal') :
    (journal'.written = journal.written ∧
      newEvents journal.service.tables journal'.service.tables act = [] ∧
      ∀ row ∈ journal'.service.tables.events, row ∈ journal.service.tables.events) ∨
    ∃ row, journal'.written = journal.written ++ [row] ∧
      newEvents journal.service.tables journal'.service.tables act = [row] ∧
      journal'.service.tables.events = journal.service.tables.events ++ [row] ∧
      row.sequence = journal.service.tables.lastSequence row.agentId + 1 := by
  obtain ⟨service', hstep, rfl⟩ := Option.map_eq_some_iff.mp h
  by_cases hrestart : ∃ cutoff, act = .restart cutoff
  · obtain ⟨cutoff, rfl⟩ := hrestart
    obtain rfl : journal.service.restart cutoff = service' := Option.some.inj hstep
    refine .inl ⟨List.append_nil _, rfl, ?_⟩
    cases cutoff with
    | none => exact fun row hrow => hrow
    | some cutoff => exact fun row hrow => (List.mem_filter.mp hrow).1
  · have hnew : newEvents journal.service.tables service'.tables act =
        service'.tables.events.drop journal.service.tables.events.length := by
      cases act with
      | restart cutoff => exact absurd ⟨cutoff, rfl⟩ hrestart
      | _ => rfl
    rcases events_write (AgentService.writes_step hstep) with ⟨cutoff, hact, -⟩ | hsame | ⟨row, hrow, hseq⟩
    · exact absurd ⟨some cutoff, hact⟩ hrestart
    · have hnil : newEvents journal.service.tables service'.tables act = [] := by
        rw [hnew, hsame, List.drop_length]
      refine .inl ⟨?_, hnil, ?_⟩
      · change journal.written ++ newEvents journal.service.tables service'.tables act = _
        rw [hnil, List.append_nil]
      · exact fun row hrow => hsame ▸ hrow
    · have hone : newEvents journal.service.tables service'.tables act = [row] := by
        rw [hnew, hrow, List.drop_left]
      refine .inr ⟨row, ?_, hone, hrow, hseq⟩
      change journal.written ++ newEvents journal.service.tables service'.tables act = _
      rw [hone]

/-- Everything that is stored has been written. -/
theorem stored_written (h : machine.Run (start limits) acts journal) :
    ∀ row ∈ journal.service.tables.events, row ∈ journal.written := by
  refine h.invariant (I := fun journal =>
    ∀ row ∈ journal.service.tables.events, row ∈ journal.written) ?_ (fun row hrow => by cases hrow)
  intro journal act journal' hi _ hstep row hrow
  rcases step_cases hstep with ⟨hwritten, -, hkept⟩ | ⟨new, hwritten, -, hevents, -⟩
  · rw [hwritten]
    exact hi row (hkept row hrow)
  · rw [hwritten]
    rw [hevents] at hrow
    rcases List.mem_append.mp hrow with hold | hnew
    · exact List.mem_append_left _ (hi row hold)
    · exact List.mem_append_right _ hnew

theorem lastSequence_le (h : machine.Run (start limits) acts journal) (agentId : String) :
    journal.service.tables.lastSequence agentId ≤ lastOf agentId journal.written :=
  lastOf_mono (stored_written h)

/-- The sequence of an event is a new one exactly if the newest event of its agent is still
stored. -/
theorem increasing_step (h : machine.Run (start limits) acts journal)
    (hstep : machine.step journal act = some journal') :
    journal'.Increasing ↔ journal.Increasing ∧ journal.Intact act := by
  have hintact : journal.Intact act ↔ ∀ row ∈ newEvents journal.service.tables
      journal'.service.tables act,
        journal.service.tables.lastSequence row.agentId = lastOf row.agentId journal.written := by
    constructor
    · exact fun hi => hi journal' hstep
    · intro hi other hother
      obtain rfl := Option.some.inj (hstep.symm.trans hother)
      exact hi
  rw [hintact]
  rcases step_cases hstep with ⟨hwritten, hnew, -⟩ | ⟨row, hwritten, hnew, -, hseq⟩
  · rw [hnew]
    unfold Increasing
    rw [hwritten]
    simp
  · rw [hnew]
    unfold Increasing
    rw [hwritten, List.pairwise_append]
    have hle := lastSequence_le h row.agentId
    constructor
    · rintro ⟨hold, -, hlast⟩
      refine ⟨hold, ?_⟩
      intro new hmem
      obtain rfl := List.mem_singleton.mp hmem
      have hupper : lastOf new.agentId journal.written ≤
          journal.service.tables.lastSequence new.agentId := by
        rw [lastOf_le]
        intro old hmem hagent
        have hlt := hlast old hmem new (List.mem_singleton_self _) hagent
        omega
      omega
    · rintro ⟨hold, hkept⟩
      refine ⟨hold, List.pairwise_singleton _ _, ?_⟩
      intro old hmem new hnew hagent
      obtain rfl := List.mem_singleton.mp hnew
      have heq := hkept new (List.mem_singleton_self _)
      have hlt := le_lastOf hmem
      rw [hagent] at hlt
      omega

/-- What has been written stays the beginning of what has been written. -/
theorem written_grows {later : List AgentAct} (h : machine.Run journal later journal') :
    ∃ rows, journal'.written = journal.written ++ rows := by
  refine h.monotone (I := fun _ => True)
    (R := fun a b : Journal => ∃ rows, b.written = a.written ++ rows)
    (fun _ => ⟨[], (List.append_nil _).symm⟩) ?_ (fun _ _ _ _ _ _ => trivial) ?_ trivial
  · rintro a b c ⟨rows, hb⟩ ⟨rows', hc⟩
    exact ⟨rows ++ rows', by rw [hc, hb, List.append_assoc]⟩
  · intro journal act journal' _ _ hstep
    rcases step_cases hstep with ⟨hwritten, -, -⟩ | ⟨row, hwritten, -, -, -⟩
    · exact ⟨[], by rw [hwritten, List.append_nil]⟩
    · exact ⟨[row], hwritten⟩

theorem written_pos (h : machine.Run (start limits) acts journal) :
    ∀ row ∈ journal.written, 0 < row.sequence := by
  refine h.invariant (I := fun journal => ∀ row ∈ journal.written, 0 < row.sequence) ?_
    (fun row hrow => by cases hrow)
  intro journal act journal' hi _ hstep row hrow
  rcases step_cases hstep with ⟨hwritten, -, -⟩ | ⟨new, hwritten, -, -, hseq⟩
  · exact hi row (hwritten ▸ hrow)
  · rw [hwritten] at hrow
    rcases List.mem_append.mp hrow with hold | hnew
    · exact hi row hold
    · obtain rfl := List.mem_singleton.mp hnew
      omega

theorem delivers_of_increasing (h : machine.Run (start limits) acts journal)
    (hinc : journal.Increasing) : Delivers limits acts journal := by
  rintro as bs earlier rfl hearlier row hrow hstored cursor hcursor
  obtain ⟨middle, hmiddle, hrest⟩ := h.split
  obtain rfl := hmiddle.unique hearlier
  obtain ⟨rows, hrows⟩ := written_grows hrest
  rw [hrows, List.drop_left] at hrow
  unfold Increasing at hinc
  rw [hrows, List.pairwise_append] at hinc
  have hpos : 0 < row.sequence := written_pos h row (hrows ▸ List.mem_append_right _ hrow)
  have hlast : lastOf row.agentId middle.written ≤ row.sequence - 1 := by
    rw [lastOf_le]
    intro old hold hagent
    have hlt := hinc.2.2 old hold row hrow hagent
    omega
  have hlt : lastOf row.agentId middle.written < row.sequence := by omega
  have hsequence : cursor < row.sequence := hcursor.trans_lt hlt
  simp [Tables.listEvents, hstored, hsequence]

/-- The sequences of every agent increase over the whole history, and every client is sent what it
has not seen, exactly if no event is ever stored for an agent whose newest event a compaction has
removed. -/
theorem sequences_increase (h : machine.Run (start limits) acts journal) :
    machine.Path Intact (start limits) acts journal ↔
      journal.Increasing ∧ Delivers limits acts journal := by
  constructor
  · intro hpath
    have hinc : journal.Increasing := by
      have hboth := hpath.invariant
        (I := fun journal => journal.Increasing ∧ ∃ acts, machine.Run (start limits) acts journal)
        (fun journal act journal' hi hintact hstep => by
          obtain ⟨hinc, acts, hrun⟩ := hi
          exact ⟨(increasing_step hrun hstep).mpr ⟨hinc, hintact⟩, _,
            hrun.append (.single trivial hstep)⟩)
        ⟨List.Pairwise.nil, [], .nil _⟩
      exact hboth.1
    exact ⟨hinc, delivers_of_increasing h hinc⟩
  · rintro ⟨hinc, -⟩
    induction acts using List.reverseRecOn generalizing journal with
    | nil =>
      cases h
      exact .nil _
    | append_singleton acts act ih =>
      obtain ⟨middle, hrun, hlast⟩ := h.split
      cases hlast with
      | cons _ hstep tail =>
        cases tail
        obtain ⟨hbefore, hintact⟩ := (increasing_step hrun hstep).mp hinc
        exact (ih hrun hbefore).append (.single hintact hstep)

/-- The only event of an agent is compacted away, and the next one has its sequence again. -/
def compacted : List AgentAct :=
  [.createAgent "a" 2, .runWork "a" true "2026-01-01", .restart (some "2026-06-01"), .opened] ++
    [.createRunFind "a" ⟨.localMode, none⟩, .createRunResolve "a" true,
      .createRunInsert "a" "r" true, .startSession "a" true, .identify "a" true, .startPrompt "a",
      .preflight "a" true true, .announce "a" 2, .runWork "a" true "2026-06-02"]

theorem compacted_run : ∃ journal, machine.Run (start ⟨8, 4096⟩) compacted journal ∧
    ¬journal.Increasing := by
  have hexec : (machine.exec (fun _ _ => True) (start ⟨8, 4096⟩) compacted).map
      (fun journal => decide journal.Increasing) = some false := by decide +kernel
  obtain ⟨journal, hrun, hreused⟩ := Option.map_eq_some_iff.mp hexec
  exact ⟨journal, Machine.path_of_exec hrun, of_decide_eq_false hreused⟩

theorem sequence_reused : ¬∀ (limits : QueueLimits) (acts : List AgentAct) (journal : Journal),
    machine.Run (start limits) acts journal →
      journal.Increasing ∧ Delivers limits acts journal := by
  intro hclaim
  obtain ⟨journal, hrun, hreused⟩ := compacted_run
  exact hreused (hclaim _ _ journal hrun).1

theorem sequences_increase_compacted : ∃ journal,
    machine.Run (start ⟨8, 4096⟩) compacted journal ∧
      ¬machine.Path Intact (start ⟨8, 4096⟩) compacted journal := by
  obtain ⟨journal, hrun, hreused⟩ := compacted_run
  exact ⟨journal, hrun, fun hpath => hreused ((sequences_increase hrun).mp hpath).1⟩

end Journal
end PiDeck.Supervisor
