import Mathlib
import PiDeck.Collections.Keyset
import PiDeck.Executions.Store
import PiDeck.Supervisor.Tables

/-! The lists of the supervisor, page by page. They are ordered by a time and, for equal times, by the
id, the latest first. A cursor is a text for the client to hand back; it decodes to what was encoded
in it, so it stands as that. -/
namespace PiDeck.Supervisor.Lists
open PiDeck.Collections
open PiDeck.Executions (ExecutionStatus)

/-- Rows as they are written: the id is the primary key, and ids and times are not empty. -/
structure Stored (ρ : Type) (stamp id : ρ → String) where
  rows : List ρ
  unique : (rows.map id).Nodup
  filled : ∀ row ∈ rows, stamp row ≠ "" ∧ id row ≠ ""

structure RunRow where
  id : String
  agentId : String
  status : ManagedAgentRunStatus
  createdAt : String
  deriving DecidableEq

structure AgentRow where
  id : String
  deletedAt : Option String
  createdAt : String
  deriving DecidableEq

structure ProjectRow where
  id : String
  lastUsedAt : String
  deriving DecidableEq

structure ExecutionRow where
  id : String
  status : ExecutionStatus
  createdAt : String
  deriving DecidableEq

/-- The two columns of the order. -/
structure Cursor where
  stamp : String
  id : String
  deriving DecidableEq

section Columns
variable {ρ : Type} (stamp id : ρ → String)

def rank (row : ρ) : String ×ₗ String := toLex (stamp row, id row)

/-- The condition that a cursor adds to a query. -/
def beforeCursor (cursor : Cursor) (row : ρ) : Bool :=
  decide (stamp row < cursor.stamp ∨ stamp row = cursor.stamp ∧ id row < cursor.id)

/-- `encodeCursor` of the last row of a page. -/
def encodeCursor (last : Option ρ) : Cursor := ⟨(last.map stamp).getD "", (last.map id).getD ""⟩

/-- `decodeCursor` of the agent service. -/
def decodeCursor (cursor : Cursor) : Option Cursor :=
  if 0 < cursor.stamp.length ∧ 0 < cursor.id.length then some cursor else none

/-- A query for one page whose cursor carries both columns. -/
def listPage (decode : Cursor → Option Cursor) (query : List ρ) (limit : ℕ)
    (cursor : Option Cursor) : Page ρ Cursor :=
  let query := match cursor.bind decode with
    | none => query
    | some cursor => query.filter (beforeCursor stamp id cursor)
  pageOf limit (encodeCursor stamp id) (descending (rank stamp id) query)

end Columns

abbrev Runs := Stored RunRow RunRow.createdAt RunRow.id
abbrev Agents := Stored AgentRow AgentRow.createdAt AgentRow.id
abbrev Projects := Stored ProjectRow ProjectRow.lastUsedAt ProjectRow.id
abbrev Executions := Stored ExecutionRow ExecutionRow.createdAt ExecutionRow.id

def matchingRuns (runs : Runs) (agentId : Option String) (status : Option ManagedAgentRunStatus) :
    List RunRow :=
  runs.rows.filter fun row =>
    agentId.all (fun agentId => decide (row.agentId = agentId)) &&
      status.all fun status => decide (row.status = status)

def listRuns (runs : Runs) (agentId : Option String) (status : Option ManagedAgentRunStatus)
    (limit : ℕ) : Option Cursor → Page RunRow Cursor :=
  listPage RunRow.createdAt RunRow.id decodeCursor (matchingRuns runs agentId status) limit

def matchingAgents (agents : Agents) : List AgentRow :=
  agents.rows.filter fun row => row.deletedAt.isNone

def listAgents (agents : Agents) (limit : ℕ) : Option Cursor → Page AgentRow Cursor :=
  listPage AgentRow.createdAt AgentRow.id decodeCursor (matchingAgents agents) limit

/-- The cursor of a project is not asked to be filled. -/
def listProjects (projects : Projects) (limit : ℕ) : Option Cursor → Page ProjectRow Cursor :=
  listPage ProjectRow.lastUsedAt ProjectRow.id some projects.rows limit

def matchingExecutions (executions : Executions) (status : Option ExecutionStatus) :
    List ExecutionRow :=
  executions.rows.filter fun row => status.all fun status => decide (row.status = status)

/-- The cursor of an execution is the time alone. -/
def encodeCreatedAt (last : Option ExecutionRow) : String := (last.map ExecutionRow.createdAt).getD ""

def decodeCreatedAt (cursor : String) : Option String :=
  if 0 < cursor.length then some cursor else none

def listExecutions (executions : Executions) (status : Option ExecutionStatus) (limit : ℕ)
    (cursor : Option String) : Page ExecutionRow String :=
  let query := matchingExecutions executions status
  let query := match cursor.bind decodeCreatedAt with
    | none => query
    | some createdAt => query.filter fun row => decide (row.createdAt < createdAt)
  pageOf limit encodeCreatedAt (descending (rank ExecutionRow.createdAt ExecutionRow.id) query)

/-! ### Reading them to the end -/

section Columns
variable {ρ : Type} {stamp id : ρ → String} {stored : Stored ρ stamp id} {rows : List ρ} {limit : ℕ}

theorem nodup_rank (h : (rows.map id).Nodup) : (rows.map (rank stamp id)).Nodup := by
  have hpairs : rows.Pairwise fun a b => id a ≠ id b := List.pairwise_map.mp h
  refine List.pairwise_map.mpr (hpairs.imp fun hne heq => hne ?_)
  exact congrArg (fun pair => (ofLex pair).2) heq

theorem length_pos_of_ne {text : String} (h : text ≠ "") : 0 < text.length := by
  rcases Nat.eq_zero_or_pos text.length with hzero | hpos
  · exact absurd (String.length_eq_zero_iff.mp hzero) h
  · exact hpos

theorem beforeCursor_eq (last row : ρ) : beforeCursor stamp id ⟨stamp last, id last⟩ row =
    decide (rank stamp id row < rank stamp id last) := by
  rw [beforeCursor, rank, rank]
  simp only [Prod.Lex.toLex_lt_toLex]

/-- A list whose cursor carries both columns is complete. -/
theorem complete_listPage {decode : Cursor → Option Cursor} (hunique : (rows.map id).Nodup)
    (hdecode : ∀ row ∈ rows, decode ⟨stamp row, id row⟩ = some ⟨stamp row, id row⟩)
    (hlimit : 0 < limit) :
    Complete (rank stamp id) rows (listPage stamp id decode rows limit) := by
  have hrank : (rows.map (rank stamp id)).Nodup := nodup_rank hunique
  rw [complete_iff (keyset_rank (rank stamp id)) hlimit hrank rfl]
  · exact continued_rank (falling_descending hrank) hlimit
  · intro last hlast
    have hbefore : beforeCursor stamp id ⟨stamp last, id last⟩ =
        fun row => decide (rank stamp id row < rank stamp id last) :=
      funext (beforeCursor_eq last)
    simp only [listPage, encodeCursor, Option.map_some, Option.getD_some, Option.bind_some,
      hdecode last hlast, hbefore, descending_filter hrank]

theorem decodeCursor_row {row : ρ} (hmem : row ∈ stored.rows) :
    decodeCursor ⟨stamp row, id row⟩ = some ⟨stamp row, id row⟩ := by
  obtain ⟨hstamp, hid⟩ := stored.filled row hmem
  exact if_pos ⟨length_pos_of_ne hstamp, length_pos_of_ne hid⟩

end Columns

section Reading
variable {limit : ℕ}

theorem complete_listRuns (runs : Runs) (agentId : Option String)
    (status : Option ManagedAgentRunStatus) (hlimit : 0 < limit) :
    Complete (rank RunRow.createdAt RunRow.id) (matchingRuns runs agentId status)
      (listRuns runs agentId status limit) :=
  complete_listPage (runs.unique.sublist (List.filter_sublist.map _))
    (fun _ hrow => decodeCursor_row (List.mem_of_mem_filter hrow)) hlimit

theorem complete_listAgents (agents : Agents) (hlimit : 0 < limit) :
    Complete (rank AgentRow.createdAt AgentRow.id) (matchingAgents agents)
      (listAgents agents limit) :=
  complete_listPage (agents.unique.sublist (List.filter_sublist.map _))
    (fun _ hrow => decodeCursor_row (List.mem_of_mem_filter hrow)) hlimit

theorem complete_listProjects (projects : Projects) (hlimit : 0 < limit) :
    Complete (rank ProjectRow.lastUsedAt ProjectRow.id) projects.rows (listProjects projects limit) :=
  complete_listPage projects.unique (fun _ _ => rfl) hlimit

/-- No page of executions ends between two rows of one time. -/
def Undivided (limit : ℕ) (rows : List ExecutionRow) : Prop :=
  ∀ page last next, 0 < page → rows[page * limit - 1]? = some last →
    rows[page * limit]? = some next → next.createdAt ≠ last.createdAt

theorem keyset_createdAt : Keyset (rank ExecutionRow.createdAt ExecutionRow.id)
    fun last row => decide (row.createdAt < last.createdAt) where
  later := fun _ _ h => Prod.Lex.toLex_lt_toLex.mpr (.inl (of_decide_eq_true h))
  closed := fun _ row next h hle => by
    have hstamp : next.createdAt ≤ row.createdAt := by
      rcases Prod.Lex.toLex_le_toLex.mp hle with hlt | ⟨heq, -⟩
      · exact hlt.le
      · exact heq.le
    exact decide_eq_true (lt_of_le_of_lt hstamp (of_decide_eq_true h))

theorem listExecutions_complete_iff (executions : Executions) (status : Option ExecutionStatus)
    (hlimit : 0 < limit) :
    Complete (rank ExecutionRow.createdAt ExecutionRow.id) (matchingExecutions executions status)
        (listExecutions executions status limit) ↔
      Undivided limit (descending (rank ExecutionRow.createdAt ExecutionRow.id)
        (matchingExecutions executions status)) := by
  have hrank : ((matchingExecutions executions status).map
      (rank ExecutionRow.createdAt ExecutionRow.id)).Nodup :=
    nodup_rank (executions.unique.sublist (List.filter_sublist.map _))
  rw [complete_iff keyset_createdAt hlimit hrank rfl]
  · constructor
    · intro h page last next hpage hlast hnext
      exact (of_decide_eq_true (h page last next hpage hlast hnext)).ne
    · intro h page last next hpage hlast hnext
      have hpos : 0 < page * limit := Nat.mul_pos hpage hlimit
      obtain ⟨hlt, hlastget⟩ := List.getElem?_eq_some_iff.mp hlast
      obtain ⟨hlt', hnextget⟩ := List.getElem?_eq_some_iff.mp hnext
      have hpair := List.pairwise_iff_getElem.mp (falling_descending hrank) _ _ hlt hlt' (by omega)
      rw [hlastget, hnextget] at hpair
      rcases Prod.Lex.toLex_lt_toLex.mp hpair with hearlier | ⟨hsame, -⟩
      · exact decide_eq_true hearlier
      · exact absurd hsame (h page last next hpage hlast hnext)
  · intro last hlast
    obtain ⟨hstamp, -⟩ := executions.filled last (List.mem_of_mem_filter hlast)
    have hdecode : decodeCreatedAt last.createdAt = some last.createdAt :=
      if_pos (length_pos_of_ne hstamp)
    simp only [listExecutions, encodeCreatedAt, Option.map_some, Option.getD_some, Option.bind_some,
      hdecode, descending_filter hrank]

/-- Runs, agents and projects are read completely, executions exactly when no page ends between two
of one time. -/
theorem lists_complete_iff (hlimit : 0 < limit) :
    (∀ runs agentId status, Complete (rank RunRow.createdAt RunRow.id)
      (matchingRuns runs agentId status) (listRuns runs agentId status limit)) ∧
    (∀ agents, Complete (rank AgentRow.createdAt AgentRow.id) (matchingAgents agents)
      (listAgents agents limit)) ∧
    (∀ projects : Projects, Complete (rank ProjectRow.lastUsedAt ProjectRow.id) projects.rows
      (listProjects projects limit)) ∧
    ∀ executions status, Complete (rank ExecutionRow.createdAt ExecutionRow.id)
        (matchingExecutions executions status) (listExecutions executions status limit) ↔
      Undivided limit (descending (rank ExecutionRow.createdAt ExecutionRow.id)
        (matchingExecutions executions status)) :=
  ⟨fun runs agentId status => complete_listRuns runs agentId status hlimit,
    fun agents => complete_listAgents agents hlimit,
    fun projects => complete_listProjects projects hlimit,
    fun executions status => listExecutions_complete_iff executions status hlimit⟩

/-- Two executions of one time and one of another. -/
def threeExecutions : Executions where
  rows := [⟨"a", .pending, "10:00"⟩, ⟨"b", .pending, "10:00"⟩, ⟨"c", .running, "09:00"⟩]
  unique := by decide
  filled := by decide

/-- Pages of two are read completely. -/
theorem lists_complete_two : Complete (rank ExecutionRow.createdAt ExecutionRow.id)
    (matchingExecutions threeExecutions none) (listExecutions threeExecutions none 2) := by
  refine ((lists_complete_iff (by decide : 0 < 2)).2.2.2 threeExecutions none).mpr ?_
  have hsorted : descending (rank ExecutionRow.createdAt ExecutionRow.id)
      (matchingExecutions threeExecutions none) = [⟨"b", .pending, "10:00"⟩,
        ⟨"a", .pending, "10:00"⟩, ⟨"c", .running, "09:00"⟩] := by decide +kernel
  rw [hsorted]
  intro page last next hpage hlast hnext
  obtain ⟨hlt, -⟩ := List.getElem?_eq_some_iff.mp hnext
  have hone : page * 2 < 3 := hlt
  obtain rfl : page = 1 := by omega
  cases hlast
  cases hnext
  decide

/-- With one execution to a page, the second of one time is passed over. -/
theorem equal_times_skipped : ¬Complete (rank ExecutionRow.createdAt ExecutionRow.id)
    (matchingExecutions threeExecutions none) (listExecutions threeExecutions none 1) := by
  rw [listExecutions_complete_iff threeExecutions none (by decide)]
  intro h
  exact h 1 ⟨"b", .pending, "10:00"⟩ ⟨"a", .pending, "10:00"⟩ (by decide) (by decide +kernel)
    (by decide +kernel) rfl

end Reading
end PiDeck.Supervisor.Lists
