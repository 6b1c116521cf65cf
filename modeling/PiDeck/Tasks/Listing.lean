import Mathlib
import PiDeck.Tasks.Store

/-! The list of tasks and its filters. The filters become the conditions of one query; a task is
listed when it meets all of them. -/
namespace PiDeck.Tasks
open PiDeck.Mux (trim)
open PiDeck.Collections

def Status.text : Status → String
  | .backlog => "backlog"
  | .todo => "todo"
  | .inProgress => "in_progress"
  | .done => "done"
  | .canceled => "canceled"

def Priority.text : Priority → String
  | .noPriority => "no_priority"
  | .urgent => "urgent"
  | .high => "high"
  | .medium => "medium"
  | .low => "low"

def validStatus (value : String) : Bool :=
  value ∈ ["backlog", "todo", "in_progress", "done", "canceled"]

def validPriority (value : String) : Bool :=
  value ∈ ["no_priority", "urgent", "high", "medium", "low"]

structure TaskFilters where
  projectIds : List String
  statuses : List String
  priorities : List String
  labelIds : List String
  search : Option String
  sort : String
  order : String
  deriving DecidableEq, Repr

namespace TaskFilters

/-- The values of one parameter. -/
def values (raw : String) : List String :=
  ((raw.toList.splitOn ',').map fun value => trim (String.ofList value)).filter (· ≠ "")

def read (result : TaskFilters) (pair : String × String) : TaskFilters :=
  match pair.1 with
  | "projectId" => { result with projectIds := result.projectIds ++ values pair.2 }
  | "status" => { result with statuses := result.statuses ++ values pair.2 }
  | "priority" => { result with priorities := result.priorities ++ values pair.2 }
  | "labelId" => { result with labelIds := result.labelIds ++ values pair.2 }
  | "search" => { result with search := some pair.2 }
  | "sort" => { result with sort := pair.2 }
  | "order" => { result with order := pair.2 }
  | _ => result

/-- The filters of a query string, given as its decoded pairs. -/
def parse (query : List (String × String)) : Except TaskError TaskFilters :=
  let result := query.foldl read ⟨[], [], [], [], none, "updated", "desc"⟩
  if result.statuses.any (fun value => !validStatus value) then
    .error (.bad "INVALID_REQUEST" "Invalid task status filter")
  else if result.priorities.any (fun value => !validPriority value) then
    .error (.bad "INVALID_REQUEST" "Invalid task priority filter")
  else if result.sort ∉ ["created", "updated", "priority"] then
    .error (.bad "INVALID_REQUEST" "Invalid sort value")
  else if result.order ∉ ["asc", "desc"] then
    .error (.bad "INVALID_REQUEST" "Invalid order value")
  else .ok result

end TaskFilters

/-- The letters that `LIKE` does not tell apart are those of ASCII. -/
def foldCase (c : Char) : Char := c.toLower

/-- `LIKE`: a percent sign stands for any text and an underscore for any character. -/
def likeChars : List Char → List Char → Bool
  | [], text => text.isEmpty
  | '%' :: pattern, [] => likeChars pattern []
  | '%' :: pattern, c :: text => likeChars pattern (c :: text) || likeChars ('%' :: pattern) text
  | '_' :: pattern, _ :: text => likeChars pattern text
  | p :: pattern, c :: text => foldCase p = foldCase c && likeChars pattern text
  | _ :: _, [] => false

/-- Both sides end at the first NUL. -/
def like (text pattern : String) : Bool :=
  likeChars (pattern.toList.takeWhile (· ≠ '\x00')) (text.toList.takeWhile (· ≠ '\x00'))

def priorityRank : Priority → ℕ
  | .urgent => 1
  | .high => 2
  | .medium => 3
  | .low => 4
  | .noPriority => 5

/-- `ORDER BY … , t.identifier ASC`. -/
def listOrder (sort order : String) (a b : TaskRow) : Bool :=
  let byKey := match sort with
    | "created" => compare a.createdAt b.createdAt
    | "priority" => compare (priorityRank a.priority) (priorityRank b.priority)
    | _ => compare a.updatedAt b.updatedAt
  let ordered := if order = "desc" then byKey.swap else byKey
  (ordered.then (compare a.identifier b.identifier)).isLE

/-- `column IN (…)`, when there is anything to choose from. -/
def addMany (column : TaskRow → String) (values : List String) : List (TaskRow → Bool) :=
  if values = [] then [] else [fun row => column row ∈ values]

def searchCondition (search : String) (row : TaskRow) : Bool :=
  let pattern := "%" ++ search ++ "%"
  like row.title pattern || like (row.description.getD "") pattern || like row.identifier pattern

namespace Database
variable (db : Database)

/-- `SELECT task_id … WHERE label_id IN (…) GROUP BY task_id HAVING COUNT(DISTINCT label_id)=?`. -/
def taskIdsWith (labelIds : List String) : List String :=
  let rows := db.assignments.filter fun a => a.labelId ∈ labelIds
  (rows.map Assignment.taskId).dedup.filter fun taskId =>
    ((rows.filter fun a => a.taskId = taskId).map Assignment.labelId).dedup.length = labelIds.length

/-- The conditions of the query. -/
def conditions (filters : TaskFilters) : List (TaskRow → Bool) :=
  addMany TaskRow.projectId filters.projectIds ++
  addMany (fun row => row.status.text) filters.statuses ++
  addMany (fun row => row.priority.text) filters.priorities ++
  ((filters.search.filter (· ≠ "")).map searchCondition).toList ++
  (if filters.labelIds = [] then []
    else [fun row => decide (row.id ∈ db.taskIdsWith filters.labelIds)])

/-- The tasks, joined with their projects and labels. -/
def joined : List Task :=
  db.tasks.filterMap fun row =>
    (findRow Project.id db.projects row.projectId).map fun project =>
      ⟨row, project, db.labelsOf row.id⟩

def selectTasks (filters : TaskFilters) : List Task :=
  (db.joined.filter fun task => (db.conditions filters).all (· task.row)).mergeSort
    fun a b => listOrder filters.sort filters.order a.row b.row

def listTasks (query : List (String × String)) : Except TaskError (List Task) := do
  return db.selectTasks (← TaskFilters.parse query)

/-! ## What is to be listed -/

/-- The task carries every label of the set. -/
def Carries (row : TaskRow) (labelIds : Finset String) : Prop :=
  ∀ labelId ∈ labelIds, ⟨row.id, labelId⟩ ∈ db.assignments

instance (row : TaskRow) (labelIds : Finset String) : Decidable (db.Carries row labelIds) :=
  inferInstanceAs (Decidable (∀ labelId ∈ labelIds, ⟨row.id, labelId⟩ ∈ db.assignments))

end Database

/-- The other filters: a filter without values is no filter. -/
def TaskFilters.Others (filters : TaskFilters) (row : TaskRow) : Prop :=
  (filters.projectIds = [] ∨ row.projectId ∈ filters.projectIds) ∧
  (filters.statuses = [] ∨ row.status.text ∈ filters.statuses) ∧
  (filters.priorities = [] ∨ row.priority.text ∈ filters.priorities) ∧
  (filters.search.filter (· ≠ "")).all (searchCondition · row) = true

instance (filters : TaskFilters) (row : TaskRow) : Decidable (filters.Others row) :=
  inferInstanceAs (Decidable (_ ∧ _))

/-- The task is one of those that were asked for. -/
def Database.Wanted (db : Database) (filters : TaskFilters) (task : Task) : Prop :=
  db.Carries task.row filters.labelIds.toFinset ∧ filters.Others task.row

instance (db : Database) (filters : TaskFilters) (task : Task) :
    Decidable (db.Wanted filters task) :=
  inferInstanceAs (Decidable (_ ∧ _))

/-- The answer lists exactly the tasks that were asked for, each of them once. -/
def Database.Exact (db : Database) (filters : TaskFilters) (tasks : List Task) : Prop :=
  tasks.Perm (db.joined.filter fun task => db.Wanted filters task)

variable {db : Database} {filters : TaskFilters} {row : TaskRow}

/-- As many different elements of a list as its length are all of its elements, and then it has no
repeats. -/
theorem length_dedup_eq_iff {α : Type*} [DecidableEq α] {found asked : List α}
    (hfound : ∀ x ∈ found, x ∈ asked) :
    found.dedup.length = asked.length ↔ asked.Nodup ∧ ∀ x ∈ asked, x ∈ found := by
  have hsub : found.toFinset ⊆ asked.toFinset := by
    intro x hx
    exact List.mem_toFinset.mpr (hfound x (List.mem_toFinset.mp hx))
  rw [← List.card_toFinset]
  constructor
  · intro hcount
    have hle := List.toFinset_card_le asked
    have hsame : found.toFinset = asked.toFinset :=
      Finset.eq_of_subset_of_card_le hsub (by omega)
    refine ⟨?_, ?_⟩
    · have hlength : asked.dedup.length = asked.length := by
        rw [← List.card_toFinset, ← hsame, hcount]
      exact (List.dedup_sublist asked).eq_of_length hlength ▸ asked.nodup_dedup
    · intro x hx
      rw [← List.mem_toFinset, hsame]
      exact List.mem_toFinset.mpr hx
  · rintro ⟨hnodup, hall⟩
    have hsame : found.toFinset = asked.toFinset := by
      apply hsub.antisymm
      intro x hx
      exact List.mem_toFinset.mpr (hall x (List.mem_toFinset.mp hx))
    rw [hsame, List.toFinset_card_of_nodup hnodup]

theorem mem_addMany {column : TaskRow → String} {values : List String} :
    (∀ condition ∈ addMany column values, condition row = true) ↔
      values = [] ∨ column row ∈ values := by
  unfold addMany
  split
  · simp_all
  · simp_all

namespace Database

theorem mem_taskIdsWith {labelIds : List String} (hne : labelIds ≠ []) :
    row.id ∈ db.taskIdsWith labelIds ↔ labelIds.Nodup ∧ db.Carries row labelIds.toFinset := by
  have hcarries : db.Carries row labelIds.toFinset ↔
      ∀ labelId ∈ labelIds, labelId ∈ ((db.assignments.filter fun a => a.labelId ∈ labelIds).filter
        fun a => a.taskId = row.id).map Assignment.labelId := by
    unfold Carries
    apply forall_congr'
    intro labelId
    rw [List.mem_toFinset]
    apply imp_congr_right
    intro hlabel
    constructor
    · intro h
      exact List.mem_map.mpr ⟨⟨row.id, labelId⟩, by simp [h, hlabel], rfl⟩
    · intro h
      obtain ⟨⟨taskId, _⟩, ha, rfl⟩ := List.mem_map.mp h
      obtain ⟨ha, htask⟩ := List.mem_filter.mp ha
      cases of_decide_eq_true htask
      exact (List.mem_filter.mp ha).1
  have hfound : ∀ labelId ∈ ((db.assignments.filter fun a => a.labelId ∈ labelIds).filter
      fun a => a.taskId = row.id).map Assignment.labelId, labelId ∈ labelIds := by
    intro labelId h
    obtain ⟨a, ha, rfl⟩ := List.mem_map.mp h
    exact of_decide_eq_true (List.mem_filter.mp (List.mem_filter.mp ha).1).2
  have hcount := length_dedup_eq_iff hfound
  unfold taskIdsWith
  rw [List.mem_filter, List.mem_dedup, decide_eq_true_eq, hcount, hcarries]
  refine ⟨And.right, fun h => ⟨?_, h⟩⟩
  -- The task has a row in the group because some label was asked for.
  obtain ⟨labelId, hlabel⟩ := List.exists_mem_of_ne_nil labelIds hne
  obtain ⟨a, ha, -⟩ := List.mem_map.mp (h.2 labelId hlabel)
  obtain ⟨ha, htask⟩ := List.mem_filter.mp ha
  exact List.mem_map.mpr ⟨a, ha, of_decide_eq_true htask⟩

/-- A task meets the conditions of the query when it was asked for and no label was asked for
twice. -/
theorem conditions_all {task : Task} : (db.conditions filters).all (· task.row) = true ↔
    filters.labelIds.Nodup ∧ db.Wanted filters task := by
  have hlabels : (∀ condition ∈ (if filters.labelIds = [] then []
        else [fun row : TaskRow => decide (row.id ∈ db.taskIdsWith filters.labelIds)] :
        List (TaskRow → Bool)), condition task.row = true) ↔
      filters.labelIds.Nodup ∧ db.Carries task.row filters.labelIds.toFinset := by
    split
    · rename_i h
      simp [h, Carries]
    · rename_i h
      rw [← mem_taskIdsWith h]
      simp
  have hsearch : (∀ condition ∈ ((filters.search.filter (· ≠ "")).map searchCondition).toList,
      condition task.row = true) ↔
      (filters.search.filter (· ≠ "")).all (searchCondition · task.row) = true := by
    cases filters.search.filter (· ≠ "") <;> simp
  rw [List.all_eq_true, conditions, List.forall_mem_append, List.forall_mem_append,
    List.forall_mem_append, List.forall_mem_append, mem_addMany, mem_addMany, mem_addMany, hlabels,
    hsearch, Wanted, TaskFilters.Others]
  tauto

theorem selectTasks_repeats (h : ¬filters.labelIds.Nodup) : db.selectTasks filters = [] := by
  have hnone : (db.joined.filter fun task => (db.conditions filters).all (· task.row)) = [] := by
    apply List.filter_eq_nil_iff.mpr
    intro task _ hall
    exact h (conditions_all.mp hall).1
  rw [selectTasks, hnone, List.mergeSort_nil]

theorem selectTasks_perm (h : filters.labelIds.Nodup) : db.Exact filters (db.selectTasks filters) := by
  refine (List.mergeSort_perm _ _).trans (.of_eq ?_)
  apply List.filter_congr
  intro task _
  rw [Bool.eq_iff_iff, conditions_all, decide_eq_true_eq, and_iff_right h]

theorem selectTasks_exact_iff (db : Database) (filters : TaskFilters) :
    db.Exact filters (db.selectTasks filters) ↔
      filters.labelIds.Nodup ∨ ∀ task ∈ db.joined, ¬db.Wanted filters task := by
  by_cases hnodup : filters.labelIds.Nodup
  · exact iff_of_true (selectTasks_perm hnodup) (.inl hnodup)
  · rw [selectTasks_repeats hnodup, Exact, List.nil_perm, List.filter_eq_nil_iff]
    simp [hnodup]

/-- One task with one label. -/
def oneLabel : Database where
  projects := [⟨"p", "Dispatch", "DSP", "", "#8b5cf6", 2, "now", "now"⟩]
  labels := [⟨"bug", "Bug", "bug", "#ef4444", "now"⟩]
  tasks := [⟨"t", "p", 1, "DSP-1", "Fix", none, .todo, .noPriority, none, 0, "now", "now", none⟩]
  assignments := [⟨"t", "bug"⟩]

theorem repeated_label_lists_nothing :
    ¬oneLabel.Exact ⟨[], [], [], ["bug", "bug"], none, "updated", "desc"⟩
      (oneLabel.selectTasks ⟨[], [], [], ["bug", "bug"], none, "updated", "desc"⟩) := by
  rw [selectTasks_repeats (by simp), Exact, List.nil_perm]
  decide

end Database
end PiDeck.Tasks
