import Mathlib
import PiDeck.Tasks.Model

/-! The task tables with their constraints, and the handlers that read and write them. A handler
runs its writes in one transaction, so it answers with the database it leaves behind: the old one
when anything failed. -/
namespace PiDeck.Tasks
open PiDeck.Collections

structure Assignment where
  taskId : String
  labelId : String
  deriving DecidableEq, Repr

structure Database where
  projects : List Project
  labels : List Label
  tasks : List TaskRow
  assignments : List Assignment
  deriving DecidableEq, Repr

/-- What the text comparison of a `NOCASE` column ignores. -/
def nocase (value : String) : List Char := value.toList.map Char.toLower

/-- `length(trim(title)) > 0`: `trim` removes blanks and `length` stops at the first NUL. -/
def titleCheck (title : String) : Bool :=
  let trimmed := (title.toList.dropWhile (· = ' ')).rdropWhile (· = ' ')
  decide (0 < (trimmed.takeWhile (· ≠ '\x00')).length)

def identifier (key : String) (taskNumber : ℕ) : String := key ++ "-" ++ toString taskNumber

/-- The largest value of an `INTEGER` column. -/
def integerMax : ℕ := 2 ^ 63 - 1

namespace Database

def empty : Database := ⟨[], [], [], []⟩

variable (db : Database)

/-! ## Statements -/

def insertProject (project : Project) : Except SqlError Database :=
  if ∃ other ∈ db.projects, other.id = project.id ∨ nocase other.key = nocase project.key then
    .error .uniqueConstraint
  else .ok { db with projects := db.projects ++ [project] }

def setProject (id : String) (f : Project → Project) : Database :=
  { db with projects := modifyRow Project.id id f db.projects }

/-- `UPDATE task_projects SET name=?,key=?,… WHERE id=?`. -/
def updateProjectRow (id name key description color now : String) : Except SqlError Database :=
  if (∃ project ∈ db.projects, project.id = id) ∧
      ∃ other ∈ db.projects, other.id ≠ id ∧ nocase other.key = nocase key then
    .error .uniqueConstraint
  else .ok <| db.setProject id fun project =>
    { project with name, key, description, color, updatedAt := now }

/-- `UPDATE task_projects SET next_task_number=next_task_number+1 … RETURNING`. A sum beyond the
largest integer becomes a real number, which the row mapping refuses. -/
def takeNumber (projectId now : String) : Except SqlError (Database × String × ℕ) :=
  match findRow Project.id db.projects projectId with
  | none => .error .noRows
  | some project =>
    if project.nextTaskNumber + 1 ≤ integerMax then
      .ok (db.setProject projectId fun project =>
        { project with nextTaskNumber := project.nextTaskNumber + 1, updatedAt := now },
        project.key, project.nextTaskNumber)
    else .error .invalidColumnType

/-- The row collides with another one. -/
def taskConflict (row other : TaskRow) : Bool :=
  decide (other.identifier = row.identifier ∨
    other.projectId = row.projectId ∧ other.taskNumber = row.taskNumber)

def insertTask (row : TaskRow) : Except SqlError Database :=
  if titleCheck row.title = false then .error .check
  else if ∃ other ∈ db.tasks, other.id = row.id ∨ taskConflict row other = true then
    .error .uniqueConstraint
  else if findRow Project.id db.projects row.projectId = none then .error .foreignKey
  else .ok { db with tasks := db.tasks ++ [row] }

/-- `UPDATE tasks SET … WHERE id=?`. -/
def updateTaskRow (id : String) (f : TaskRow → TaskRow) : Except SqlError Database :=
  match findRow TaskRow.id db.tasks id with
  | none => .ok db
  | some row =>
    if titleCheck (f row).title = false then .error .check
    else if ∃ other ∈ db.tasks, other.id ≠ id ∧ taskConflict (f row) other = true then
      .error .uniqueConstraint
    else if findRow Project.id db.projects (f row).projectId = none then .error .foreignKey
    else .ok { db with tasks := modifyRow TaskRow.id id f db.tasks }

def insertAssignment (taskId labelId : String) : Except SqlError Database :=
  if ⟨taskId, labelId⟩ ∈ db.assignments then .error .uniqueConstraint
  else if findRow TaskRow.id db.tasks taskId = none ∨ findRow Label.id db.labels labelId = none then
    .error .foreignKey
  else .ok { db with assignments := db.assignments ++ [⟨taskId, labelId⟩] }

def replaceLabels (taskId : String) (labelIds : List String) : Except SqlError Database :=
  labelIds.foldlM (fun db labelId => db.insertAssignment taskId labelId)
    { db with assignments := db.assignments.filter fun a => decide (a.taskId ≠ taskId) }

def insertLabel (label : Label) : Except SqlError Database :=
  if ∃ other ∈ db.labels, other.id = label.id ∨ other.normalizedName = label.normalizedName then
    .error .uniqueConstraint
  else .ok { db with labels := db.labels ++ [label] }

/-- `UPDATE task_labels SET name=?,normalized_name=?,color=? WHERE id=?`. -/
def updateLabelRow (id name normalizedName color : String) : Except SqlError Database :=
  if (∃ label ∈ db.labels, label.id = id) ∧
      ∃ other ∈ db.labels, other.id ≠ id ∧ other.normalizedName = normalizedName then
    .error .uniqueConstraint
  else .ok { db with
    labels := modifyRow Label.id id (fun label => { label with name, normalizedName, color })
      db.labels }

/-- Deleting tasks deletes their assignments. -/
def removeTasks (p : TaskRow → Bool) : Database :=
  { db with
    tasks := db.tasks.filter fun row => !p row
    assignments := db.assignments.filter fun a =>
      decide (∀ row ∈ db.tasks, p row = true → row.id ≠ a.taskId) }

def removeLabel (id : String) : Database :=
  { db with
    labels := db.labels.filter fun label => decide (label.id ≠ id)
    assignments := db.assignments.filter fun a => decide (a.labelId ≠ id) }

/-! ## Handlers -/

def findProject (id : String) : Except TaskError Project :=
  match findRow Project.id db.projects id with
  | some project => .ok project
  | none => .error (.notFound "PROJECT_NOT_FOUND" "Project was not found")

def findLabel (id : String) : Except TaskError Label :=
  match findRow Label.id db.labels id with
  | some label => .ok label
  | none => .error (.notFound "LABEL_NOT_FOUND" "Label was not found")

def labelsOf (taskId : String) : List Label :=
  db.labels.filter fun label => decide (⟨taskId, label.id⟩ ∈ db.assignments)

def findTask (id : String) : Except TaskError Task :=
  match findRow TaskRow.id db.tasks id with
  | none => .error (.notFound "TASK_NOT_FOUND" "Task was not found")
  | some row =>
    match findRow Project.id db.projects row.projectId with
    | none => .error (.notFound "TASK_NOT_FOUND" "Task was not found")
    | some project => .ok ⟨row, project, db.labelsOf id⟩

/-- The old database and the error, or the new one and what is read from it. -/
def answer {α : Type} (result : Except TaskError Database)
    (read : Database → Except TaskError α) : Database × Except TaskError α :=
  match result with
  | .ok after => (after, read after)
  | .error error => (db, .error error)

end Database

def uniqueOr (code message : String) : SqlError → TaskError
  | .uniqueConstraint => .conflict code message .null
  | error => .storage error

def mapForeignKey : SqlError → TaskError
  | .foreignKey | .noRows => .notFound "PROJECT_NOT_FOUND" "Project was not found"
  | error => .storage error

def projectKeyExists : SqlError → TaskError :=
  uniqueOr "PROJECT_KEY_EXISTS" "A project with this key already exists"

def labelNameExists : SqlError → TaskError :=
  uniqueOr "LABEL_NAME_EXISTS" "A label with this name already exists"

/-- Uppercasing and lowercasing are the standard library's. -/
structure Casing where
  toUppercase : String → String
  toLowercase : String → String

variable (casing : Casing)

namespace Database

def createProject (input : CreateProject) (id now : String) (db : Database) :
    Database × Except TaskError Project :=
  let result : Except TaskError Database := do
    let name ← cleanRequired input.name "INVALID_PROJECT_NAME" "Project name is required"
    let key := casing.toUppercase (Mux.trim input.key)
    validateKey key
    let color := input.color.getD "#8b5cf6"
    validateColor color
    (db.insertProject ⟨id, name, key, input.description.getD "", color, 1, now, now⟩).mapError
      projectKeyExists
  db.answer result fun after => after.findProject id

/-- What `update_project` writes. -/
structure MergedProject where
  name : String
  key : String
  description : String
  color : String
  deriving DecidableEq, Repr

def mergeProject (input : Value) (current : Project) : Except TaskError MergedProject := do
  let name ← (← optionalString input "name").elim (.ok current.name) fun value =>
    cleanRequired value "INVALID_PROJECT_NAME" "Project name is required"
  let key := ((← optionalString input "key").map fun value =>
    casing.toUppercase (Mux.trim value)).getD current.key
  validateKey key
  let description := (← optionalString input "description").getD current.description
  let color := (← optionalString input "color").getD current.color
  validateColor color
  return ⟨name, key, description, color⟩

def writeProject (id : String) (merged : MergedProject) (now : String) (db : Database) :
    Except SqlError Database :=
  db.updateProjectRow id merged.name merged.key merged.description merged.color now

def updateProject (id : String) (input : Value) (now : String) (db : Database) :
    Database × Except TaskError Project :=
  let result : Except TaskError Database := do
    let current ← db.findProject id
    let merged ← mergeProject casing input current
    (db.writeProject id merged now).mapError projectKeyExists
  db.answer result fun after => after.findProject id

def deleteProject (id : String) (cascade : Bool) (db : Database) : Database × Except TaskError Unit :=
  let count := (db.tasks.filter fun row => decide (row.projectId = id)).length
  if 0 < count ∧ cascade = false then
    (db, .error (.conflict "PROJECT_HAS_TASKS" "Project still contains tasks" (.taskCount count)))
  else
    let emptied := if cascade then db.removeTasks fun row => decide (row.projectId = id) else db
    let after := { emptied with
      projects := emptied.projects.filter fun project => decide (project.id ≠ id) }
    if findRow Project.id db.projects id = none then
      (after, .error (.notFound "PROJECT_NOT_FOUND" "Project was not found"))
    else (after, .ok ())

def createLabel (input : CreateLabel) (id now : String) (db : Database) :
    Database × Except TaskError Label :=
  let result : Except TaskError Database := do
    let name ← cleanRequired input.name "INVALID_LABEL_NAME" "Label name is required"
    let color := input.color.getD "#71717a"
    validateColor color
    (db.insertLabel ⟨id, name, casing.toLowercase name, color, now⟩).mapError labelNameExists
  db.answer result fun after => after.findLabel id

def updateLabel (id : String) (input : Value) (db : Database) :
    Database × Except TaskError Label :=
  let result : Except TaskError Database := do
    let current ← db.findLabel id
    let name ← (← optionalString input "name").elim (.ok current.name) fun value =>
      cleanRequired value "INVALID_LABEL_NAME" "Label name is required"
    let color := (← optionalString input "color").getD current.color
    validateColor color
    (db.updateLabelRow id name (casing.toLowercase name) color).mapError labelNameExists
  db.answer result fun after => after.findLabel id

def deleteLabel (id : String) (db : Database) : Database × Except TaskError Unit :=
  if findRow Label.id db.labels id = none then
    (db, .error (.notFound "LABEL_NOT_FOUND" "Label was not found"))
  else (db.removeLabel id, .ok ())

/-- The checked fields of a `CreateTask`. -/
structure NewTask where
  title : String
  status : Status
  priority : Priority
  labels : List String
  deriving DecidableEq, Repr

def checkTask (input : CreateTask) : Except TaskError NewTask := do
  let title ← cleanRequired input.title "INVALID_TASK_TITLE" "Task title is required"
  let status ← validateStatus (input.status.getD "backlog")
  let priority ← validatePriority (input.priority.getD "no_priority")
  validateDueDate input.dueDate
  return ⟨title, status, priority, deduplicate (input.labelIds.getD [])⟩

def writeNewTask (input : CreateTask) (task : NewTask) (id now : String) (nowMillis : ℕ)
    (db : Database) : Except SqlError Database := do
  let (db, key, taskNumber) ← db.takeNumber input.projectId now
  let db ← db.insertTask
    { id, projectId := input.projectId, taskNumber, identifier := identifier key taskNumber
      title := task.title, description := input.description, status := task.status
      priority := task.priority, dueDate := input.dueDate, sortOrder := nowMillis
      createdAt := now, updatedAt := now
      completedAt := if task.status = .done then some now else none }
  db.replaceLabels id task.labels

def createTask (input : CreateTask) (id now : String) (nowMillis : ℕ) (db : Database) :
    Database × Except TaskError Task :=
  let result : Except TaskError Database := do
    let task ← checkTask input
    (db.writeNewTask input task id now nowMillis).mapError mapForeignKey
  db.answer result fun after => after.findTask id

/-- What `update_task` writes. -/
structure MergedTask where
  title : String
  status : Status
  priority : Priority
  description : Option String
  dueDate : Option String
  sortOrder : ℚ
  requestedProject : String
  labelIds : Option (List String)
  deriving DecidableEq, Repr

def mergeTask (input : Value) (current : TaskRow) : Except TaskError MergedTask := do
  let title ← (← optionalString input "title").elim (.ok current.title) fun value =>
    cleanRequired value "INVALID_TASK_TITLE" "Task title is required"
  let givenStatus ← optionalString input "status"
  let givenPriority ← optionalString input "priority"
  let status ← givenStatus.elim (.ok current.status) validateStatus
  let priority ← givenPriority.elim (.ok current.priority) validatePriority
  let description := (← optionalNullableString input "description").getD current.description
  let dueDate := (← optionalNullableString input "dueDate").getD current.dueDate
  validateDueDate dueDate
  let sortOrder := (← optionalNumber input "sortOrder").getD current.sortOrder
  let requestedProject := (← optionalString input "projectId").getD current.projectId
  let labelIds := (← optionalStringArray input "labelIds").map deduplicate
  return ⟨title, status, priority, description, dueDate, sortOrder, requestedProject, labelIds⟩

/-- The project, number and identifier a task is written with. -/
structure Placement where
  projectId : String
  taskNumber : ℕ
  identifier : String
  deriving DecidableEq, Repr

/-- A task that moves takes the next number of its new project. -/
def place (current : TaskRow) (requestedProject now : String) (db : Database) :
    Except SqlError (Database × Placement) :=
  if requestedProject = current.projectId then
    .ok (db, ⟨current.projectId, current.taskNumber, current.identifier⟩)
  else do
    let (db, key, taskNumber) ← db.takeNumber requestedProject now
    return (db, ⟨requestedProject, taskNumber, identifier key taskNumber⟩)

/-- The transaction of `update_task`, with the row that was read before it. -/
def writeTask (id : String) (current : TaskRow) (merged : MergedTask) (now : String)
    (db : Database) : Except SqlError Database := do
  let (db, placement) ← db.place current merged.requestedProject now
  let db ← db.updateTaskRow id fun row =>
    { row with
      projectId := placement.projectId, taskNumber := placement.taskNumber
      identifier := placement.identifier, title := merged.title
      description := merged.description, status := merged.status, priority := merged.priority
      dueDate := merged.dueDate, sortOrder := merged.sortOrder, updatedAt := now
      completedAt :=
        if merged.status = .done then current.completedAt.or (some now) else none }
  match merged.labelIds with
  | some labels => db.replaceLabels id labels
  | none => return db

def updateTask (id : String) (input : Value) (now : String) (db : Database) :
    Database × Except TaskError Task :=
  let result : Except TaskError Database := do
    let current ← db.findTask id
    let merged ← mergeTask input current.row
    (db.writeTask id current.row merged now).mapError mapForeignKey
  db.answer result fun after => after.findTask id

def deleteTask (id : String) (db : Database) : Database × Except TaskError Unit :=
  if findRow TaskRow.id db.tasks id = none then
    (db, .error (.notFound "TASK_NOT_FOUND" "Task was not found"))
  else (db.removeTasks fun row => decide (row.id = id), .ok ())

/-- The first start makes a project. -/
def seedDefaultProject (id now : String) (db : Database) : Database :=
  if db.projects = [] then
    { db with projects := [⟨id, "Dispatch", "DSP", "", "#8b5cf6", 1, now, now⟩] }
  else db

end Database
end PiDeck.Tasks
