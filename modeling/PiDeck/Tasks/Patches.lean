import Mathlib
import PiDeck.Agents.Profiles
import PiDeck.Tasks.Identifiers
import PiDeck.Transition.Editing

/-! Two concurrent `PATCH` requests on one task, one project or one agent. Every handler reads the
row, merges the request into it and writes the row back in calls of their own, so a handler is a
request that edits a store. -/
namespace PiDeck.Tasks
open PiDeck.Collections PiDeck.Transition

/-! ## Tasks -/

inductive TaskField
  | title
  | status
  | priority
  | description
  | dueDate
  | sortOrder
  | projectId
  | labelIds
  deriving DecidableEq, Repr

abbrev TaskField.Content : TaskField → Type
  | title => String
  | status => Status
  | priority => Priority
  | description => Option String
  | dueDate => Option String
  | sortOrder => ℚ
  | projectId => String
  | labelIds => List String

/-- A column of a row. -/
def TaskRow.field (row : TaskRow) : (i : TaskField) → Option i.Content
  | .title => some row.title
  | .status => some row.status
  | .priority => some row.priority
  | .description => some row.description
  | .dueDate => some row.dueDate
  | .sortOrder => some row.sortOrder
  | .projectId => some row.projectId
  | .labelIds => none

/-- The value of an optional field of a body, if it is there and well formed. -/
def given {α : Type} (field : Except TaskError (Option α)) : Option α := field.toOption.join

/-- What a body sets a field to. -/
def taskSets (input : Value) : (i : TaskField) → Option i.Content
  | .title => (given (optionalString input "title")).map Mux.trim
  | .status => (given (optionalString input "status")).bind fun value =>
      (validateStatus value).toOption
  | .priority => (given (optionalString input "priority")).bind fun value =>
      (validatePriority value).toOption
  | .description => given (optionalNullableString input "description")
  | .dueDate => given (optionalNullableString input "dueDate")
  | .sortOrder => given (optionalNumber input "sortOrder")
  | .projectId => given (optionalString input "projectId")
  | .labelIds => (given (optionalStringArray input "labelIds")).map deduplicate

namespace Database

/-- The labels a task carries. -/
def labelIdsOf (db : Database) (taskId : String) : List String :=
  (db.assignments.filter fun a => decide (a.taskId = taskId)).map (·.labelId)

def taskField (db : Database) (id : String) (i : TaskField) : Option i.Content :=
  (findRow TaskRow.id db.tasks id).bind fun row =>
    match i with
    | .labelIds => some (db.labelIdsOf id)
    | i => row.field i

/-- The transaction of `update_task` after its checks. -/
def patchTask (id : String) (current : Task) (input : Value) (now : String) (db : Database) :
    Except TaskError Database := do
  let merged ← mergeTask input current.row
  (db.writeTask id current.row merged now).mapError mapForeignKey

end Database

open Database in
/-- The calls of `update_task`. A request is its body with the time of its write. -/
def taskEditing (id : String) : Editing Database Task (Value × String) TaskField.Content where
  read db := (db.findTask id).toOption
  write task request db := (db.patchTask id task request.1 request.2).toOption
  column i := i ≠ .labelIds
  get i db := db.taskField id i
  seen i task := task.row.field i
  set i request := taskSets request.1 i

theorem given_ok {α : Type} {field : Except TaskError (Option α)} {o : Option α}
    (h : field = .ok o) : given field = o := by
  rw [h]
  rfl

theorem cleanRequired_ok {value code message cleaned : String}
    (h : cleanRequired value code message = .ok cleaned) : cleaned = Mux.trim value := by
  unfold cleanRequired at h
  split at h
  next => cases h
  next => exact (Except.ok.inj h).symm

/-- What `update_task` merges: the fields that are given, and the others as they were read. -/
structure Merges (input : Value) (current : TaskRow) (merged : Database.MergedTask) : Prop where
  title : merged.title = (taskSets input .title).getD current.title
  status : merged.status = (taskSets input .status).getD current.status
  priority : merged.priority = (taskSets input .priority).getD current.priority
  description : merged.description = (taskSets input .description).getD current.description
  dueDate : merged.dueDate = (taskSets input .dueDate).getD current.dueDate
  sortOrder : merged.sortOrder = (taskSets input .sortOrder).getD current.sortOrder
  requestedProject : merged.requestedProject =
    (taskSets input .projectId).getD current.projectId
  labelIds : merged.labelIds = taskSets input .labelIds

theorem mergeTask_merges {input : Value} {current : TaskRow} {merged : Database.MergedTask}
    (h : Database.mergeTask input current = .ok merged) : Merges input current merged := by
  obtain ⟨givenTitle, hgivenTitle, h⟩ := Except.bind_ok.mp h
  obtain ⟨title, htitle, h⟩ := Except.bind_ok.mp h
  obtain ⟨givenStatus, hgivenStatus, h⟩ := Except.bind_ok.mp h
  obtain ⟨givenPriority, hgivenPriority, h⟩ := Except.bind_ok.mp h
  obtain ⟨status, hstatus, h⟩ := Except.bind_ok.mp h
  obtain ⟨priority, hpriority, h⟩ := Except.bind_ok.mp h
  obtain ⟨description, hdescription, h⟩ := Except.bind_ok.mp h
  obtain ⟨dueDate, hdueDate, h⟩ := Except.bind_ok.mp h
  obtain ⟨_, -, h⟩ := Except.bind_ok.mp h
  obtain ⟨sortOrder, hsortOrder, h⟩ := Except.bind_ok.mp h
  obtain ⟨requestedProject, hrequestedProject, h⟩ := Except.bind_ok.mp h
  obtain ⟨labelIds, hlabelIds, h⟩ := Except.bind_ok.mp h
  obtain rfl := Except.ok.inj h
  constructor
  · have htrim : givenTitle.bind (fun value => (cleanRequired value "INVALID_TASK_TITLE"
        "Task title is required").toOption) = givenTitle.map Mux.trim := by
      cases givenTitle with
      | none => rfl
      | some value =>
        have hclean : cleanRequired value "INVALID_TASK_TITLE" "Task title is required" =
          .ok title := htitle
        simp [Except.toOption_eq_some.mpr hclean, cleanRequired_ok hclean]
    rw [Except.elim_ok htitle, htrim, taskSets, given_ok hgivenTitle]
  · rw [Except.elim_ok hstatus, taskSets, given_ok hgivenStatus]
  · rw [Except.elim_ok hpriority, taskSets, given_ok hgivenPriority]
  · rw [taskSets, given_ok hdescription]
  · rw [taskSets, given_ok hdueDate]
  · rw [taskSets, given_ok hsortOrder]
  · rw [taskSets, given_ok hrequestedProject]
  · rw [taskSets, given_ok hlabelIds]

namespace Database
variable {db after : Database} {id now : String}

theorem replaceLabels_labelIdsOf {taskId : String} {labelIds : List String}
    (h : db.replaceLabels taskId labelIds = .ok after) : after.labelIdsOf taskId = labelIds := by
  have hfold : ∀ (labelIds : List String) (db : Database),
      labelIds.foldlM (fun db labelId => db.insertAssignment taskId labelId) db = .ok after →
      after.labelIdsOf taskId = db.labelIdsOf taskId ++ labelIds := by
    intro labelIds
    induction labelIds with
    | nil =>
      intro db h
      obtain rfl := Except.ok.inj h
      rw [List.append_nil]
    | cons labelId labelIds ih =>
      intro db h
      rw [List.foldlM_cons] at h
      obtain ⟨next, hnext, hrest⟩ := Except.bind_ok.mp h
      rw [ih next hrest]
      unfold insertAssignment at hnext
      split at hnext
      next => cases hnext
      next =>
        split at hnext
        next => cases hnext
        next =>
          obtain rfl := Except.ok.inj hnext
          simp [labelIdsOf, List.filter_append]
  rw [hfold labelIds _ h]
  simp [labelIdsOf, List.filter_filter]

/-- The row that `update_task` leaves. -/
structure Written (db after : Database) (id : String) (merged : MergedTask) (row : TaskRow) :
    Prop where
  found : findRow TaskRow.id after.tasks id = some row
  project : ∃ project, findRow Project.id after.projects row.projectId = some project
  title : row.title = merged.title
  status : row.status = merged.status
  priority : row.priority = merged.priority
  description : row.description = merged.description
  dueDate : row.dueDate = merged.dueDate
  sortOrder : row.sortOrder = merged.sortOrder
  projectId : row.projectId = merged.requestedProject
  labelIds : after.labelIdsOf id = merged.labelIds.getD (db.labelIdsOf id)

theorem place_frame {current : TaskRow} {requestedProject : String} {placement : Placement}
    (h : db.place current requestedProject now = .ok (after, placement)) :
    after.tasks = db.tasks ∧ after.assignments = db.assignments ∧
      placement.projectId = requestedProject := by
  unfold place at h
  split at h
  next heq =>
    simp only [Except.ok.injEq, Prod.mk.injEq] at h
    obtain ⟨rfl, rfl⟩ := h
    exact ⟨rfl, rfl, heq.symm⟩
  next =>
    obtain ⟨⟨numbered, key, number⟩, htake, h⟩ := Except.bind_ok.mp h
    simp only [pure, Except.pure, Except.ok.injEq, Prod.mk.injEq] at h
    obtain ⟨rfl, rfl⟩ := h
    obtain ⟨-, -, -, -, -, rfl⟩ := takeNumber_ok htake
    exact ⟨rfl, rfl, rfl⟩

theorem updateTaskRow_found {f : TaskRow → TaskRow} {row : TaskRow}
    (hrow : findRow TaskRow.id db.tasks id = some row)
    (h : db.updateTaskRow id f = .ok after) (hid : ∀ row : TaskRow, (f row).id = row.id) :
    findRow TaskRow.id after.tasks id = some (f row) ∧
      (∃ project, findRow Project.id after.projects (f row).projectId = some project) ∧
      after.assignments = db.assignments := by
  unfold updateTaskRow at h
  rw [hrow] at h
  dsimp only at h
  split at h
  next => cases h
  next =>
    split at h
    next => cases h
    next =>
      split at h
      next => cases h
      next hproject =>
        obtain rfl := Except.ok.inj h
        refine ⟨?_, Option.ne_none_iff_exists'.mp hproject, rfl⟩
        dsimp only
        rw [findRow_modifyRow fun other ho => (hid other).trans ho, if_pos rfl, hrow]
        rfl

theorem writeTask_written {current row : TaskRow} {merged : MergedTask}
    (hrow : findRow TaskRow.id db.tasks id = some row)
    (h : db.writeTask id current merged now = .ok after) : ∃ new, db.Written after id merged new := by
  obtain ⟨⟨placed, placement⟩, hplace, h⟩ := Except.bind_ok.mp h
  obtain ⟨updated, hupdate, hlabels⟩ := Except.bind_ok.mp h
  obtain ⟨htasks, hassigned, hrequested⟩ := place_frame hplace
  have hplaced : findRow TaskRow.id placed.tasks id = some row := by
    rw [htasks]
    exact hrow
  obtain ⟨hfound, hproject, hkept⟩ := updateTaskRow_found hplaced hupdate fun _ => rfl
  have hbefore : updated.labelIdsOf id = db.labelIdsOf id := by
    rw [labelIdsOf, hkept, hassigned, labelIdsOf]
  split at hlabels
  next labels hgiven =>
    obtain ⟨hp, ht, -⟩ := replaceLabels_frame hlabels
    refine ⟨_, by rw [ht]; exact hfound, by rw [hp]; exact hproject, rfl, rfl, rfl, rfl, rfl, rfl,
      hrequested, ?_⟩
    rw [replaceLabels_labelIdsOf hlabels, hgiven]
    rfl
  next hgiven =>
    obtain rfl := Except.ok.inj hlabels
    refine ⟨_, hfound, hproject, rfl, rfl, rfl, rfl, rfl, rfl, hrequested, ?_⟩
    rw [hbefore, hgiven]
    rfl

/-- A handler that succeeds answers with what it reads from the new database. -/
theorem answer_eq_ok {α : Type} {result : Except TaskError Database}
    {read : Database → Except TaskError α} {a : α} :
    db.answer result read = (after, .ok a) ↔ result = .ok after ∧ read after = .ok a := by
  cases result with
  | ok written =>
    constructor
    · intro h
      obtain ⟨rfl, hread⟩ := Prod.mk.inj h
      exact ⟨rfl, hread⟩
    · rintro ⟨h, hread⟩
      obtain rfl := Except.ok.inj h
      exact Prod.ext rfl hread
  | error error => simp [answer]

/-- `update_task` is a read, a write and a read of the answer. -/
theorem updateTask_ok {input : Value} {task : Task} :
    db.updateTask id input now = (after, .ok task) ↔
      ∃ current, (taskEditing id).read db = some current ∧
        (taskEditing id).write current (input, now) db = some after ∧
        (taskEditing id).read after = some task := by
  rw [updateTask, answer_eq_ok]
  simp only [taskEditing, Except.toOption_eq_some, patchTask, Except.bind_ok]
  constructor
  · rintro ⟨⟨current, hcurrent, merged, hmerged, hwrite⟩, hread⟩
    exact ⟨current, hcurrent, ⟨merged, hmerged, hwrite⟩, hread⟩
  · rintro ⟨current, hcurrent, ⟨merged, hmerged, hwrite⟩, hread⟩
    exact ⟨⟨current, hcurrent, merged, hmerged, hwrite⟩, hread⟩

end Database

open Database in
theorem taskEditing_lawful (id : String) : (taskEditing id).Lawful where
  read_seen := by
    intro db task i hread hcolumn
    have hrow := findTask_ok (Except.toOption_eq_some.mp hread)
    change task.row.field i = db.taskField id i
    rw [taskField, hrow]
    cases i with
    | labelIds => exact absurd rfl hcolumn
    | _ => rfl
  write_reads := by
    intro db after task request hread hwrite
    obtain ⟨found, hfound⟩ := Option.isSome_iff_exists.mp hread
    have hrow := findTask_ok (Except.toOption_eq_some.mp hfound)
    obtain ⟨merged, -, hwrite⟩ := Except.bind_ok.mp (Except.toOption_eq_some.mp hwrite)
    obtain ⟨new, hnew⟩ := writeTask_written hrow (Except.mapError_ok.mp hwrite)
    obtain ⟨project, hproject⟩ := hnew.project
    change (after.findTask id).toOption.isSome = true
    rw [findTask, hnew.found]
    dsimp only
    rw [hproject]
    rfl
  write_column := by
    intro db after task request i hread hwrite hcolumn
    obtain ⟨found, hfound⟩ := Option.isSome_iff_exists.mp hread
    have hrow := findTask_ok (Except.toOption_eq_some.mp hfound)
    obtain ⟨merged, hmerged, hwrite⟩ := Except.bind_ok.mp (Except.toOption_eq_some.mp hwrite)
    obtain ⟨new, hnew⟩ := writeTask_written hrow (Except.mapError_ok.mp hwrite)
    have hmerges := mergeTask_merges hmerged
    change after.taskField id i = (taskSets request.1 i).or (task.row.field i)
    rw [taskField, hnew.found]
    cases i with
    | title => exact (congrArg some (hnew.title.trans hmerges.title)).trans (or_some _ _).symm
    | status => exact (congrArg some (hnew.status.trans hmerges.status)).trans (or_some _ _).symm
    | priority =>
      exact (congrArg some (hnew.priority.trans hmerges.priority)).trans (or_some _ _).symm
    | description =>
      exact (congrArg some (hnew.description.trans hmerges.description)).trans (or_some _ _).symm
    | dueDate => exact (congrArg some (hnew.dueDate.trans hmerges.dueDate)).trans (or_some _ _).symm
    | sortOrder =>
      exact (congrArg some (hnew.sortOrder.trans hmerges.sortOrder)).trans (or_some _ _).symm
    | projectId =>
      exact (congrArg some (hnew.projectId.trans hmerges.requestedProject)).trans (or_some _ _).symm
    | labelIds => exact absurd rfl hcolumn
  write_other := by
    intro db after task request i hread hwrite hcolumn
    obtain rfl : i = .labelIds := not_not.mp hcolumn
    obtain ⟨found, hfound⟩ := Option.isSome_iff_exists.mp hread
    have hrow := findTask_ok (Except.toOption_eq_some.mp hfound)
    obtain ⟨merged, hmerged, hwrite⟩ := Except.bind_ok.mp (Except.toOption_eq_some.mp hwrite)
    obtain ⟨new, hnew⟩ := writeTask_written hrow (Except.mapError_ok.mp hwrite)
    have hlabels := hnew.labelIds
    rw [(mergeTask_merges hmerged).labelIds] at hlabels
    change after.taskField id .labelIds =
      (taskSets request.1 .labelIds).or (db.taskField id .labelIds)
    rw [taskField, taskField, hnew.found, hrow]
    dsimp only [Option.bind_some]
    rw [hlabels]
    cases taskSets request.1 .labelIds <;> rfl

/-! ## Projects -/

inductive ProjectField
  | name
  | key
  | description
  | color
  deriving DecidableEq, Repr

def Project.field (project : Project) : ProjectField → String
  | .name => project.name
  | .key => project.key
  | .description => project.description
  | .color => project.color

/-- What a body sets a field to. -/
def projectSets (casing : Casing) (input : Value) : ProjectField → Option String
  | .name => (given (optionalString input "name")).map Mux.trim
  | .key => (given (optionalString input "key")).map fun value => casing.toUppercase (Mux.trim value)
  | .description => given (optionalString input "description")
  | .color => given (optionalString input "color")

namespace Database

/-- The statement of `update_project` after its checks. -/
def patchProject (casing : Casing) (id : String) (current : Project) (input : Value)
    (now : String) (db : Database) : Except TaskError Database := do
  let merged ← mergeProject casing input current
  (db.writeProject id merged now).mapError projectKeyExists

end Database

/-- The calls of `update_project`. -/
def projectEditing (casing : Casing) (id : String) :
    Editing Database Project (Value × String) fun _ : ProjectField => String where
  read db := (db.findProject id).toOption
  write project request db := (db.patchProject casing id project request.1 request.2).toOption
  column _ := True
  get i db := (findRow Project.id db.projects id).map fun project => project.field i
  seen i project := some (project.field i)
  set i request := projectSets casing request.1 i

def Database.MergedProject.field (merged : Database.MergedProject) : ProjectField → String
  | .name => merged.name
  | .key => merged.key
  | .description => merged.description
  | .color => merged.color

theorem mergeProject_field {casing : Casing} {input : Value} {current : Project}
    {merged : Database.MergedProject}
    (h : Database.mergeProject casing input current = .ok merged) (i : ProjectField) :
    merged.field i = (projectSets casing input i).getD (current.field i) := by
  obtain ⟨givenName, hgivenName, h⟩ := Except.bind_ok.mp h
  obtain ⟨name, hname, h⟩ := Except.bind_ok.mp h
  obtain ⟨givenKey, hgivenKey, h⟩ := Except.bind_ok.mp h
  obtain ⟨_, -, h⟩ := Except.bind_ok.mp h
  obtain ⟨description, hdescription, h⟩ := Except.bind_ok.mp h
  obtain ⟨color, hcolor, h⟩ := Except.bind_ok.mp h
  obtain ⟨_, -, h⟩ := Except.bind_ok.mp h
  obtain rfl := Except.ok.inj h
  cases i with
  | name =>
    have htrim : givenName.bind (fun value => (cleanRequired value "INVALID_PROJECT_NAME"
        "Project name is required").toOption) = givenName.map Mux.trim := by
      cases givenName with
      | none => rfl
      | some value =>
        have hclean : cleanRequired value "INVALID_PROJECT_NAME" "Project name is required" =
          .ok name := hname
        simp [Except.toOption_eq_some.mpr hclean, cleanRequired_ok hclean]
    rw [projectSets, given_ok hgivenName, ← htrim]
    exact Except.elim_ok hname
  | key =>
    rw [projectSets, given_ok hgivenKey]
    rfl
  | description =>
    rw [projectSets, given_ok hdescription]
    rfl
  | color =>
    rw [projectSets, given_ok hcolor]
    rfl

namespace Database
variable {db after : Database} {casing : Casing} {id now : String}

theorem findProject_ok {project : Project} (h : db.findProject id = .ok project) :
    findRow Project.id db.projects id = some project := by
  unfold findProject at h
  split at h
  next found hfound =>
    obtain rfl := Except.ok.inj h
    exact hfound
  next => cases h

theorem writeProject_found {project : Project} {merged : MergedProject}
    (hproject : findRow Project.id db.projects id = some project)
    (h : db.writeProject id merged now = .ok after) :
    ∃ new, findRow Project.id after.projects id = some new ∧
      ∀ i, new.field i = merged.field i := by
  unfold writeProject updateProjectRow at h
  split at h
  next => cases h
  next =>
    obtain rfl := Except.ok.inj h
    refine ⟨{ project with
      name := merged.name, key := merged.key, description := merged.description
      color := merged.color, updatedAt := now }, ?_, fun i => by cases i <;> rfl⟩
    have hid : ∀ other : Project, other.id = id →
        ({ other with
          name := merged.name, key := merged.key, description := merged.description
          color := merged.color, updatedAt := now } : Project).id = id := fun _ ho => ho
    simp only [setProject]
    rw [findRow_modifyRow hid, if_pos rfl, hproject]
    rfl

/-- `update_project` is a read, a write and a read of the answer. -/
theorem updateProject_ok {input : Value} {project : Project} :
    db.updateProject casing id input now = (after, .ok project) ↔
      ∃ current, (projectEditing casing id).read db = some current ∧
        (projectEditing casing id).write current (input, now) db = some after ∧
        (projectEditing casing id).read after = some project := by
  rw [updateProject, answer_eq_ok]
  simp only [projectEditing, Except.toOption_eq_some, patchProject, Except.bind_ok]
  constructor
  · rintro ⟨⟨current, hcurrent, merged, hmerged, hwrite⟩, hread⟩
    exact ⟨current, hcurrent, ⟨merged, hmerged, hwrite⟩, hread⟩
  · rintro ⟨current, hcurrent, ⟨merged, hmerged, hwrite⟩, hread⟩
    exact ⟨⟨current, hcurrent, merged, hmerged, hwrite⟩, hread⟩

end Database

open Database in
theorem projectEditing_lawful (casing : Casing) (id : String) :
    (projectEditing casing id).Lawful where
  read_seen := by
    intro db project i hread _
    have hproject := findProject_ok (Except.toOption_eq_some.mp hread)
    change some (project.field i) = (findRow Project.id db.projects id).map _
    rw [hproject]
    rfl
  write_reads := by
    intro db after project request hread hwrite
    obtain ⟨found, hfound⟩ := Option.isSome_iff_exists.mp hread
    obtain ⟨merged, -, hwrite⟩ := Except.bind_ok.mp (Except.toOption_eq_some.mp hwrite)
    obtain ⟨new, hnew, -⟩ := writeProject_found
      (findProject_ok (Except.toOption_eq_some.mp hfound)) (Except.mapError_ok.mp hwrite)
    change (after.findProject id).toOption.isSome = true
    rw [findProject, hnew]
    rfl
  write_column := by
    intro db after project request i hread hwrite _
    obtain ⟨found, hfound⟩ := Option.isSome_iff_exists.mp hread
    obtain ⟨merged, hmerged, hwrite⟩ := Except.bind_ok.mp (Except.toOption_eq_some.mp hwrite)
    obtain ⟨new, hnew, hfields⟩ := writeProject_found
      (findProject_ok (Except.toOption_eq_some.mp hfound)) (Except.mapError_ok.mp hwrite)
    change (findRow Project.id after.projects id).map _ =
      (projectSets casing request.1 i).or (some (project.field i))
    rw [hnew, or_some, ← mergeProject_field hmerged, ← hfields]
    rfl
  write_other := fun _ _ hcolumn => absurd trivial hcolumn

end PiDeck.Tasks

namespace PiDeck.Agents
open PiDeck.Collections PiDeck.Transition
open PiDeck.Tasks (Value)

/-! ## Agents -/

inductive AgentField
  | name
  | systemPrompt
  | systemPromptMode
  | tools
  deriving DecidableEq, Repr

abbrev AgentField.Content : AgentField → Type
  | name => String
  | systemPrompt => String
  | systemPromptMode => PromptMode
  | tools => Option (List String)

def Agent.field (agent : Agent) : (i : AgentField) → i.Content
  | .name => agent.name
  | .systemPrompt => agent.systemPrompt
  | .systemPromptMode => agent.systemPromptMode
  | .tools => agent.tools

def MergedAgent.field (merged : MergedAgent) : (i : AgentField) → i.Content
  | .name => merged.name
  | .systemPrompt => merged.systemPrompt
  | .systemPromptMode => merged.systemPromptMode
  | .tools => merged.tools

/-- What a body sets a field to. -/
def agentSets (input : Value) : (i : AgentField) → Option i.Content
  | .name => (input.get "name").bind fun value => (parseName value).toOption
  | .systemPrompt => (input.get "systemPrompt").bind fun value => (parsePrompt value).toOption
  | .systemPromptMode => (input.get "systemPromptMode").bind fun value => (parseMode value).toOption
  | .tools => (input.get "tools").bind fun value => (parseTools value).toOption

/-- The statement of `update_agent` after its checks. -/
def Profiles.patchAgent (id : String) (current : Agent) (input : Value) (now : String)
    (profiles : Profiles) : Except AgentError Profiles := do
  checkFields input
  let merged ← mergeAgent input current
  return profiles.writeAgent id merged now

/-- The calls of `update_agent`. Its first check reads the body only, and stands with the others
before the write. -/
def agentEditing (id : String) :
    Editing Profiles Agent (Value × String) AgentField.Content where
  read profiles := (profiles.findAgent id).toOption
  write agent request profiles := (profiles.patchAgent id agent request.1 request.2).toOption
  column _ := True
  get i profiles := (findRow Agent.id profiles.agents id).map fun agent => agent.field i
  seen i agent := some (agent.field i)
  set i request := agentSets request.1 i

theorem mergeAgent_field {input : Value} {current : Agent} {merged : MergedAgent}
    (h : mergeAgent input current = .ok merged) (i : AgentField) :
    merged.field i = (agentSets input i).getD (current.field i) := by
  obtain ⟨name, hname, h⟩ := Except.bind_ok.mp h
  obtain ⟨systemPrompt, hsystemPrompt, h⟩ := Except.bind_ok.mp h
  obtain ⟨systemPromptMode, hsystemPromptMode, h⟩ := Except.bind_ok.mp h
  obtain ⟨tools, htools, h⟩ := Except.bind_ok.mp h
  obtain rfl := Except.ok.inj h
  cases i with
  | name => exact Except.elim_ok hname
  | systemPrompt => exact Except.elim_ok hsystemPrompt
  | systemPromptMode => exact Except.elim_ok hsystemPromptMode
  | tools => exact Except.elim_ok htools

namespace Profiles
variable {profiles after : Profiles} {id now : String}

theorem findAgent_ok {agent : Agent} (h : profiles.findAgent id = .ok agent) :
    findRow Agent.id profiles.agents id = some agent ∧ agent.deletedAt = none := by
  unfold findAgent at h
  split at h
  next found hfound =>
    split at h
    next hlive =>
      obtain rfl := Except.ok.inj h
      exact ⟨hfound, hlive⟩
    next => cases h
  next => cases h

theorem writeAgent_found {agent : Agent} (merged : MergedAgent)
    (hagent : findRow Agent.id profiles.agents id = some agent) :
    ∃ new, findRow Agent.id (profiles.writeAgent id merged now).agents id = some new ∧
      new.deletedAt = agent.deletedAt ∧ ∀ i, new.field i = merged.field i := by
  have hid : ∀ other : Agent, other.id = id →
      ({ other with
        name := merged.name, systemPrompt := merged.systemPrompt
        systemPromptMode := merged.systemPromptMode, tools := merged.tools
        updatedAt := now } : Agent).id = id := fun _ ho => ho
  refine ⟨{ agent with
    name := merged.name, systemPrompt := merged.systemPrompt
    systemPromptMode := merged.systemPromptMode, tools := merged.tools, updatedAt := now },
    ?_, rfl, fun i => by cases i <;> rfl⟩
  simp only [writeAgent]
  rw [findRow_modifyRow hid, if_pos rfl, hagent]
  rfl

/-- `update_agent` is a read, a write and a read of the answer. -/
theorem updateAgent_ok {input : Value} {agent : Agent} :
    profiles.updateAgent id input now = (after, .ok agent) ↔
      ∃ current, (agentEditing id).read profiles = some current ∧
        (agentEditing id).write current (input, now) profiles = some after ∧
        (agentEditing id).read after = some agent := by
  simp only [agentEditing, Except.toOption_eq_some, patchAgent, Except.bind_ok, updateAgent]
  constructor
  · intro h
    split at h
    next written hwritten =>
      obtain ⟨rfl, hread⟩ := Prod.mk.inj h
      simp only [Except.bind_ok] at hwritten
      obtain ⟨_, hcheck, current, hcurrent, merged, hmerged, hwrite⟩ := hwritten
      exact ⟨current, hcurrent, ⟨_, hcheck, merged, hmerged, hwrite⟩, hread⟩
    next error herror => cases (Prod.mk.inj h).2
  · rintro ⟨current, hcurrent, ⟨_, hcheck, merged, hmerged, hwrite⟩, hread⟩
    have hresult : (do
        checkFields input
        let current ← profiles.findAgent id
        let merged ← mergeAgent input current
        return profiles.writeAgent id merged now : Except AgentError Profiles) = .ok after := by
      simp only [Except.bind_ok]
      exact ⟨_, hcheck, current, hcurrent, merged, hmerged, hwrite⟩
    rw [hresult]
    exact Prod.ext rfl hread

end Profiles

open Profiles in
theorem agentEditing_lawful (id : String) : (agentEditing id).Lawful where
  read_seen := by
    intro profiles agent i hread _
    have hagent := (findAgent_ok (Except.toOption_eq_some.mp hread)).1
    change some (agent.field i) = (findRow Agent.id profiles.agents id).map _
    rw [hagent]
    rfl
  write_reads := by
    intro profiles after agent request hread hwrite
    obtain ⟨found, hfound⟩ := Option.isSome_iff_exists.mp hread
    obtain ⟨hagent, hlive⟩ := findAgent_ok (Except.toOption_eq_some.mp hfound)
    obtain ⟨_, -, hwrite⟩ := Except.bind_ok.mp (Except.toOption_eq_some.mp hwrite)
    obtain ⟨merged, -, hwrite⟩ := Except.bind_ok.mp hwrite
    obtain rfl := Except.ok.inj hwrite
    obtain ⟨new, hnew, hdeleted, -⟩ := writeAgent_found merged hagent
    change ((profiles.writeAgent id merged request.2).findAgent id).toOption.isSome = true
    rw [findAgent, hnew]
    dsimp only
    rw [hdeleted, if_pos hlive]
    rfl
  write_column := by
    intro profiles after agent request i hread hwrite _
    obtain ⟨found, hfound⟩ := Option.isSome_iff_exists.mp hread
    obtain ⟨hagent, -⟩ := findAgent_ok (Except.toOption_eq_some.mp hfound)
    obtain ⟨_, -, hwrite⟩ := Except.bind_ok.mp (Except.toOption_eq_some.mp hwrite)
    obtain ⟨merged, hmerged, hwrite⟩ := Except.bind_ok.mp hwrite
    obtain rfl := Except.ok.inj hwrite
    obtain ⟨new, hnew, -, hfields⟩ := writeAgent_found merged hagent
    change (findRow Agent.id (profiles.writeAgent id merged request.2).agents id).map _ =
      (agentSets request.1 i).or (some (agent.field i))
    rw [hnew, or_some, ← mergeAgent_field hmerged, ← hfields]
    rfl
  write_other := fun _ _ hcolumn => absurd trivial hcolumn

end PiDeck.Agents

namespace PiDeck.Tasks
open PiDeck.Agents PiDeck.Transition

/-! ## Two requests -/

inductive Side
  | left
  | right
  deriving DecidableEq, Repr

theorem Side.two (a b c : Side) : a = b ∨ b = c ∨ a = c := by
  cases a <;> cases b <;> cases c <;> simp

/-- In any interleaving of the calls of two requests that set different fields and both succeed,
each field keeps what its request set exactly when no write finds a column, other than those its
request sets, changed since the request has read it. -/
def KeptWhenFresh {σ ρ π ι : Type} {V : ι → Type} (E : Editing σ ρ π V) : Prop :=
  ∀ (request : Side → π) (store : σ) (sides : List Side) (after : Editors σ ρ Side),
    E.Disjoint request →
    Machine.Run (E.machine request) (Editing.start store) sides after →
    (∀ side, after.phase side = .answered) →
    (E.Kept request after.store ↔
      Machine.Path (E.machine request) (E.Fresh request) (Editing.start store) sides after)

theorem keptWhenFresh {σ ρ π ι : Type} {V : ι → Type} {E : Editing σ ρ π V} (hE : E.Lawful) :
    KeptWhenFresh E :=
  fun _ _ _ _ hdisjoint hrun hdone => Editing.kept_iff_fresh hE Side.two hdisjoint hrun hdone

/-- Partial edits of a task, of a project and of an agent. -/
theorem edits_kept_when_fresh (id : String) :
    KeptWhenFresh (taskEditing id) ∧
    (∀ casing, KeptWhenFresh (projectEditing casing id)) ∧
    KeptWhenFresh (agentEditing id) :=
  ⟨keptWhenFresh (taskEditing_lawful id),
    fun casing => keptWhenFresh (projectEditing_lawful casing id),
    keptWhenFresh (agentEditing_lawful id)⟩

/-- One request sets the title of a task, the other one its description. -/
def titleAndDescription : Side → Value × String
  | .left => (.object [("title", .string "New")], "left")
  | .right => (.object [("description", .string "Text")], "right")

def oneTask : Database :=
  { Database.empty with
    projects := [⟨"project", "Dispatch", "DSP", "", "#8b5cf6", 2, "now", "now"⟩]
    tasks := [⟨"task", "project", 1, "DSP-1", "Old", none, .todo, .low, none, 0, "now", "now",
      none⟩] }

theorem titleAndDescription_disjoint : (taskEditing "task").Disjoint titleAndDescription := by
  intro j k hne i
  cases j <;> cases k <;> first
    | exact absurd rfl hne
    | cases i <;> first | exact .inl rfl | exact .inr rfl

def Phase.isAnswered {ρ : Type} : Phase ρ → Bool
  | .answered => true
  | _ => false

/-- Both requests read the task before either writes it. -/
theorem overlapping_run : ∃ after : Editors Database Task Side,
    Machine.Run ((taskEditing "task").machine titleAndDescription) (Editing.start oneTask)
      [.left, .right, .left, .right, .left, .right] after ∧
    (∀ side, after.phase side = .answered) ∧
    ¬(taskEditing "task").Kept titleAndDescription after.store := by
  have hexec : (((taskEditing "task").machine titleAndDescription).exec (fun _ _ => True)
      (Editing.start oneTask) [.left, .right, .left, .right, .left, .right]).map (fun after =>
        (after.store.taskField "task" .title, Phase.isAnswered (after.phase .left),
          Phase.isAnswered (after.phase .right))) = some (some "Old", true, true) := by
    decide +kernel
  obtain ⟨after, hafter, hfields⟩ := Option.map_eq_some_iff.mp hexec
  simp only [Prod.mk.injEq] at hfields
  obtain ⟨htitle, hleft, hright⟩ := hfields
  have hanswered : ∀ phase : Phase Task, Phase.isAnswered phase = true → phase = .answered := by
    intro phase h
    cases phase <;> first | rfl | cases h
  refine ⟨after, Machine.path_of_exec hafter, fun side => ?_, fun hkept => ?_⟩
  · cases side with
    | left => exact hanswered _ hleft
    | right => exact hanswered _ hright
  · have hnew : after.store.taskField "task" .title = some "New" :=
      hkept .left .title "New" (by decide +kernel)
    rw [htitle] at hnew
    simp at hnew

/-- The title is lost. -/
theorem title_lost :
    ¬ ∀ (id : String) (request : Side → Value × String) (db : Database) (sides : List Side)
      (after : Editors Database Task Side), (taskEditing id).Disjoint request →
      Machine.Run ((taskEditing id).machine request) (Editing.start db) sides after →
      (∀ side, after.phase side = .answered) → (taskEditing id).Kept request after.store := by
  intro hclaim
  obtain ⟨after, hrun, hdone, hlost⟩ := overlapping_run
  exact hlost (hclaim _ _ _ _ _ titleAndDescription_disjoint hrun hdone)

theorem edits_kept_when_fresh_overlapping : ∃ after : Editors Database Task Side,
    ¬Machine.Path ((taskEditing "task").machine titleAndDescription)
      ((taskEditing "task").Fresh titleAndDescription) (Editing.start oneTask)
      [.left, .right, .left, .right, .left, .right] after := by
  obtain ⟨after, hrun, hdone, hlost⟩ := overlapping_run
  exact ⟨after, fun hpath => hlost (((edits_kept_when_fresh _).1 _ _ _ _
    titleAndDescription_disjoint hrun hdone).mpr hpath)⟩

end PiDeck.Tasks
