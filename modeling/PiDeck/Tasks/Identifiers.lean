import Mathlib
import PiDeck.Collections.Results
import PiDeck.Tasks.Store

/-! Task identifiers over any sequence of requests. The tables keep their identifiers distinct;
whether a request that needs a new one succeeds depends on the identifiers that tasks of other
projects kept from earlier keys. -/
namespace PiDeck.Tasks
open PiDeck.Collections

/-! An identifier determines its key and its number. -/

theorem validKey_no_dash {key : String} (h : validKey key = true) : '-' ∉ key.toList := by
  intro hmem
  have hall : key.toList.all Char.isAlphanum = true := by
    simp only [validKey, Bool.and_eq_true] at h
    exact h.2
  have hdash := List.all_eq_true.mp hall '-' hmem
  exact absurd hdash (by decide)

theorem toList_identifier (key : String) (n : ℕ) :
    (identifier key n).toList = key.toList ++ '-' :: Nat.toDigits 10 n := by
  simp [identifier, String.toList_append]

theorem toDigits_injective {n m : ℕ} (h : Nat.toDigits 10 n = Nat.toDigits 10 m) : n = m := by
  rw [← @Nat.ofDigitChars_ten_toDigits n, h, Nat.ofDigitChars_ten_toDigits]

theorem identifier_injective {key other : String} {n m : ℕ} (hk : validKey key = true)
    (ho : validKey other = true) (h : identifier key n = identifier other m) :
    key = other ∧ n = m := by
  have hlist := congrArg String.toList h
  rw [toList_identifier, toList_identifier] at hlist
  have hcut : ∀ (k : String) (digits : List Char), validKey k = true →
      (k.toList ++ '-' :: digits).takeWhile (· ≠ '-') = k.toList := by
    intro k digits hvalid
    have hpos : ∀ c ∈ k.toList, decide (c ≠ '-') = true := by
      intro c hc
      have hne : c ≠ '-' := fun heq => validKey_no_dash hvalid (heq ▸ hc)
      simpa using hne
    rw [List.takeWhile_append_of_pos hpos]
    simp
  have hkeys : key.toList = other.toList := by
    rw [← hcut key (Nat.toDigits 10 n) hk, hlist, hcut other _ ho]
  rw [hkeys] at hlist
  have hdigits := List.append_cancel_left hlist
  exact ⟨String.toList_inj.mp hkeys, toDigits_injective (List.cons.inj hdigits).2⟩

namespace Database

/-- What the tables keep: keys are unique, every task has a number its project has already given
out, and is named after that number. -/
structure WellFormed (db : Database) : Prop where
  projectIds : (db.projects.map Project.id).Nodup
  keys : ∀ project ∈ db.projects, validKey project.key = true
  taskIds : (db.tasks.map TaskRow.id).Nodup
  identifiers : (db.tasks.map TaskRow.identifier).Nodup
  numbered : ∀ row ∈ db.tasks, ∃ project, findRow Project.id db.projects row.projectId =
    some project ∧ row.taskNumber < project.nextTaskNumber
  named : ∀ row ∈ db.tasks, ∃ key, validKey key = true ∧
    row.identifier = identifier key row.taskNumber
  titles : ∀ row ∈ db.tasks, titleCheck row.title = true

namespace WellFormed
variable {db after : Database}

/-- Nothing but the projects and the tasks matters. -/
theorem congr (h : db.WellFormed) (hp : after.projects = db.projects)
    (ht : after.tasks = db.tasks) : after.WellFormed := by
  constructor
  · rw [hp]; exact h.projectIds
  · rw [hp]; exact h.keys
  · rw [ht]; exact h.taskIds
  · rw [ht]; exact h.identifiers
  · rw [ht, hp]; exact h.numbered
  · rw [ht]; exact h.named
  · rw [ht]; exact h.titles

theorem insertProject (h : db.WellFormed) {project : Project} (hkey : validKey project.key = true)
    (hi : db.insertProject project = .ok after) : after.WellFormed := by
  unfold Database.insertProject at hi
  split at hi
  next => cases hi
  next hfree =>
    obtain rfl := Except.ok.inj hi
    have hnew : findRow Project.id db.projects project.id = none :=
      findRow_eq_none.mpr fun other ho heq => hfree ⟨other, ho, .inl heq⟩
    refine ⟨nodup_push hnew h.projectIds, ?_, h.taskIds, h.identifiers, ?_, h.named, h.titles⟩
    · intro other ho
      rcases List.mem_append.mp ho with ho | ho
      · exact h.keys other ho
      · obtain rfl := List.mem_singleton.mp ho
        exact hkey
    · intro row hrow
      obtain ⟨owner, howner, hlt⟩ := h.numbered row hrow
      have hne : row.projectId ≠ project.id := by
        intro heq
        rw [heq, hnew] at howner
        cases howner
      refine ⟨owner, ?_, hlt⟩
      rw [findRow_push hnew, if_neg hne]
      exact howner

/-- A change of a project that keeps its key valid and its numbers given. -/
theorem setProject (h : db.WellFormed) {id : String} {f : Project → Project}
    (hid : ∀ project, (f project).id = project.id)
    (hkey : ∀ project, validKey project.key = true → validKey (f project).key = true)
    (hnext : ∀ project, project.nextTaskNumber ≤ (f project).nextTaskNumber) :
    (db.setProject id f).WellFormed := by
  have hf : ∀ project : Project, project.id = id → (f project).id = id :=
    fun project hp => (hid project).trans hp
  refine ⟨?_, ?_, h.taskIds, h.identifiers, ?_, h.named, h.titles⟩
  · simp only [Database.setProject, map_key_modifyRow hf]
    exact h.projectIds
  · intro project hp
    rcases mem_modifyRow hp with hp | ⟨old, ho, rfl⟩
    · exact h.keys project hp
    · exact hkey old (h.keys old (findRow_mem ho))
  · intro row hrow
    obtain ⟨owner, howner, hlt⟩ := h.numbered row hrow
    by_cases heq : row.projectId = id
    · refine ⟨f owner, ?_, hlt.trans_le (hnext owner)⟩
      simp only [Database.setProject]
      rw [findRow_modifyRow hf, if_pos heq, ← heq, howner]
      rfl
    · refine ⟨owner, ?_, hlt⟩
      simp only [Database.setProject]
      rw [findRow_modifyRow hf, if_neg heq]
      exact howner

theorem updateProjectRow (h : db.WellFormed) {id name key description color now : String}
    (hkey : validKey key = true)
    (hu : db.updateProjectRow id name key description color now = .ok after) :
    after.WellFormed := by
  unfold Database.updateProjectRow at hu
  split at hu
  next => cases hu
  next =>
    obtain rfl := Except.ok.inj hu
    exact h.setProject (fun _ => rfl) (fun _ _ => hkey) fun _ => le_rfl

end WellFormed

/-- What a request for a number finds and leaves. -/
theorem takeNumber_ok {db after : Database} {projectId now key : String} {number : ℕ}
    (h : db.takeNumber projectId now = .ok (after, key, number)) :
    ∃ project, findRow Project.id db.projects projectId = some project ∧
      project.nextTaskNumber < integerMax ∧ key = project.key ∧
      number = project.nextTaskNumber ∧
      after = db.setProject projectId fun project =>
        { project with nextTaskNumber := project.nextTaskNumber + 1, updatedAt := now } := by
  unfold takeNumber at h
  split at h
  next => cases h
  next project hproject =>
    split at h
    next hle =>
      simp only [Except.ok.injEq, Prod.mk.injEq] at h
      obtain ⟨rfl, rfl, rfl⟩ := h
      exact ⟨project, hproject, hle, rfl, rfl, rfl⟩
    next => cases h

/-- A number that a project has given out under a valid key. -/
def Issued (db : Database) (projectId : String) (taskNumber : ℕ) (name : String) : Prop :=
  (∃ project, findRow Project.id db.projects projectId = some project ∧
    taskNumber < project.nextTaskNumber) ∧
  ∃ key, validKey key = true ∧ name = identifier key taskNumber

theorem takeNumber_issued {db after : Database} {projectId now key : String} {number : ℕ}
    (hdb : db.WellFormed) (h : db.takeNumber projectId now = .ok (after, key, number)) :
    after.WellFormed ∧ after.Issued projectId number (identifier key number) := by
  obtain ⟨project, hproject, -, rfl, rfl, rfl⟩ := takeNumber_ok h
  refine ⟨hdb.setProject (fun _ => rfl) (fun _ hk => hk) fun _ => Nat.le_succ _,
    ⟨{ project with nextTaskNumber := project.nextTaskNumber + 1, updatedAt := now }, ?_,
      Nat.lt_succ_self _⟩, project.key, hdb.keys project (findRow_mem hproject), rfl⟩
  have hid : ∀ other : Project, other.id = projectId →
      ({ other with nextTaskNumber := other.nextTaskNumber + 1, updatedAt := now } : Project).id =
        projectId := fun _ hp => hp
  simp only [setProject]
  rw [findRow_modifyRow hid, if_pos rfl, hproject]
  rfl

theorem replaceLabels_frame {db after : Database} {taskId : String} {labelIds : List String}
    (h : db.replaceLabels taskId labelIds = .ok after) :
    after.projects = db.projects ∧ after.tasks = db.tasks ∧ after.labels = db.labels := by
  have hfold : ∀ (labelIds : List String) (db : Database),
      labelIds.foldlM (fun db labelId => db.insertAssignment taskId labelId) db = .ok after →
      after.projects = db.projects ∧ after.tasks = db.tasks ∧ after.labels = db.labels := by
    intro labelIds
    induction labelIds with
    | nil =>
      intro db h
      obtain rfl := Except.ok.inj h
      exact ⟨rfl, rfl, rfl⟩
    | cons labelId labelIds ih =>
      intro db h
      rw [List.foldlM_cons] at h
      obtain ⟨next, hnext, hrest⟩ := Except.bind_ok.mp h
      obtain ⟨hp, ht, hl⟩ := ih next hrest
      unfold insertAssignment at hnext
      split at hnext
      next => cases hnext
      next =>
        split at hnext
        next => cases hnext
        next =>
          obtain rfl := Except.ok.inj hnext
          exact ⟨hp, ht, hl⟩
  obtain ⟨hp, ht, hl⟩ := hfold labelIds _ h
  exact ⟨hp, ht, hl⟩

namespace WellFormed
variable {db after : Database}

theorem insertTask (h : db.WellFormed) {row : TaskRow}
    (hissued : db.Issued row.projectId row.taskNumber row.identifier)
    (hi : db.insertTask row = .ok after) : after.WellFormed := by
  unfold Database.insertTask at hi
  split at hi
  next => cases hi
  next htitle =>
    split at hi
    next => cases hi
    next hfree =>
      split at hi
      next => cases hi
      next =>
        obtain rfl := Except.ok.inj hi
        have hnewId : findRow TaskRow.id db.tasks row.id = none :=
          findRow_eq_none.mpr fun other ho heq => hfree ⟨other, ho, .inl heq⟩
        have hnewName : findRow TaskRow.identifier db.tasks row.identifier = none :=
          findRow_eq_none.mpr fun other ho heq =>
            hfree ⟨other, ho, .inr (by simp [taskConflict, heq])⟩
        have hrows : ∀ {P : TaskRow → Prop}, (∀ other ∈ db.tasks, P other) → P row →
            ∀ other ∈ db.tasks ++ [row], P other := by
          intro P hall hrow other ho
          rcases List.mem_append.mp ho with ho | ho
          · exact hall other ho
          · obtain rfl := List.mem_singleton.mp ho
            exact hrow
        exact ⟨h.projectIds, h.keys, nodup_push hnewId h.taskIds,
          nodup_push hnewName h.identifiers, hrows h.numbered hissued.1, hrows h.named hissued.2,
          hrows h.titles (by simpa using htitle)⟩

theorem updateTaskRow (h : db.WellFormed) {id : String} {f : TaskRow → TaskRow}
    (hid : ∀ row, (f row).id = row.id)
    (hissued : ∀ row, findRow TaskRow.id db.tasks id = some row →
      db.Issued (f row).projectId (f row).taskNumber (f row).identifier)
    (hu : db.updateTaskRow id f = .ok after) : after.WellFormed := by
  unfold Database.updateTaskRow at hu
  split at hu
  next =>
    obtain rfl := Except.ok.inj hu
    exact h
  next row hrow =>
    split at hu
    next => cases hu
    next htitle =>
      split at hu
      next => cases hu
      next hfree =>
        split at hu
        next => cases hu
        next =>
          obtain rfl := Except.ok.inj hu
          have hrows : ∀ {P : TaskRow → Prop}, (∀ other ∈ db.tasks, P other) → P (f row) →
              ∀ other ∈ modifyRow TaskRow.id id f db.tasks, P other := by
            intro P hall hnew other ho
            rcases mem_modifyRow ho with ho | ⟨old, hold, rfl⟩
            · exact hall other ho
            · obtain rfl := Option.some.inj (hrow.symm.trans hold)
              exact hnew
          refine ⟨h.projectIds, h.keys, ?_, ?_, hrows h.numbered (hissued row hrow).1,
            hrows h.named (hissued row hrow).2, hrows h.titles (by simpa using htitle)⟩
          · dsimp only
            rw [map_key_modifyRow fun other ho => (hid other).trans ho]
            exact h.taskIds
          · refine nodup_map_modifyRow h.taskIds h.identifiers fun old hold other ho hne heq => ?_
            obtain rfl := Option.some.inj (hrow.symm.trans hold)
            exact hfree ⟨other, ho, hne, by simp [taskConflict, heq]⟩

theorem removeTasks (h : db.WellFormed) (p : TaskRow → Bool) : (db.removeTasks p).WellFormed where
  projectIds := h.projectIds
  keys := h.keys
  taskIds := h.taskIds.sublist (List.filter_sublist.map _)
  identifiers := h.identifiers.sublist (List.filter_sublist.map _)
  numbered := fun row hrow => h.numbered row (List.mem_of_mem_filter hrow)
  named := fun row hrow => h.named row (List.mem_of_mem_filter hrow)
  titles := fun row hrow => h.titles row (List.mem_of_mem_filter hrow)

/-- A project may go when none of its tasks is left. -/
theorem removeProject (h : db.WellFormed) {id : String}
    (hnone : ∀ row ∈ db.tasks, row.projectId ≠ id) :
    WellFormed { db with
      projects := db.projects.filter fun project => decide (project.id ≠ id) } where
  projectIds := h.projectIds.sublist (List.filter_sublist.map _)
  keys := fun project hp => h.keys project (List.mem_of_mem_filter hp)
  taskIds := h.taskIds
  identifiers := h.identifiers
  numbered := by
    intro row hrow
    obtain ⟨owner, howner, hlt⟩ := h.numbered row hrow
    have hkey := findRow_key howner
    have hkept : owner ∈ db.projects.filter fun project => decide (project.id ≠ id) := by
      refine List.mem_filter.mpr ⟨findRow_mem howner, ?_⟩
      simpa [hkey] using hnone row hrow
    have hfound := findRow_of_mem (h.projectIds.sublist (List.filter_sublist.map _)) hkept
    rw [hkey] at hfound
    exact ⟨owner, hfound, hlt⟩
  named := h.named
  titles := h.titles

end WellFormed

/-! ## Handlers -/

/-- A handler leaves the old database or what its transaction committed. -/
theorem answer_fst {α : Type} {db : Database} {result : Except TaskError Database}
    {read : Database → Except TaskError α} {P : Database → Prop} (hdb : P db)
    (hresult : ∀ after, result = .ok after → P after) : P (db.answer result read).1 := by
  cases result with
  | ok after => exact hresult after rfl
  | error error => exact hdb

namespace WellFormed
variable {db after : Database} {casing : Casing}

theorem createProject (h : db.WellFormed) (input : CreateProject) (id now : String) :
    (db.createProject casing input id now).1.WellFormed := by
  refine answer_fst h fun after hresult => ?_
  obtain ⟨name, -, hresult⟩ := Except.bind_ok.mp hresult
  obtain ⟨_, hkey, hresult⟩ := Except.bind_ok.mp hresult
  obtain ⟨_, -, hresult⟩ := Except.bind_ok.mp hresult
  refine h.insertProject ?_ (Except.mapError_ok.mp hresult)
  unfold validateKey at hkey
  split at hkey
  next hvalid => exact hvalid
  next => cases hkey

theorem mergeProject_key {input : Value} {current : Project} {merged : MergedProject}
    (hm : mergeProject casing input current = .ok merged) : validKey merged.key = true := by
  obtain ⟨_, -, hm⟩ := Except.bind_ok.mp hm
  obtain ⟨_, -, hm⟩ := Except.bind_ok.mp hm
  obtain ⟨key, -, hm⟩ := Except.bind_ok.mp hm
  obtain ⟨_, hkey, hm⟩ := Except.bind_ok.mp hm
  obtain ⟨_, -, hm⟩ := Except.bind_ok.mp hm
  obtain ⟨_, -, hm⟩ := Except.bind_ok.mp hm
  obtain ⟨_, -, hm⟩ := Except.bind_ok.mp hm
  obtain rfl := Except.ok.inj hm
  unfold validateKey at hkey
  split at hkey
  next hvalid => exact hvalid
  next => cases hkey

theorem updateProject (h : db.WellFormed) (id : String) (input : Value) (now : String) :
    (db.updateProject casing id input now).1.WellFormed := by
  refine answer_fst h fun after hresult => ?_
  obtain ⟨current, -, hresult⟩ := Except.bind_ok.mp hresult
  obtain ⟨merged, hmerged, hresult⟩ := Except.bind_ok.mp hresult
  exact h.updateProjectRow (mergeProject_key hmerged) (Except.mapError_ok.mp hresult)

theorem deleteProject (h : db.WellFormed) (id : String) (cascade : Bool) :
    (db.deleteProject id cascade).1.WellFormed := by
  have hafter : ∀ emptied : Database, emptied.WellFormed →
      (∀ row ∈ emptied.tasks, row.projectId ≠ id) →
      WellFormed { emptied with
        projects := emptied.projects.filter fun project => decide (project.id ≠ id) } :=
    fun emptied hemptied hnone => hemptied.removeProject hnone
  unfold Database.deleteProject
  dsimp only
  split
  next => exact h
  next hempty =>
    have hemptied : WellFormed { (if cascade = true then
          db.removeTasks fun row => decide (row.projectId = id) else db) with
        projects := (if cascade = true then
          db.removeTasks fun row => decide (row.projectId = id) else db).projects.filter
            fun project => decide (project.id ≠ id) } := by
      cases cascade with
      | true =>
        refine hafter _ (h.removeTasks _) fun row hrow => ?_
        simpa using (List.mem_filter.mp hrow).2
      | false =>
        refine hafter _ h fun row hrow heq => hempty ⟨?_, rfl⟩
        exact List.length_pos_of_mem (List.mem_filter.mpr ⟨hrow, by simpa using heq⟩)
    split
    next => exact hemptied
    next => exact hemptied

theorem createLabel (h : db.WellFormed) (input : CreateLabel) (id now : String) :
    (db.createLabel casing input id now).1.WellFormed := by
  refine answer_fst h fun after hresult => ?_
  obtain ⟨name, -, hresult⟩ := Except.bind_ok.mp hresult
  obtain ⟨_, -, hresult⟩ := Except.bind_ok.mp hresult
  have hinsert := Except.mapError_ok.mp hresult
  unfold insertLabel at hinsert
  split at hinsert
  next => cases hinsert
  next =>
    obtain rfl := Except.ok.inj hinsert
    exact h.congr rfl rfl

theorem updateLabel (h : db.WellFormed) (id : String) (input : Value) :
    (db.updateLabel casing id input).1.WellFormed := by
  refine answer_fst h fun after hresult => ?_
  obtain ⟨current, -, hresult⟩ := Except.bind_ok.mp hresult
  obtain ⟨_, -, hresult⟩ := Except.bind_ok.mp hresult
  obtain ⟨name, -, hresult⟩ := Except.bind_ok.mp hresult
  obtain ⟨_, -, hresult⟩ := Except.bind_ok.mp hresult
  obtain ⟨_, -, hresult⟩ := Except.bind_ok.mp hresult
  have hupdate := Except.mapError_ok.mp hresult
  unfold updateLabelRow at hupdate
  split at hupdate
  next => cases hupdate
  next =>
    obtain rfl := Except.ok.inj hupdate
    exact h.congr rfl rfl

theorem deleteLabel (h : db.WellFormed) (id : String) : (db.deleteLabel id).1.WellFormed := by
  unfold Database.deleteLabel
  split
  next => exact h
  next => exact h.congr rfl rfl

theorem replaceLabels (h : db.WellFormed) {taskId : String} {labelIds : List String}
    (hr : db.replaceLabels taskId labelIds = .ok after) : after.WellFormed := by
  obtain ⟨hp, ht, -⟩ := replaceLabels_frame hr
  exact h.congr hp ht

theorem createTask (h : db.WellFormed) (input : CreateTask) (id now : String) (nowMillis : ℕ) :
    (db.createTask input id now nowMillis).1.WellFormed := by
  refine answer_fst h fun after hresult => ?_
  obtain ⟨task, -, hresult⟩ := Except.bind_ok.mp hresult
  have hwrite := Except.mapError_ok.mp hresult
  obtain ⟨⟨numbered, key, number⟩, htake, hwrite⟩ := Except.bind_ok.mp hwrite
  obtain ⟨inserted, hinsert, hlabels⟩ := Except.bind_ok.mp hwrite
  obtain ⟨hnumbered, hissued⟩ := takeNumber_issued h htake
  exact (hnumbered.insertTask hissued hinsert).replaceLabels hlabels

theorem place {current : TaskRow} {requestedProject now : String} {placement : Placement}
    (h : db.WellFormed) (hcurrent : current ∈ db.tasks)
    (hp : db.place current requestedProject now = .ok (after, placement)) :
    after.WellFormed ∧ after.tasks = db.tasks ∧
      after.Issued placement.projectId placement.taskNumber placement.identifier := by
  unfold Database.place at hp
  split at hp
  next =>
    simp only [Except.ok.injEq, Prod.mk.injEq] at hp
    obtain ⟨rfl, rfl⟩ := hp
    exact ⟨h, rfl, h.numbered current hcurrent, h.named current hcurrent⟩
  next =>
    obtain ⟨⟨numbered, key, number⟩, htake, hp⟩ := Except.bind_ok.mp hp
    simp only [pure, Except.pure, Except.ok.injEq, Prod.mk.injEq] at hp
    obtain ⟨rfl, rfl⟩ := hp
    obtain ⟨hafter, hissued⟩ := takeNumber_issued h htake
    obtain ⟨-, -, -, -, -, rfl⟩ := takeNumber_ok htake
    exact ⟨hafter, rfl, hissued⟩

/-- The rows that `writeTask` produces. -/
theorem writeTask (h : db.WellFormed) {id now : String} {current : TaskRow} {merged : MergedTask}
    (hcurrent : current ∈ db.tasks) (hw : db.writeTask id current merged now = .ok after) :
    after.WellFormed := by
  obtain ⟨⟨placed, placement⟩, hplace, hw⟩ := Except.bind_ok.mp hw
  obtain ⟨updated, hupdate, hlabels⟩ := Except.bind_ok.mp hw
  obtain ⟨hplaced, -, hissued⟩ := h.place hcurrent hplace
  have hupdated : updated.WellFormed := by
    refine hplaced.updateTaskRow ?_ ?_ hupdate
    · exact fun _ => rfl
    · exact fun _ _ => hissued
  split at hlabels
  next => exact hupdated.replaceLabels hlabels
  next =>
    obtain rfl := Except.ok.inj hlabels
    exact hupdated

end WellFormed

theorem findTask_ok {db : Database} {id : String} {task : Task} (h : db.findTask id = .ok task) :
    findRow TaskRow.id db.tasks id = some task.row := by
  unfold findTask at h
  split at h
  next => cases h
  next row hrow =>
    split at h
    next => cases h
    next =>
      obtain rfl := Except.ok.inj h
      exact hrow

namespace WellFormed
variable {db after : Database} {casing : Casing}

theorem updateTask (h : db.WellFormed) (id : String) (input : Value) (now : String) :
    (db.updateTask id input now).1.WellFormed := by
  refine answer_fst h fun after hresult => ?_
  obtain ⟨current, hcurrent, hresult⟩ := Except.bind_ok.mp hresult
  obtain ⟨merged, -, hresult⟩ := Except.bind_ok.mp hresult
  exact h.writeTask (findRow_mem (findTask_ok hcurrent)) (Except.mapError_ok.mp hresult)

theorem deleteTask (h : db.WellFormed) (id : String) : (db.deleteTask id).1.WellFormed := by
  unfold Database.deleteTask
  split
  next => exact h
  next => exact h.removeTasks _

end WellFormed

/-- The requests that change the tables. -/
inductive Operation
  | createProject (input : CreateProject) (id now : String)
  | updateProject (id : String) (input : Value) (now : String)
  | deleteProject (id : String) (cascade : Bool)
  | createLabel (input : CreateLabel) (id now : String)
  | updateLabel (id : String) (input : Value)
  | deleteLabel (id : String)
  | createTask (input : CreateTask) (id now : String) (nowMillis : ℕ)
  | updateTask (id : String) (input : Value) (now : String)
  | deleteTask (id : String)

def step (casing : Casing) (db : Database) : Operation → Database
  | .createProject input id now => (db.createProject casing input id now).1
  | .updateProject id input now => (db.updateProject casing id input now).1
  | .deleteProject id cascade => (db.deleteProject id cascade).1
  | .createLabel input id now => (db.createLabel casing input id now).1
  | .updateLabel id input => (db.updateLabel casing id input).1
  | .deleteLabel id => (db.deleteLabel id).1
  | .createTask input id now nowMillis => (db.createTask input id now nowMillis).1
  | .updateTask id input now => (db.updateTask id input now).1
  | .deleteTask id => (db.deleteTask id).1

/-- The tables after the given requests, from the first start on. -/
def run (casing : Casing) (projectId now : String) (operations : List Operation) : Database :=
  operations.foldl (step casing) (seedDefaultProject projectId now .empty)

theorem WellFormed.step {db : Database} {casing : Casing} (h : db.WellFormed)
    (operation : Operation) : (db.step casing operation).WellFormed := by
  cases operation with
  | createProject input id now => exact h.createProject input id now
  | updateProject id input now => exact h.updateProject id input now
  | deleteProject id cascade => exact h.deleteProject id cascade
  | createLabel input id now => exact h.createLabel input id now
  | updateLabel id input => exact h.updateLabel id input
  | deleteLabel id => exact h.deleteLabel id
  | createTask input id now nowMillis => exact h.createTask input id now nowMillis
  | updateTask id input now => exact h.updateTask id input now
  | deleteTask id => exact h.deleteTask id

theorem wellFormed_seed (projectId now : String) :
    (seedDefaultProject projectId now .empty).WellFormed where
  projectIds := List.nodup_singleton _
  keys := by
    intro project hp
    obtain rfl := List.mem_singleton.mp hp
    have hkey : validKey "DSP" = true := by decide +kernel
    exact hkey
  taskIds := .nil
  identifiers := .nil
  numbered := fun _ h => absurd h List.not_mem_nil
  named := fun _ h => absurd h List.not_mem_nil
  titles := fun _ h => absurd h List.not_mem_nil

theorem wellFormed_run (casing : Casing) (projectId now : String) (operations : List Operation) :
    (run casing projectId now operations).WellFormed := by
  have hfold : ∀ db : Database, db.WellFormed → (operations.foldl (step casing) db).WellFormed := by
    induction operations with
    | nil => exact fun _ h => h
    | cons operation operations ih => exact fun db h => ih _ (h.step operation)
  exact hfold _ (wellFormed_seed projectId now)

/-! ## When a number can be given -/

/-- The project's next identifier is free: its counter is not at the last integer, and no task of
another project, but for one that is moving, bears the identifier. -/
def CanNumber (db : Database) (projectId : String) (moving : Option String) : Prop :=
  ∀ project, findRow Project.id db.projects projectId = some project →
    project.nextTaskNumber < integerMax ∧
    ∀ row ∈ db.tasks, row.projectId ≠ projectId → moving ≠ some row.id →
      row.identifier ≠ identifier project.key project.nextTaskNumber

/-- A label is stored. -/
def HasLabel (db : Database) (labelId : String) : Prop :=
  ∃ label, findRow Label.id db.labels labelId = some label

variable {db after : Database}

/-- No task of the project itself has the next number or identifier. -/
theorem WellFormed.own_free (h : db.WellFormed) {project : Project} {row : TaskRow}
    (hproject : findRow Project.id db.projects row.projectId = some project)
    (hrow : row ∈ db.tasks) : row.taskNumber ≠ project.nextTaskNumber ∧
      row.identifier ≠ identifier project.key project.nextTaskNumber := by
  obtain ⟨owner, howner, hlt⟩ := h.numbered row hrow
  obtain rfl := Option.some.inj (hproject.symm.trans howner)
  obtain ⟨key, hkey, hname⟩ := h.named row hrow
  refine ⟨hlt.ne, fun heq => ?_⟩
  rw [hname] at heq
  exact hlt.ne (identifier_injective hkey (h.keys project (findRow_mem hproject)) heq).2

theorem takeNumber_succeeds {projectId now : String} {project : Project}
    (hproject : findRow Project.id db.projects projectId = some project)
    (hnext : project.nextTaskNumber < integerMax) :
    db.takeNumber projectId now = .ok (db.setProject projectId fun project =>
      { project with nextTaskNumber := project.nextTaskNumber + 1, updatedAt := now },
      project.key, project.nextTaskNumber) := by
  unfold takeNumber
  rw [hproject]
  exact if_pos hnext

theorem insertTask_succeeds {row : TaskRow} (htitle : titleCheck row.title = true)
    (hfree : ∀ other ∈ db.tasks, other.id ≠ row.id ∧ taskConflict row other = false)
    (hproject : findRow Project.id db.projects row.projectId ≠ none) :
    db.insertTask row = .ok { db with tasks := db.tasks ++ [row] } := by
  unfold insertTask
  rw [if_neg (by simp [htitle]), if_neg ?_, if_neg hproject]
  rintro ⟨other, ho, hid | hconflict⟩
  · exact (hfree other ho).1 hid
  · rw [(hfree other ho).2] at hconflict
    cases hconflict

theorem insertTask_free {row : TaskRow} (h : db.insertTask row = .ok after) :
    ∀ other ∈ db.tasks, other.identifier ≠ row.identifier := by
  unfold insertTask at h
  split at h
  next => cases h
  next =>
    split at h
    next => cases h
    next hfree =>
      exact fun other ho heq => hfree ⟨other, ho, .inr (by simp [taskConflict, heq])⟩

theorem updateTaskRow_succeeds {id : String} {f : TaskRow → TaskRow} {row : TaskRow}
    (hrow : findRow TaskRow.id db.tasks id = some row)
    (htitle : titleCheck (f row).title = true)
    (hfree : ∀ other ∈ db.tasks, other.id ≠ id → taskConflict (f row) other = false)
    (hproject : findRow Project.id db.projects (f row).projectId ≠ none) :
    db.updateTaskRow id f = .ok { db with tasks := modifyRow TaskRow.id id f db.tasks } := by
  unfold updateTaskRow
  rw [hrow]
  dsimp only
  rw [if_neg (by simp [htitle]), if_neg ?_, if_neg hproject]
  rintro ⟨other, ho, hne, hconflict⟩
  rw [hfree other ho hne] at hconflict
  cases hconflict

theorem updateTaskRow_free {id : String} {f : TaskRow → TaskRow} {row : TaskRow}
    (hrow : findRow TaskRow.id db.tasks id = some row) (h : db.updateTaskRow id f = .ok after) :
    ∀ other ∈ db.tasks, other.id ≠ id → other.identifier ≠ (f row).identifier := by
  unfold updateTaskRow at h
  rw [hrow] at h
  dsimp only at h
  split at h
  next => cases h
  next =>
    split at h
    next => cases h
    next hfree =>
      exact fun other ho hne heq => hfree ⟨other, ho, hne, by simp [taskConflict, heq]⟩

theorem replaceLabels_succeeds {taskId : String} {labelIds : List String}
    (htask : findRow TaskRow.id db.tasks taskId ≠ none) (hnodup : labelIds.Nodup)
    (hlabels : ∀ labelId ∈ labelIds, db.HasLabel labelId) :
    ∃ after, db.replaceLabels taskId labelIds = .ok after := by
  have hfold : ∀ (labelIds : List String) (db : Database),
      findRow TaskRow.id db.tasks taskId ≠ none → labelIds.Nodup →
      (∀ labelId ∈ labelIds, db.HasLabel labelId) →
      (∀ labelId ∈ labelIds, ⟨taskId, labelId⟩ ∉ db.assignments) →
      ∃ after, labelIds.foldlM (fun db labelId => db.insertAssignment taskId labelId) db =
        .ok after := by
    intro labelIds
    induction labelIds with
    | nil => exact fun db _ _ _ _ => ⟨db, rfl⟩
    | cons labelId labelIds ih =>
      intro db htask hnodup hlabels hfree
      obtain ⟨hnotin, hnodup⟩ := List.nodup_cons.mp hnodup
      obtain ⟨label, hlabel⟩ := hlabels labelId List.mem_cons_self
      have hinsert : db.insertAssignment taskId labelId =
          .ok { db with assignments := db.assignments ++ [⟨taskId, labelId⟩] } := by
        unfold insertAssignment
        rw [if_neg (hfree labelId List.mem_cons_self), if_neg]
        rintro (hnone | hnone)
        · exact htask hnone
        · rw [hlabel] at hnone
          cases hnone
      rw [List.foldlM_cons, hinsert]
      refine ih _ htask hnodup (fun other ho => hlabels other (List.mem_cons_of_mem _ ho))
        fun other ho hmem => ?_
      rcases List.mem_append.mp hmem with hmem | hmem
      · exact hfree other (List.mem_cons_of_mem _ ho) hmem
      · simp only [List.mem_singleton, Assignment.mk.injEq, true_and] at hmem
        exact hnotin (hmem ▸ ho)
  refine hfold labelIds _ htask hnodup hlabels fun labelId _ hmem => ?_
  simpa using (List.mem_filter.mp hmem).2

theorem WellFormed.findTask_succeeds (h : db.WellFormed) {id : String} {row : TaskRow}
    (hrow : findRow TaskRow.id db.tasks id = some row) : ∃ task, db.findTask id = .ok task := by
  obtain ⟨project, hproject, -⟩ := h.numbered row (findRow_mem hrow)
  refine ⟨⟨row, project, db.labelsOf id⟩, ?_⟩
  unfold findTask
  rw [hrow]
  dsimp only
  rw [hproject]

theorem nodup_deduplicate (values : List String) : (deduplicate values).Nodup :=
  List.nodup_reverse.mpr (List.nodup_dedup _)

theorem checkTask_labels {input : CreateTask} {task : NewTask} (h : checkTask input = .ok task) :
    task.labels.Nodup := by
  obtain ⟨_, -, h⟩ := Except.bind_ok.mp h
  obtain ⟨_, -, h⟩ := Except.bind_ok.mp h
  obtain ⟨_, -, h⟩ := Except.bind_ok.mp h
  obtain ⟨_, -, h⟩ := Except.bind_ok.mp h
  obtain rfl := Except.ok.inj h
  exact nodup_deduplicate _

theorem mergeTask_labels {input : Value} {current : TaskRow} {merged : MergedTask}
    (h : mergeTask input current = .ok merged) {labelIds : List String}
    (hl : merged.labelIds = some labelIds) : labelIds.Nodup := by
  obtain ⟨_, -, h⟩ := Except.bind_ok.mp h
  obtain ⟨_, -, h⟩ := Except.bind_ok.mp h
  obtain ⟨_, -, h⟩ := Except.bind_ok.mp h
  obtain ⟨_, -, h⟩ := Except.bind_ok.mp h
  obtain ⟨_, -, h⟩ := Except.bind_ok.mp h
  obtain ⟨_, -, h⟩ := Except.bind_ok.mp h
  obtain ⟨_, -, h⟩ := Except.bind_ok.mp h
  obtain ⟨_, -, h⟩ := Except.bind_ok.mp h
  obtain ⟨_, -, h⟩ := Except.bind_ok.mp h
  obtain ⟨_, -, h⟩ := Except.bind_ok.mp h
  obtain ⟨_, -, h⟩ := Except.bind_ok.mp h
  obtain ⟨given, -, h⟩ := Except.bind_ok.mp h
  obtain rfl := Except.ok.inj h
  obtain ⟨values, -, rfl⟩ := Option.map_eq_some_iff.mp hl
  exact nodup_deduplicate values

/-- Whether a request succeeded, from what its transaction and the final read do. -/
theorem answer_ok {α : Type} {result : Except TaskError Database}
    {read : Database → Except TaskError α} :
    (∃ a, (db.answer result read).2 = .ok a) ↔
      ∃ after, result = .ok after ∧ ∃ a, read after = .ok a := by
  cases result with
  | ok after => simp [answer]
  | error error => simp [answer]

/-- A valid request for a new task of a stored project. -/
structure ValidTask (db : Database) (input : CreateTask) (task : NewTask) (id : String) :
    Prop where
  checked : checkTask input = .ok task
  title : titleCheck task.title = true
  labels : ∀ labelId ∈ task.labels, db.HasLabel labelId
  project : ∃ project, findRow Project.id db.projects input.projectId = some project
  /-- A random identifier is a new one. -/
  fresh : ∀ row ∈ db.tasks, row.id ≠ id

/-- A valid request that moves a stored task to another stored project. -/
structure ValidMove (db : Database) (id : String) (input : Value) (current : Task)
    (merged : MergedTask) : Prop where
  found : db.findTask id = .ok current
  accepted : mergeTask input current.row = .ok merged
  title : titleCheck merged.title = true
  labels : ∀ labelIds, merged.labelIds = some labelIds → ∀ labelId ∈ labelIds, db.HasLabel labelId
  moves : merged.requestedProject ≠ current.row.projectId
  project : ∃ project, findRow Project.id db.projects merged.requestedProject = some project

theorem find_setProject_ne_none {projectId id : String} {f : Project → Project}
    (hid : ∀ project : Project, project.id = id → (f project).id = id)
    (h : findRow Project.id db.projects projectId ≠ none) :
    findRow Project.id (db.setProject id f).projects projectId ≠ none := by
  simp only [setProject]
  rw [findRow_modifyRow hid]
  split
  next heq =>
    rw [heq] at h
    simpa using h
  next => exact h

/-- With a free number, the transaction of a valid request commits. -/
theorem writeNewTask_succeeds (h : db.WellFormed) {input : CreateTask} {task : NewTask}
    {id now : String} {nowMillis : ℕ} (hvalid : db.ValidTask input task id)
    (hcan : db.CanNumber input.projectId none) :
    ∃ after row, db.writeNewTask input task id now nowMillis = .ok after ∧ after.WellFormed ∧
      findRow TaskRow.id after.tasks id = some row := by
  obtain ⟨project, hproject⟩ := hvalid.project
  obtain ⟨hnext, hfree⟩ := hcan project hproject
  have htake : db.takeNumber input.projectId now = _ := takeNumber_succeeds hproject hnext
  obtain ⟨hnumbered, hissued⟩ := takeNumber_issued h htake
  obtain ⟨numbered, hsame⟩ : ∃ numbered, numbered = db.setProject input.projectId fun project =>
    { project with nextTaskNumber := project.nextTaskNumber + 1, updatedAt := now } := ⟨_, rfl⟩
  rw [← hsame] at htake hnumbered hissued
  have htasks : numbered.tasks = db.tasks := by rw [hsame]; rfl
  have hlabelRows : numbered.labels = db.labels := by rw [hsame]; rfl
  have hstored : findRow Project.id numbered.projects input.projectId ≠ none := by
    rw [hsame]
    exact find_setProject_ne_none (fun _ hp => hp) (by rw [hproject]; simp)
  obtain ⟨row, hrow⟩ : ∃ row : TaskRow, row =
      { id, projectId := input.projectId, taskNumber := project.nextTaskNumber
        identifier := identifier project.key project.nextTaskNumber
        title := task.title, description := input.description, status := task.status
        priority := task.priority, dueDate := input.dueDate, sortOrder := nowMillis
        createdAt := now, updatedAt := now
        completedAt := if task.status = .done then some now else none } := ⟨_, rfl⟩
  have hid : row.id = id := by rw [hrow]
  have hinsert : numbered.insertTask row = .ok { numbered with tasks := numbered.tasks ++ [row] } := by
    refine insertTask_succeeds ?_ (fun other ho => ?_) ?_
    · rw [hrow]
      exact hvalid.title
    · rw [htasks] at ho
      rw [hrow]
      refine ⟨hvalid.fresh other ho, ?_⟩
      by_cases hown : other.projectId = input.projectId
      · rw [← hown] at hproject
        obtain ⟨hnumber, hname⟩ := h.own_free hproject ho
        simp [taskConflict, hnumber, hname]
      · have hname := hfree other ho hown (by simp)
        simp [taskConflict, hown, hname]
    · rw [hrow]
      exact hstored
  have hinserted : WellFormed { numbered with tasks := numbered.tasks ++ [row] } := by
    refine hnumbered.insertTask ?_ hinsert
    rw [hrow]
    exact hissued
  have hfound : findRow TaskRow.id (numbered.tasks ++ [row]) id = some row := by
    have hnew : findRow TaskRow.id numbered.tasks row.id = none := by
      rw [htasks, hid]
      exact findRow_eq_none.mpr hvalid.fresh
    rw [findRow_push hnew, if_pos hid.symm]
  obtain ⟨after, hafter⟩ : ∃ after, replaceLabels { numbered with tasks := numbered.tasks ++ [row] }
      id task.labels = .ok after := by
    refine replaceLabels_succeeds (by rw [hfound]; simp) (checkTask_labels hvalid.checked) ?_
    intro labelId hl
    obtain ⟨label, hlabel⟩ := hvalid.labels labelId hl
    exact ⟨label, by rw [hlabelRows]; exact hlabel⟩
  obtain ⟨-, hsameTasks, -⟩ := replaceLabels_frame hafter
  refine ⟨after, row, ?_, hinserted.replaceLabels hafter, ?_⟩
  · exact Except.bind_ok.mpr ⟨_, htake, Except.bind_ok.mpr
      ⟨_, by rw [← hrow]; exact hinsert, hafter⟩⟩
  · rw [hsameTasks]
    exact hfound

theorem createTask_iff (h : db.WellFormed) {input : CreateTask} {task : NewTask} {id now : String}
    {nowMillis : ℕ} (hvalid : db.ValidTask input task id) :
    (∃ created, (db.createTask input id now nowMillis).2 = .ok created) ↔
      db.CanNumber input.projectId none := by
  rw [createTask, answer_ok]
  constructor
  · rintro ⟨after, hresult, -⟩ project hproject
    obtain ⟨checked, -, hresult⟩ := Except.bind_ok.mp hresult
    obtain ⟨⟨numbered, key, number⟩, htake, hwrite⟩ :=
      Except.bind_ok.mp (Except.mapError_ok.mp hresult)
    obtain ⟨inserted, hinsert, -⟩ := Except.bind_ok.mp hwrite
    obtain ⟨found, hfound, hnext, rfl, rfl, rfl⟩ := takeNumber_ok htake
    obtain rfl := Option.some.inj (hproject.symm.trans hfound)
    exact ⟨hnext, fun row hrow _ _ => insertTask_free hinsert row hrow⟩
  · intro hcan
    obtain ⟨after, row, hwrite, hafter, hrow⟩ := writeNewTask_succeeds h hvalid hcan
    refine ⟨after, ?_, hafter.findTask_succeeds hrow⟩
    exact Except.bind_ok.mpr ⟨task, hvalid.checked, Except.mapError_ok.mpr hwrite⟩

/-- With a free number, the transaction of a valid move commits. -/
theorem writeMove_succeeds (h : db.WellFormed) {id now : String} {input : Value} {current : Task}
    {merged : MergedTask} (hvalid : db.ValidMove id input current merged)
    (hcan : db.CanNumber merged.requestedProject (some id)) :
    ∃ after row, db.writeTask id current.row merged now = .ok after ∧ after.WellFormed ∧
      findRow TaskRow.id after.tasks id = some row := by
  obtain ⟨project, hproject⟩ := hvalid.project
  obtain ⟨hnext, hfree⟩ := hcan project hproject
  have hcurrent := findTask_ok hvalid.found
  have htake : db.takeNumber merged.requestedProject now = _ := takeNumber_succeeds hproject hnext
  obtain ⟨hnumbered, hissued⟩ := takeNumber_issued h htake
  obtain ⟨numbered, hsame⟩ : ∃ numbered, numbered = db.setProject merged.requestedProject
    fun project =>
      { project with nextTaskNumber := project.nextTaskNumber + 1, updatedAt := now } := ⟨_, rfl⟩
  rw [← hsame] at htake hnumbered hissued
  have htasks : numbered.tasks = db.tasks := by rw [hsame]; rfl
  have hlabelRows : numbered.labels = db.labels := by rw [hsame]; rfl
  have hstored : findRow Project.id numbered.projects merged.requestedProject ≠ none := by
    rw [hsame]
    exact find_setProject_ne_none (fun _ hp => hp) (by rw [hproject]; simp)
  have hplace : db.place current.row merged.requestedProject now = .ok (numbered,
      ⟨merged.requestedProject, project.nextTaskNumber,
        identifier project.key project.nextTaskNumber⟩) := by
    unfold place
    rw [if_neg hvalid.moves]
    exact Except.bind_ok.mpr ⟨_, htake, rfl⟩
  obtain ⟨f, hf⟩ : ∃ f : TaskRow → TaskRow, f = fun row =>
    { row with
      projectId := merged.requestedProject, taskNumber := project.nextTaskNumber
      identifier := identifier project.key project.nextTaskNumber, title := merged.title
      description := merged.description, status := merged.status, priority := merged.priority
      dueDate := merged.dueDate, sortOrder := merged.sortOrder, updatedAt := now
      completedAt :=
        if merged.status = .done then current.row.completedAt.or (some now) else none } :=
    ⟨_, rfl⟩
  have hid : ∀ row : TaskRow, (f row).id = row.id := by rw [hf]; exact fun _ => rfl
  have hrow : findRow TaskRow.id numbered.tasks id = some current.row := by
    rw [htasks]
    exact hcurrent
  have hupdate : numbered.updateTaskRow id f =
      .ok { numbered with tasks := modifyRow TaskRow.id id f numbered.tasks } := by
    refine updateTaskRow_succeeds hrow ?_ (fun other ho hne => ?_) ?_
    · rw [hf]
      exact hvalid.title
    · rw [htasks] at ho
      rw [hf]
      by_cases hown : other.projectId = merged.requestedProject
      · rw [← hown] at hproject
        obtain ⟨hnumber, hname⟩ := h.own_free hproject ho
        simp [taskConflict, hnumber, hname]
      · have hname := hfree other ho hown (fun heq => hne (Option.some.inj heq).symm)
        simp [taskConflict, hown, hname]
    · rw [hf]
      exact hstored
  have hupdated : WellFormed { numbered with
      tasks := modifyRow TaskRow.id id f numbered.tasks } := by
    refine hnumbered.updateTaskRow hid (fun row _ => ?_) hupdate
    rw [hf]
    exact hissued
  have hfound : findRow TaskRow.id (modifyRow TaskRow.id id f numbered.tasks) id =
      some (f current.row) := by
    rw [findRow_modifyRow fun row hr => (hid row).trans hr, if_pos rfl, hrow]
    rfl
  cases hl : merged.labelIds with
  | none =>
    refine ⟨_, _, Except.bind_ok.mpr ⟨_, hplace, Except.bind_ok.mpr
      ⟨_, by rw [hf] at hupdate; exact hupdate, ?_⟩⟩, hupdated, hfound⟩
    rw [hl, hf]
    rfl
  | some labelIds =>
    obtain ⟨after, hafter⟩ : ∃ after, replaceLabels { numbered with
        tasks := modifyRow TaskRow.id id f numbered.tasks } id labelIds = .ok after := by
      refine replaceLabels_succeeds (by rw [hfound]; simp) (mergeTask_labels hvalid.accepted hl) ?_
      intro labelId hmem
      obtain ⟨label, hlabel⟩ := hvalid.labels labelIds hl labelId hmem
      exact ⟨label, by rw [hlabelRows]; exact hlabel⟩
    obtain ⟨-, hsameTasks, -⟩ := replaceLabels_frame hafter
    refine ⟨after, f current.row, Except.bind_ok.mpr ⟨_, hplace, Except.bind_ok.mpr
      ⟨_, by rw [hf] at hupdate; exact hupdate, ?_⟩⟩, hupdated.replaceLabels hafter, ?_⟩
    · rw [hl]
      rw [hf] at hafter
      exact hafter
    · rw [hsameTasks]
      exact hfound

theorem moveTask_iff (h : db.WellFormed) {id now : String} {input : Value} {current : Task}
    {merged : MergedTask} (hvalid : db.ValidMove id input current merged) :
    (∃ moved, (db.updateTask id input now).2 = .ok moved) ↔
      db.CanNumber merged.requestedProject (some id) := by
  rw [updateTask, answer_ok]
  constructor
  · rintro ⟨after, hresult, -⟩ project hproject
    have hcurrent := findTask_ok hvalid.found
    obtain ⟨found, hfound, hresult⟩ := Except.bind_ok.mp hresult
    obtain rfl := Except.ok.inj (hvalid.found.symm.trans hfound)
    obtain ⟨fields, hfields, hresult⟩ := Except.bind_ok.mp hresult
    obtain rfl := Except.ok.inj (hvalid.accepted.symm.trans hfields)
    obtain ⟨⟨numbered, placement⟩, hplace, hwrite⟩ :=
      Except.bind_ok.mp (Except.mapError_ok.mp hresult)
    obtain ⟨updated, hupdate, -⟩ := Except.bind_ok.mp hwrite
    unfold place at hplace
    rw [if_neg hvalid.moves] at hplace
    obtain ⟨⟨taken, key, number⟩, htake, hplace⟩ := Except.bind_ok.mp hplace
    simp only [pure, Except.pure, Except.ok.injEq, Prod.mk.injEq] at hplace
    obtain ⟨rfl, rfl⟩ := hplace
    obtain ⟨owner, howner, hnext, rfl, rfl, rfl⟩ := takeNumber_ok htake
    obtain rfl := Option.some.inj (hproject.symm.trans howner)
    have hrow : findRow TaskRow.id (db.setProject merged.requestedProject fun project =>
        { project with nextTaskNumber := project.nextTaskNumber + 1, updatedAt := now }).tasks id =
        some current.row := hcurrent
    refine ⟨hnext, fun row hmem _ hmoving => ?_⟩
    exact updateTaskRow_free hrow hupdate row hmem fun heq => hmoving (heq ▸ rfl)
  · intro hcan
    obtain ⟨after, row, hwrite, hafter, hrow⟩ := writeMove_succeeds h hvalid hcan
    refine ⟨after, ?_, hafter.findTask_succeeds hrow⟩
    exact Except.bind_ok.mpr ⟨current, hvalid.found, Except.bind_ok.mpr
      ⟨merged, hvalid.accepted, Except.mapError_ok.mpr hwrite⟩⟩

/-- After any requests, identifiers are distinct, and a valid request for a new task or a move
succeeds exactly when no task of another project bears the identifier that is due. -/
theorem identifiers_distinct (casing : Casing) (projectId now : String)
    (operations : List Operation) :
    let db := run casing projectId now operations
    (db.tasks.map TaskRow.identifier).Nodup ∧
    (∀ input task id now nowMillis, db.ValidTask input task id →
      ((∃ created, (db.createTask input id now nowMillis).2 = .ok created) ↔
        db.CanNumber input.projectId none)) ∧
    ∀ id input now current merged, db.ValidMove id input current merged →
      ((∃ moved, (db.updateTask id input now).2 = .ok moved) ↔
        db.CanNumber merged.requestedProject (some id)) := by
  intro db
  have h : db.WellFormed := wellFormed_run casing projectId now operations
  exact ⟨h.identifiers, fun _ _ _ _ _ hvalid => createTask_iff h hvalid,
    fun _ _ _ _ _ hvalid => moveTask_iff h hvalid⟩

/-- The key of the first project is given to a second one while a task of the first still bears
it. -/
def reusedKey : List Operation :=
  [.createTask ⟨"first", "A task", none, none, none, none, none⟩ "task-1" "now" 0,
    .updateProject "first" (.object [("key", .string "OLD")]) "now",
    .createProject ⟨"Second", "DSP", none, none⟩ "second" "now"]

/-- Casing that is right for text without lower case letters. -/
def uppercased : Casing := ⟨id, id⟩

/-- The second project cannot get its first task. -/
theorem reused_key_blocks :
    ¬ ∀ (casing : Casing) (projectId now : String) (operations : List Operation)
      (input : CreateTask) (task : NewTask) (id : String) (nowMillis : ℕ),
      (run casing projectId now operations).ValidTask input task id →
      ∃ created, ((run casing projectId now operations).createTask input id now nowMillis).2 =
        .ok created := by
  intro hclaim
  obtain ⟨created, hcreated⟩ := hclaim uppercased "first" "now" reusedKey
    ⟨"second", "Another task", none, none, none, none, none⟩
    ⟨"Another task", .backlog, .noPriority, []⟩ "task-2" 0
    ⟨by decide +kernel, by decide +kernel, fun _ h => absurd h List.not_mem_nil,
      ⟨⟨"second", "Second", "DSP", "", "#8b5cf6", 1, "now", "now"⟩, by decide +kernel⟩,
      by decide +kernel⟩
  have herror : ((run uppercased "first" "now" reusedKey).createTask
      ⟨"second", "Another task", none, none, none, none, none⟩ "task-2" "now" 0).2 =
      .error (.storage .uniqueConstraint) := by decide +kernel
  rw [herror] at hcreated
  cases hcreated

end Database
end PiDeck.Tasks
