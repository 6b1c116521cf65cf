import Mathlib
import PiDeck.Agents.Profiles
import PiDeck.Storage.Files

/-! The suggestions for a path in the composer, and the roots that a working directory has to lie in.
The roots are checked for the working directory; the directory that is listed is the working
directory joined with what the client has typed. -/
namespace PiDeck.Agents
open PiDeck.Storage

structure HostRuntime where
  files : FileSystem
  homeDir : PathBuf
  workspacePath : PathBuf
  allowedRoots : List PathBuf

structure SuggestQuery where
  cwd : String
  kind : String
  prefixText : String

inductive SuggestionKind
  | directory | file
  deriving DecidableEq, Repr

structure Suggestion where
  value : String
  label : String
  kind : SuggestionKind
  deriving DecidableEq, Repr

structure Suggestions where
  cwd : PathBuf
  suggestions : List Suggestion
  deriving DecidableEq, Repr

/-! ### Allowed roots -/

/-- The components that `absolute_path` keeps of a path, without looking at the files. -/
def normalize (normalized : PathBuf) : Component → PathBuf
  | .curDir => normalized
  | .parentDir => normalized.pop.getD normalized
  | other => normalized ++ [other]

def absolutePath (path cwd : PathBuf) : PathBuf :=
  (if path.isAbsolute then path else cwd.join path).foldl normalize []

/-- The loop of `canonical_existing_ancestor`; every turn takes a component away. -/
def existingAncestor (files : FileSystem) : ℕ → PathBuf → Option PathBuf
  | 0, current => files.canonicalize current
  | turns + 1, current =>
    match files.canonicalize current with
    | some canonical => some canonical
    | none => current.pop.bind (existingAncestor files turns)

def canonicalExistingAncestor (files : FileSystem) (path : PathBuf) : PathBuf :=
  let current := absolutePath path [.rootDir]
  (existingAncestor files current.length current).getD current

/-- The path of an allowed root that candidates are compared with. -/
def canonicalRoot (files : FileSystem) (root : PathBuf) : PathBuf :=
  (files.canonicalize root).getD (absolutePath root [.rootDir])

def pathAllowed (files : FileSystem) (candidate : PathBuf) (roots : List PathBuf) : Bool :=
  let candidate := canonicalExistingAncestor files candidate
  roots.any fun root =>
    candidate = canonicalRoot files root || candidate.startsWith (canonicalRoot files root)

namespace HostRuntime
variable {runtime : HostRuntime} {path cwd : PathBuf} {place : Place}

/-- `allowed_directory` once the path is read. -/
def allowedPath (runtime : HostRuntime) (path : PathBuf) : Except AgentError PathBuf :=
  let path := if path.isAbsolute then path else runtime.workspacePath.join path
  match runtime.files.canonicalize path with
  | none => .error (.bad "validation_failed" "Working directory does not exist")
  | some canonical =>
    if !runtime.files.isDir canonical || !pathAllowed runtime.files canonical runtime.allowedRoots then
      .error (.bad "validation_failed" "Working directory is outside allowed roots")
    else .ok canonical

def allowedDirectory (runtime : HostRuntime) (value : String) : Except AgentError PathBuf :=
  runtime.allowedPath (if value = "~" then runtime.homeDir else PathBuf.ofString value)

end HostRuntime

/-! ### The handler -/

/-- The text around the last separator. -/
def rsplitOnce : List Char → Option (List Char × List Char)
  | [] => none
  | c :: text =>
    match rsplitOnce text with
    | some (parent, needle) => some (c :: parent, needle)
    | none => if c = '/' then some ([], text) else none

namespace SuggestQuery

def split (query : SuggestQuery) : List Char × List Char :=
  (rsplitOnce query.prefixText.toList).getD ([], query.prefixText.toList)

/-- The path that is listed for the query. -/
def directory (query : SuggestQuery) (cwd : PathBuf) : PathBuf :=
  cwd.join (PathBuf.ofChars query.split.1)

end SuggestQuery

namespace HostRuntime

/-- The suggestion for a name in the directory. -/
def suggest (runtime : HostRuntime) (toLowercase : String → String) (query : SuggestQuery)
    (directory : PathBuf) (name : String) : Option Suggestion :=
  let (parent, needle) := query.split
  if (toLowercase (String.ofList needle)).toList <:+: (toLowercase name).toList then
    some ⟨if parent = [] then name else String.ofList parent ++ "/" ++ name, name,
      if runtime.files.isDir (directory.join [.normal name]) then .directory else .file⟩
  else none

/-- The answer, and the directories that were listed for it. -/
def composerSuggestions (runtime : HostRuntime) (toLowercase : String → String)
    (query : SuggestQuery) : Except AgentError Suggestions × List Place :=
  match runtime.allowedDirectory query.cwd with
  | .error error => (.error error, [])
  | .ok cwd =>
    if query.kind = "file" then
      let directory := query.directory cwd
      match runtime.files.readDir directory with
      | some (place, names) =>
        (.ok ⟨cwd, (names.take 100).filterMap (runtime.suggest toLowercase query directory)⟩, [place])
      | none => (.ok ⟨cwd, []⟩, [])
    else (.ok ⟨cwd, []⟩, [])

variable {runtime : HostRuntime} {path cwd canonical : PathBuf} {place : Place}

/-- The place lies in an allowed root. -/
def Inside (runtime : HostRuntime) (place : Place) : Prop :=
  ∃ root ∈ runtime.allowedRoots, canonicalRoot runtime.files root <+: canonicalPath place

/-! ### What the check of a directory says -/

theorem absolutePath_canonicalPath (place : Place) (cwd : PathBuf) :
    absolutePath (canonicalPath place) cwd = canonicalPath place := by
  have hnames : ∀ start : PathBuf, (place.map Component.normal).foldl normalize start =
      start ++ place.map .normal := by
    induction place with
    | nil => simp
    | cons name place ih =>
      intro start
      rw [List.map_cons, List.foldl_cons, ih]
      simp [normalize]
  exact hnames [.rootDir]

theorem existingAncestor_of_canonical {files : FileSystem} (turns : ℕ)
    (h : files.canonicalize path = some canonical) :
    existingAncestor files turns path = some canonical := by
  cases turns with
  | zero => exact h
  | succ turns =>
    rw [existingAncestor]
    simp only [h]

theorem pathAllowed_iff (h : runtime.files.resolve (canonicalPath place) = some place) :
    pathAllowed runtime.files (canonicalPath place) runtime.allowedRoots = true ↔
      runtime.Inside place := by
  have hcanonical : runtime.files.canonicalize (canonicalPath place) = some (canonicalPath place) := by
    rw [FileSystem.canonicalize, h]
    rfl
  have hcandidate : canonicalExistingAncestor runtime.files (canonicalPath place) =
      canonicalPath place := by
    rw [canonicalExistingAncestor, absolutePath_canonicalPath,
      existingAncestor_of_canonical _ hcanonical]
    rfl
  rw [pathAllowed, hcandidate, List.any_eq_true]
  apply exists_congr
  intro root
  apply and_congr_right
  intro _
  simp only [PathBuf.startsWith, Bool.or_eq_true, decide_eq_true_eq, or_iff_right_iff_imp]
  intro heq
  rw [heq]

/-- The directories that pass the check are the directories in an allowed root. -/
theorem allowedPath_iff (habsolute : path.isAbsolute = true)
    (h : runtime.files.resolve path = some place) :
    runtime.allowedPath path = .ok canonical ↔ canonical = canonicalPath place ∧
      runtime.files.isDir path = true ∧ runtime.Inside place := by
  have hagain := FileSystem.resolve_canonicalPath (FileSystem.resolve_entered h)
  have hdir : runtime.files.isDir (canonicalPath place) = runtime.files.isDir path := by
    rw [FileSystem.isDir, FileSystem.isDir, hagain, h]
  rw [allowedPath, if_pos habsolute, FileSystem.canonicalize, h, ← pathAllowed_iff hagain]
  simp only [Option.map_some, hdir]
  split
  · rename_i hrefused
    simp only [reduceCtorEq, false_iff]
    rintro ⟨-, hisDir, hallowed⟩
    simp [hisDir, hallowed] at hrefused
  · rename_i hpassed
    simp only [Bool.or_eq_true, Bool.not_eq_true', not_or, Bool.not_eq_false] at hpassed
    simp [hpassed, eq_comm]

/-- A working directory that passes the check is canonical and lies in an allowed root. -/
theorem allowedPath_ok (h : runtime.allowedPath path = .ok cwd) :
    ∃ place, cwd = canonicalPath place ∧ Entered runtime.files.entry place ∧ runtime.Inside place := by
  rw [allowedPath] at h
  split at h
  · cases h
  · rename_i canonical hcanonical
    obtain ⟨place, hplace, rfl, hagain⟩ := FileSystem.canonicalize_canonical hcanonical
    split at h
    · cases h
    · rename_i hpassed
      cases h
      simp only [Bool.or_eq_true, Bool.not_eq_true', not_or, Bool.not_eq_false] at hpassed
      exact ⟨place, rfl, FileSystem.resolve_entered hplace, (pathAllowed_iff hagain).mp hpassed.2⟩

/-! ### What is listed -/

theorem isDir_of_readDir {names : List String} (h : runtime.files.readDir path = some (place, names)) :
    runtime.files.resolve path = some place ∧ runtime.files.isDir path = true := by
  obtain ⟨reached, hreached, hnames⟩ := Option.bind_eq_some_iff.mp h
  split at hnames
  · rename_i searchable names' hentry
    cases hnames
    refine ⟨hreached, ?_⟩
    rw [FileSystem.isDir, hreached, Option.bind_some, hentry]
  · cases hnames

theorem listed_iff {toLowercase : String → String} {query : SuggestQuery} :
    place ∈ (runtime.composerSuggestions toLowercase query).2 ↔
      query.kind = "file" ∧ ∃ cwd names, runtime.allowedDirectory query.cwd = .ok cwd ∧
        runtime.files.readDir (query.directory cwd) = some (place, names) := by
  rw [composerSuggestions]
  cases hcwd : runtime.allowedDirectory query.cwd with
  | error error => simp
  | ok cwd =>
    by_cases hkind : query.kind = "file"
    · cases hread : runtime.files.readDir (query.directory cwd) with
      | none => simp [hkind, hread]
      | some listing =>
        obtain ⟨listed, names⟩ := listing
        simp [hkind, hread, eq_comm]
    · simp [hkind]

/-- The directories that are listed lie in the allowed roots exactly when the directory of the query
passes the check that its working directory has passed, or cannot be listed. -/
theorem suggestions_inside_iff (runtime : HostRuntime) (toLowercase : String → String)
    (query : SuggestQuery) :
    (∀ place ∈ (runtime.composerSuggestions toLowercase query).2, runtime.Inside place) ↔
      (query.kind = "file" → ∀ cwd, runtime.allowedDirectory query.cwd = .ok cwd →
        (runtime.files.readDir (query.directory cwd)).isSome = true →
        ∃ canonical, runtime.allowedPath (query.directory cwd) = .ok canonical) := by
  have habsolute : ∀ cwd, runtime.allowedDirectory query.cwd = .ok cwd →
      (query.directory cwd).isAbsolute = true := by
    intro cwd hcwd
    obtain ⟨place, rfl, -, -⟩ := allowedPath_ok hcwd
    exact PathBuf.isAbsolute_join rfl
  constructor
  · intro hinside hkind cwd hcwd hread
    obtain ⟨⟨place, names⟩, hread⟩ := Option.isSome_iff_exists.mp hread
    obtain ⟨hresolve, hdir⟩ := isDir_of_readDir hread
    have hplace := hinside place (listed_iff.mpr ⟨hkind, cwd, names, hcwd, hread⟩)
    exact ⟨canonicalPath place, (allowedPath_iff (habsolute cwd hcwd) hresolve).mpr ⟨rfl, hdir, hplace⟩⟩
  · intro hpasses place hlisted
    obtain ⟨hkind, cwd, names, hcwd, hread⟩ := listed_iff.mp hlisted
    obtain ⟨hresolve, -⟩ := isDir_of_readDir hread
    obtain ⟨canonical, hallowed⟩ := hpasses hkind cwd hcwd (by rw [hread]; rfl)
    exact ((allowedPath_iff (habsolute cwd hcwd) hresolve).mp hallowed).2.2

/-- A host that serves its home directory. -/
def homeOnly : HostRuntime where
  files := {
    entry := fun place =>
      if place = [] then some (.directory true true ["home", "etc"])
      else if place = ["home"] ∨ place = ["etc"] then some (.directory true true [])
      else none
    maxLinks := 40
    workingDirectory := []
    entered := FileSystem.entered_nil }
  homeDir := PathBuf.ofString "/home"
  workspacePath := PathBuf.ofString "/home"
  allowedRoots := [PathBuf.ofString "/home"]

theorem suggestions_escape : ¬ ∀ runtime : HostRuntime, ∀ toLowercase query cwd,
    runtime.allowedDirectory query.cwd = .ok cwd →
    ∀ place ∈ (runtime.composerSuggestions toLowercase query).2, runtime.Inside place := by
  intro h
  have hlisted : ["etc"] ∈ (homeOnly.composerSuggestions id ⟨"/home", "file", "/etc/"⟩).2 := by
    decide +kernel
  obtain ⟨root, hroot, hbefore⟩ := h homeOnly id ⟨"/home", "file", "/etc/"⟩
    (PathBuf.ofString "/home") (by decide +kernel) ["etc"] hlisted
  cases List.mem_singleton.mp hroot
  exact absurd hbefore (by decide +kernel)

end HostRuntime
end PiDeck.Agents
