import Mathlib

/-! Directories, files and symbolic links, and the walk of a path through them: a name goes down, a
parent component goes up from where the walk is, and a link puts its own path in front of what is
left. The place that a walk reaches is known by the names from the root to it, and walking these
names leads there again. -/
namespace PiDeck.Storage

inductive Component
  | rootDir | curDir | parentDir
  | normal (name : String)
  deriving DecidableEq, Repr

/-- The components of a path; repeated and final separators leave nothing behind. -/
abbrev PathBuf := List Component

namespace PathBuf

def component : List Char → Component
  | ['.'] => .curDir
  | ['.', '.'] => .parentDir
  | name => .normal (String.ofList name)

def ofChars (text : List Char) : PathBuf :=
  (if text.head? = some '/' then [.rootDir] else []) ++
    ((text.splitOn '/').filter (· ≠ [])).map component

def ofString (text : String) : PathBuf := ofChars text.toList

def isAbsolute (path : PathBuf) : Bool := path.head? = some .rootDir

def join (path more : PathBuf) : PathBuf := if more.isAbsolute then more else path ++ more

def startsWith (path start : PathBuf) : Bool := decide (start <+: path)

/-- The path without its last component; the root has none to lose. -/
def pop (path : PathBuf) : Option PathBuf :=
  match path.getLast? with
  | none | some .rootDir => none
  | some _ => some path.dropLast

theorem isAbsolute_join {path more : PathBuf} (h : path.isAbsolute = true) :
    (path.join more).isAbsolute = true := by
  rw [join]
  split
  · assumption
  · cases path with
    | nil => cases h
    | cons component path => exact h

end PathBuf

inductive Entry
  | file
  | link (target : PathBuf)
  | directory (searchable readable : Bool) (names : List String)
  deriving DecidableEq, Repr

def Entry.isLink : Entry → Bool
  | .link _ => true
  | _ => false

/-- The names from the root to a file or directory. -/
abbrev Place := List String

def searchable (entry : Place → Option Entry) (place : Place) : Bool :=
  match entry place with
  | some (.directory searchable _ _) => searchable
  | _ => false

/-- Every name on the way to the place stands in a directory that can be searched, and is no link. -/
def Entered (entry : Place → Option Entry) (place : Place) : Prop :=
  ∀ dir name, dir ++ [name] <+: place →
    searchable entry dir = true ∧ ∃ found, entry (dir ++ [name]) = some found ∧ found.isLink = false

structure FileSystem where
  entry : Place → Option Entry
  /-- The links that one walk may follow. -/
  maxLinks : ℕ
  workingDirectory : Place
  entered : Entered entry workingDirectory

/-- The absolute path of a place. -/
def canonicalPath (place : Place) : PathBuf := .rootDir :: place.map .normal

namespace FileSystem
variable {files : FileSystem} {place start target : Place} {path rest : PathBuf}
  {onLink : Place → PathBuf → Option Place}

def walk (files : FileSystem) (onLink : Place → PathBuf → Option Place) :
    Place → PathBuf → Option Place
  | place, [] => some place
  | _, .rootDir :: path => walk files onLink [] path
  | place, .curDir :: path =>
    if searchable files.entry place then walk files onLink place path else none
  | place, .parentDir :: path =>
    if searchable files.entry place then walk files onLink place.dropLast path else none
  | place, .normal name :: path =>
    if searchable files.entry place then
      match files.entry (place ++ [name]) with
      | none => none
      | some (.link target) => onLink place (target ++ path)
      | some _ => walk files onLink (place ++ [name]) path
    else none

def follow (files : FileSystem) : ℕ → Place → PathBuf → Option Place
  | 0 => files.walk fun _ _ => none
  | links + 1 => files.walk (files.follow links)

def resolve (files : FileSystem) (path : PathBuf) : Option Place :=
  files.follow files.maxLinks files.workingDirectory path

def canonicalize (files : FileSystem) (path : PathBuf) : Option PathBuf :=
  (files.resolve path).map canonicalPath

def isDir (files : FileSystem) (path : PathBuf) : Bool :=
  match (files.resolve path).bind files.entry with
  | some (.directory ..) => true
  | _ => false

/-- The place of the directory that is opened, and the names in it. -/
def readDir (files : FileSystem) (path : PathBuf) : Option (Place × List String) :=
  (files.resolve path).bind fun place =>
    match files.entry place with
    | some (.directory _ true names) => some (place, names)
    | _ => none

/-! ### Places that walks reach -/

theorem entered_nil {entry : Place → Option Entry} : Entered entry [] := by
  intro dir name h
  have hlength := h.length_le
  simp at hlength

theorem entered_of_isPrefixOf {entry : Place → Option Entry} (h : Entered entry place)
    (hbefore : start <+: place) : Entered entry start := by
  intro dir name hdir
  exact h dir name (hdir.trans hbefore)

theorem entered_push {entry : Place → Option Entry} {name : String} {found : Entry}
    (h : Entered entry place) (hsearch : searchable entry place = true)
    (hfound : entry (place ++ [name]) = some found) (hlink : found.isLink = false) :
    Entered entry (place ++ [name]) := by
  intro dir other hbefore
  obtain heq | hshorter := List.prefix_concat_iff.mp hbefore
  · obtain ⟨rfl, hname⟩ := List.append_inj' heq rfl
    cases hname
    exact ⟨hsearch, found, hfound, hlink⟩
  · exact h dir other hshorter

theorem walk_entered
    (hlinks : ∀ place path target, Entered files.entry place → onLink place path = some target →
      Entered files.entry target)
    (hplace : Entered files.entry place) (h : files.walk onLink place path = some target) :
    Entered files.entry target := by
  induction path generalizing place with
  | nil =>
    cases h
    exact hplace
  | cons component path ih =>
    cases component with
    | rootDir => exact ih entered_nil h
    | curDir =>
      rw [walk] at h
      split at h
      · exact ih hplace h
      · cases h
    | parentDir =>
      rw [walk] at h
      split at h
      · exact ih (entered_of_isPrefixOf hplace (List.dropLast_prefix place)) h
      · cases h
    | normal name =>
      rw [walk] at h
      split at h
      · rename_i hsearch
        cases hfound : files.entry (place ++ [name]) with
        | none =>
          simp only [hfound] at h
          cases h
        | some found =>
          cases found with
          | link link =>
            simp only [hfound] at h
            exact hlinks place _ target hplace h
          | file =>
            simp only [hfound] at h
            exact ih (entered_push hplace hsearch hfound rfl) h
          | directory searchable readable names =>
            simp only [hfound] at h
            exact ih (entered_push hplace hsearch hfound rfl) h
      · cases h

theorem follow_entered {links : ℕ} (hplace : Entered files.entry place)
    (h : files.follow links place path = some target) : Entered files.entry target := by
  induction links generalizing place path target with
  | zero =>
    refine walk_entered ?_ hplace h
    intro place path target _ hnone
    cases hnone
  | succ links ih => exact walk_entered (fun _ _ _ hentered hrest => ih hentered hrest) hplace h

theorem resolve_entered (h : files.resolve path = some target) : Entered files.entry target :=
  follow_entered files.entered h

/-! ### Canonical paths -/

theorem walk_normal (h : Entered files.entry (place ++ start)) :
    files.walk onLink place (start.map .normal ++ rest) = files.walk onLink (place ++ start) rest := by
  induction start generalizing place with
  | nil => simp
  | cons name start ih =>
    have hsplit : place ++ name :: start = place ++ [name] ++ start := by simp
    obtain ⟨hsearch, found, hfound, hlink⟩ := h place name ⟨start, by simp⟩
    rw [hsplit] at h ⊢
    rw [List.map_cons, List.cons_append, walk, if_pos hsearch, hfound, ← ih h]
    cases found with
    | link target => cases hlink
    | file => rfl
    | directory searchable readable names => rfl

theorem follow_canonicalPath {links : ℕ} (h : Entered files.entry target) :
    files.follow links place (canonicalPath target ++ rest) = files.follow links target rest := by
  have hwalk : ∀ onLink, files.walk onLink place (canonicalPath target ++ rest) =
      files.walk onLink target rest := by
    intro onLink
    have hnames : files.walk onLink [] (target.map .normal ++ rest) = files.walk onLink target rest :=
      walk_normal h
    exact hnames
  cases links with
  | zero => exact hwalk _
  | succ links => exact hwalk _

/-- A path that starts at a place is walked from there. -/
theorem resolve_canonicalPath_append (h : Entered files.entry target) :
    files.resolve (canonicalPath target ++ rest) = files.follow files.maxLinks target rest :=
  follow_canonicalPath h

theorem follow_nil {links : ℕ} : files.follow links place [] = some place := by
  cases links with
  | zero => rfl
  | succ links => rfl

theorem resolve_canonicalPath (h : Entered files.entry target) :
    files.resolve (canonicalPath target) = some target := by
  calc files.resolve (canonicalPath target)
    _ = files.resolve (canonicalPath target ++ []) := by rw [List.append_nil]
    _ = files.follow files.maxLinks target [] := resolve_canonicalPath_append h
    _ = some target := follow_nil

/-- A canonical path is the canonical path of itself. -/
theorem canonicalize_canonical {canonical : PathBuf} (h : files.canonicalize path = some canonical) :
    ∃ place, files.resolve path = some place ∧ canonical = canonicalPath place ∧
      files.resolve canonical = some place := by
  obtain ⟨place, hplace, rfl⟩ := Option.map_eq_some_iff.mp h
  exact ⟨place, hplace, rfl, resolve_canonicalPath (resolve_entered hplace)⟩

/-! ### Walks that stay below their start -/

end FileSystem
end PiDeck.Storage
