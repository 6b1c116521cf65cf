import Mathlib
import PiDeck.Collections.Keyed
import PiDeck.Mux.Store

/-! Projects, labels and tasks as the rows of their tables, the bodies of requests, and the checks
that a request passes before it reaches the database. -/
namespace PiDeck.Tasks
open PiDeck.Mux (trim)

/-- A decoded request body. -/
inductive Value
  | null
  | bool (value : Bool)
  | number (value : ℚ)
  | string (value : String)
  | array (values : List Value)
  | object (fields : List (String × Value))

def Value.get (value : Value) (key : String) : Option Value :=
  match value with
  | .object fields => (fields.find? fun field => field.1 = key).map (·.2)
  | _ => none

def Value.asStr : Value → Option String
  | .string value => some value
  | _ => none

def Value.isNumber : Value → Bool
  | .number _ => true
  | _ => false

/-- `as_u64`. -/
def Value.asU64 : Value → Option ℕ
  | .number value =>
    if value.den = 1 ∧ 0 ≤ value.num ∧ value.num < 2 ^ 64 then some value.num.toNat else none
  | _ => none

inductive SqlError
  | uniqueConstraint
  | foreignKey
  | check
  | noRows
  | invalidColumnType
  deriving DecidableEq, Repr

inductive Details
  | null
  | taskCount (count : ℕ)
  | reason (error : SqlError)
  deriving DecidableEq, Repr

structure TaskError where
  status : ℕ
  code : String
  message : String
  details : Details
  deriving DecidableEq, Repr

namespace TaskError

def bad (code message : String) : TaskError := ⟨400, code, message, .null⟩
def notFound (code message : String) : TaskError := ⟨404, code, message, .null⟩
def conflict (code message : String) (details : Details) : TaskError := ⟨409, code, message, details⟩
def storage (error : SqlError) : TaskError :=
  ⟨500, "DATABASE_ERROR", "Database operation failed", .reason error⟩

end TaskError

inductive Status
  | backlog
  | todo
  | inProgress
  | done
  | canceled
  deriving DecidableEq, Repr

inductive Priority
  | noPriority
  | urgent
  | high
  | medium
  | low
  deriving DecidableEq, Repr

def validateStatus (value : String) : Except TaskError Status :=
  match value with
  | "backlog" => .ok .backlog
  | "todo" => .ok .todo
  | "in_progress" => .ok .inProgress
  | "done" => .ok .done
  | "canceled" => .ok .canceled
  | _ => .error (.bad "INVALID_REQUEST" "Invalid task status")

def validatePriority (value : String) : Except TaskError Priority :=
  match value with
  | "no_priority" => .ok .noPriority
  | "urgent" => .ok .urgent
  | "high" => .ok .high
  | "medium" => .ok .medium
  | "low" => .ok .low
  | _ => .error (.bad "INVALID_REQUEST" "Invalid task priority")

structure Project where
  id : String
  name : String
  key : String
  description : String
  color : String
  nextTaskNumber : ℕ
  createdAt : String
  updatedAt : String
  deriving DecidableEq, Repr

structure Label where
  id : String
  name : String
  normalizedName : String
  color : String
  createdAt : String
  deriving DecidableEq, Repr

/-- A row of `tasks`. -/
structure TaskRow where
  id : String
  projectId : String
  taskNumber : ℕ
  identifier : String
  title : String
  description : Option String
  status : Status
  priority : Priority
  dueDate : Option String
  sortOrder : ℚ
  createdAt : String
  updatedAt : String
  completedAt : Option String
  deriving DecidableEq, Repr

/-- A task as it is answered, joined with its project and its labels. -/
structure Task where
  row : TaskRow
  project : Project
  labels : List Label
  deriving DecidableEq, Repr

structure CreateProject where
  name : String
  key : String
  description : Option String
  color : Option String
  deriving DecidableEq, Repr

structure CreateLabel where
  name : String
  color : Option String
  deriving DecidableEq, Repr

structure CreateTask where
  projectId : String
  title : String
  description : Option String
  status : Option String
  priority : Option String
  dueDate : Option String
  labelIds : Option (List String)
  deriving DecidableEq, Repr

def cleanRequired (value code message : String) : Except TaskError String :=
  if trim value = "" then .error (.bad code message) else .ok (trim value)

def isHexDigit (c : Char) : Bool :=
  c.isDigit || (decide ('a' ≤ c) && decide (c ≤ 'f')) || (decide ('A' ≤ c) && decide (c ≤ 'F'))

def validateColor (value : String) : Except TaskError Unit :=
  match value.toList with
  | '#' :: digits =>
    if digits.length = 6 ∧ digits.all isHexDigit = true then .ok ()
    else .error (.bad "INVALID_COLOR" "Color must be a six-digit hex value")
  | _ => .error (.bad "INVALID_COLOR" "Color must be a six-digit hex value")

/-- The number a string of decimal digits denotes. -/
def decimal (digits : List Char) : ℕ := digits.foldl (fun n c => 10 * n + (c.toNat - '0'.toNat)) 0

def validDueDate (value : String) : Bool :=
  match value.toList with
  | [y₁, y₂, y₃, y₄, '-', m₁, m₂, '-', d₁, d₂] =>
    [y₁, y₂, y₃, y₄, m₁, m₂, d₁, d₂].all Char.isDigit && decimal [y₁, y₂, y₃, y₄] != 0 &&
      decide (1 ≤ decimal [m₁, m₂] ∧ decimal [m₁, m₂] ≤ 12) &&
      decide (1 ≤ decimal [d₁, d₂] ∧ decimal [d₁, d₂] ≤ 31)
  | _ => false

def validateDueDate : Option String → Except TaskError Unit
  | none => .ok ()
  | some value =>
    if validDueDate value then .ok ()
    else .error (.bad "INVALID_DUE_DATE" "Due date must use YYYY-MM-DD")

def validKey (key : String) : Bool :=
  decide (2 ≤ key.utf8ByteSize ∧ key.utf8ByteSize ≤ 8) && key.toList.all Char.isAlphanum

def validateKey (key : String) : Except TaskError Unit :=
  if validKey key then .ok ()
  else .error (.bad "INVALID_PROJECT_KEY" "Project key must contain 2–8 letters or numbers")

def optionalString (value : Value) (key : String) : Except TaskError (Option String) :=
  match value.get key with
  | none => .ok none
  | some (.string value) => .ok (some value)
  | some _ => .error (.bad "INVALID_REQUEST" (key ++ " must be a string"))

def optionalNullableString (value : Value) (key : String) :
    Except TaskError (Option (Option String)) :=
  match value.get key with
  | none => .ok none
  | some .null => .ok (some none)
  | some (.string value) => .ok (some (some value))
  | some _ => .error (.bad "INVALID_REQUEST" (key ++ " must be a string or null"))

def optionalNumber (value : Value) (key : String) : Except TaskError (Option ℚ) :=
  match value.get key with
  | none => .ok none
  | some (.number value) => .ok (some value)
  | some _ => .error (.bad "INVALID_REQUEST" (key ++ " must be a number"))

/-- The strings of an array, when it holds nothing else. -/
def stringArray : List Value → Option (List String)
  | [] => some []
  | .string value :: values => (stringArray values).map (value :: ·)
  | _ :: _ => none

def optionalStringArray (value : Value) (key : String) :
    Except TaskError (Option (List String)) :=
  match value.get key with
  | none => .ok none
  | some (.array values) =>
    match stringArray values with
    | some values => .ok (some values)
    | none => .error (.bad "INVALID_REQUEST" (key ++ " must contain strings"))
  | some _ => .error (.bad "INVALID_REQUEST" (key ++ " must be an array"))

/-- The first occurrence of every value. -/
def deduplicate (values : List String) : List String := values.reverse.dedup.reverse

end PiDeck.Tasks
