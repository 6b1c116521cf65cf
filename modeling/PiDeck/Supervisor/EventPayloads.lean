import Mathlib
import PiDeck.Collections.Json

/-! The payload of a session event. A raw value, whose objects may refer to each other in any way, is
turned into a JSON value; bytes, items and depth are counted against limits on the way. -/
namespace PiDeck.Supervisor.EventPayloads
open PiDeck.Collections

structure Limits where
  maxBytes : ℕ
  maxDepth : ℕ
  maxItems : ℕ

inductive NotFinite
  | nan
  | infinity
  | negativeInfinity
  deriving DecidableEq, Repr

inductive Value (Ref : Type)
  | null
  | bool (value : Bool)
  | string (units : List CodeUnit)
  | number (numeral : Numeral)
  | notFinite (number : NotFinite)
  | bigint (value : ℤ)
  | undefined
  | function
  | symbol
  | object (ref : Ref)

/-- What an object is, with what is read of it. A date that is not valid has no text. -/
inductive Kind (Ref : Type)
  | date (iso : Option (List CodeUnit))
  | error (name message : List CodeUnit)
  | array (elements : List (Value Ref))
  | plain

abbrev Entry (Ref : Type) := List CodeUnit × Value Ref

/-- An object with its own entries in the order of `Object.entries`. -/
structure Node (Ref : Type) where
  kind : Kind Ref
  entries : List (Entry Ref)
  distinct : (entries.map Prod.fst).Nodup

inductive Truncation
  | payloadBytes
  | payloadItems
  | payloadDepth
  deriving DecidableEq, Repr

/-- `PayloadState`, and the objects seen. -/
structure State (Ref : Type) where
  items : ℕ
  bytes : ℕ
  truncated : Option Truncation
  seen : List Ref

structure Event where
  type : List CodeUnit
  payload : Json
  encodedBytes : ℕ
  truncated : Option Truncation

def units (text : String) : List CodeUnit := utf16 text.toList

def NotFinite.text : NotFinite → List CodeUnit
  | .nan => units "NaN"
  | .infinity => units "Infinity"
  | .negativeInfinity => units "-Infinity"

def truncatedText : Json := .string (units "[truncated]")

def circularText : Json := .string (units "[Circular]")

def sanitizeError (name message : List CodeUnit) : Json :=
  .object [(units "name", .string name), (units "message", .string (message.take 500))]

/-- Assigning to this key gives a plain object no entry. -/
def protoKey : List CodeUnit := units "__proto__"

section Conversion
variable {Ref : Type} [DecidableEq Ref] (heap : Ref → Node Ref) (limits : Limits)

namespace State

def flag (state : State Ref) (reason : Truncation) : State Ref :=
  { state with truncated := some (state.truncated.getD reason) }

def Fits (state : State Ref) (bytes : ℕ) : Prop := state.bytes + bytes ≤ limits.maxBytes

instance (state : State Ref) (bytes : ℕ) : Decidable (state.Fits limits bytes) :=
  inferInstanceAs (Decidable (_ ≤ _))

/-- `reservePayloadBytes`. -/
def reserve (state : State Ref) (bytes : ℕ) : State Ref :=
  if state.Fits limits bytes then { state with bytes := state.bytes + bytes }
  else state.flag .payloadBytes

end State

abbrev Converted (Ref : Type) := Json × State Ref

/-- The loops over entries and elements: a piece is paid for before it is converted, and a loop
`stops` when its piece ran out of bytes. A date that is not valid throws. -/
def convertAll {α : Type} (stops : Bool) (cost : α → ℕ)
    (convert : α → State Ref → Option (Converted Ref)) :
    List α → State Ref → Option (List (α × Json) × State Ref)
  | [], state => some ([], state)
  | item :: items, state =>
    if state.Fits limits (cost item) then
      (convert item (state.reserve limits (cost item))).bind fun converted =>
        if stops ∧ converted.2.truncated = some .payloadBytes then
          some ([(item, converted.1)], converted.2)
        else (convertAll stops cost convert items converted.2).map fun rest =>
          ((item, converted.1) :: rest.1, rest.2)
    else some ([], state.reserve limits (cost item))

def keyCost (entry : Entry Ref) : ℕ := Json.byteLength (Json.quoted entry.1) + 2

/-- The entries that an assignment makes. -/
def assigned (results : List (Entry Ref × Json)) : List (List CodeUnit × Json) :=
  (results.filter (fun result => result.1.1 ≠ protoKey)).map fun result => (result.1.1, result.2)

/-- A value that is written whole or not at all. -/
def scalar (json : Json) (state : State Ref) : Converted Ref :=
  (json, state.reserve limits json.size)

/-- What `toJsonValue` does after its limits on items and depth. -/
def convertValue (nested : Value Ref → State Ref → Option (Converted Ref)) (value : Value Ref)
    (state : State Ref) : Option (Converted Ref) :=
  match value with
  | .null => some (scalar limits .null state)
  | .bool value => some (scalar limits (.bool value) state)
  | .string units =>
    if state.Fits limits (Json.string units).size then some (scalar limits (.string units) state)
    else some (truncatedText, state.reserve limits (Json.string units).size)
  | .number numeral => some (scalar limits (.number numeral) state)
  | .notFinite number => some (scalar limits (.string number.text) state)
  | .bigint value => some (scalar limits (.string (units (toString value))) state)
  | .undefined | .function | .symbol => some (.null, state)
  | .object ref =>
    match (heap ref).kind with
    | .date iso => iso.map fun text => (.string text, state)
    | .error name message => some (sanitizeError name message, state)
    | .array elements =>
      if ref ∈ state.seen then some (circularText, state)
      else (convertAll limits true (fun _ => 1) nested elements
          { state with seen := ref :: state.seen }).map fun result =>
        (.array (result.1.map Prod.snd), result.2)
    | .plain =>
      if ref ∈ state.seen then some (circularText, state)
      else (convertAll limits true keyCost (fun entry => nested entry.2) (heap ref).entries
          { state with seen := ref :: state.seen }).map fun result =>
        (.object (assigned result.1), result.2)

/-- `toJsonValue` at the depth that leaves `room` more levels. -/
def toJsonValue : ℕ → Value Ref → State Ref → Option (Converted Ref)
  | 0, _, state =>
    if limits.maxItems ≤ state.items then some (truncatedText, state.flag .payloadItems)
    else some (truncatedText, { state with items := state.items + 1 }.flag .payloadDepth)
  | room + 1, value, state =>
    if limits.maxItems ≤ state.items then some (truncatedText, state.flag .payloadItems)
    else convertValue heap limits (toJsonValue room) value { state with items := state.items + 1 }

/-- The value of a field, with objects seen of its own. -/
def toField (entry : Entry Ref) (state : State Ref) : Option (Converted Ref) :=
  toJsonValue heap limits (limits.maxDepth + 1) entry.2 { state with seen := [] }

def start : State Ref := ⟨0, 2, none, []⟩

/-- The fields of a raw event that is an object and no array. -/
def fields (raw : Value Ref) : Option (List (Entry Ref)) :=
  match raw with
  | .object ref =>
    match (heap ref).kind with
    | .array _ => none
    | .date _ | .error _ _ | .plain => some (heap ref).entries
  | _ => none

def typeOf (entries : List (Entry Ref)) : List CodeUnit :=
  match entries.lookup (units "type") with
  | some (.string text) => if text = [] then units "unknown" else text
  | _ => units "unknown"

def payloadEntries (entries : List (Entry Ref)) : List (Entry Ref) :=
  entries.filter fun entry => entry.1 ≠ units "type"

def normalizeSessionEvent (raw : Value Ref) : Option Event :=
  match fields heap raw with
  | none =>
    (toJsonValue heap limits (limits.maxDepth + 1) raw start).map fun converted =>
      ⟨units "unknown", converted.1, converted.2.bytes, converted.2.truncated⟩
  | some entries =>
    (convertAll limits false keyCost (toField heap limits) (payloadEntries entries) start).map
      fun result => ⟨typeOf entries, .object (assigned result.1),
        min result.2.bytes limits.maxBytes, result.2.truncated⟩

/-! ### The conversion comes to a date that is not valid -/

/-- A loop comes to an item that meets the condition, in the state that it is in by then. -/
def ReachedIn {α : Type} (stops : Bool) (cost : α → ℕ)
    (convert : α → State Ref → Option (Converted Ref)) (reached : α → State Ref → Prop) :
    List α → State Ref → Prop
  | [], _ => False
  | item :: items, state => state.Fits limits (cost item) ∧
    (reached item (state.reserve limits (cost item)) ∨
      ∃ converted, convert item (state.reserve limits (cost item)) = some converted ∧
        ¬(stops ∧ converted.2.truncated = some .payloadBytes) ∧
          ReachedIn stops cost convert reached items converted.2)

def ReachedBelow (nested : Value Ref → State Ref → Option (Converted Ref))
    (reached : Value Ref → State Ref → Prop) (value : Value Ref) (state : State Ref) : Prop :=
  ∃ ref, value = .object ref ∧
    match (heap ref).kind with
    | .date iso => iso = none
    | .error _ _ => False
    | .array elements => ref ∉ state.seen ∧
      ReachedIn limits true (fun _ => 1) nested reached elements
        { state with seen := ref :: state.seen }
    | .plain => ref ∉ state.seen ∧
      ReachedIn limits true keyCost (fun entry => nested entry.2) (fun entry => reached entry.2)
        (heap ref).entries { state with seen := ref :: state.seen }

/-- Within the limits a date that is not valid is reached. -/
def InvalidReached : ℕ → Value Ref → State Ref → Prop
  | 0, _, _ => False
  | room + 1, value, state => state.items < limits.maxItems ∧
    ReachedBelow heap limits (toJsonValue heap limits room) (InvalidReached room) value
      { state with items := state.items + 1 }

def EventReaches (raw : Value Ref) : Prop :=
  match fields heap raw with
  | none => InvalidReached heap limits (limits.maxDepth + 1) raw start
  | some entries => ReachedIn limits false keyCost (toField heap limits)
      (fun entry state =>
        InvalidReached heap limits (limits.maxDepth + 1) entry.2 { state with seen := [] })
      (payloadEntries entries) start

variable {heap limits}

omit [DecidableEq Ref] in
theorem convertAll_eq_none {α : Type} {stops : Bool} {cost : α → ℕ}
    {convert : α → State Ref → Option (Converted Ref)} {reached : α → State Ref → Prop}
    (hconvert : ∀ item state, convert item state = none ↔ reached item state) {items : List α}
    {state : State Ref} :
    convertAll limits stops cost convert items state = none ↔
      ReachedIn limits stops cost convert reached items state := by
  induction items generalizing state with
  | nil => simp [convertAll, ReachedIn]
  | cons item items ih =>
    rw [convertAll, ReachedIn, ← hconvert]
    by_cases hfits : state.Fits limits (cost item)
    · simp only [hfits, if_true, true_and]
      cases hitem : convert item (state.reserve limits (cost item)) with
      | none => simp
      | some converted =>
        by_cases hstop : stops ∧ converted.2.truncated = some .payloadBytes
        · simp [hstop]
        · rw [Option.bind_some, if_neg hstop, Option.map_eq_none_iff, ih]
          constructor
          · exact fun hrest => .inr ⟨converted, rfl, hstop, hrest⟩
          · rintro (hnone | ⟨other, hother, -, hrest⟩)
            · cases hnone
            · obtain rfl := Option.some.inj hother
              exact hrest
    · simp [hfits]

theorem convertValue_eq_none {nested : Value Ref → State Ref → Option (Converted Ref)}
    {reached : Value Ref → State Ref → Prop}
    (hnested : ∀ value state, nested value state = none ↔ reached value state) {value : Value Ref}
    {state : State Ref} :
    convertValue heap limits nested value state = none ↔
      ReachedBelow heap limits nested reached value state := by
  cases value with
  | object ref =>
    rw [convertValue, ReachedBelow]
    cases hkind : (heap ref).kind with
    | date iso => simp [hkind]
    | error name message => simp [hkind]
    | array elements =>
      by_cases hseen : ref ∈ state.seen
      · simp [hkind, hseen]
      · simp [hkind, hseen, convertAll_eq_none hnested]
    | plain =>
      by_cases hseen : ref ∈ state.seen
      · simp [hkind, hseen]
      · have hentries (entry : Entry Ref) (state : State Ref) := hnested entry.2 state
        simp [hkind, hseen, convertAll_eq_none hentries]
  | string units =>
    rw [convertValue]
    split <;> simp [ReachedBelow]
  | _ => simp [convertValue, ReachedBelow]

theorem toJsonValue_eq_none {room : ℕ} {value : Value Ref} {state : State Ref} :
    toJsonValue heap limits room value state = none ↔
      InvalidReached heap limits room value state := by
  induction room generalizing value state with
  | zero =>
    rw [toJsonValue, InvalidReached]
    split <;> simp
  | succ room ih =>
    rw [toJsonValue, InvalidReached]
    by_cases hitems : limits.maxItems ≤ state.items
    · simp [hitems]
    · simp only [hitems, if_false, Nat.lt_of_not_le hitems, true_and]
      exact convertValue_eq_none (fun _ _ => ih)

/-- Only a date that is not valid makes it throw. -/
theorem normalizeSessionEvent_eq_none {raw : Value Ref} :
    normalizeSessionEvent heap limits raw = none ↔ EventReaches heap limits raw := by
  rw [normalizeSessionEvent, EventReaches]
  cases fields heap raw with
  | none => simp [toJsonValue_eq_none]
  | some entries =>
    simp only [Option.map_eq_none_iff]
    exact convertAll_eq_none (fun _ _ => toJsonValue_eq_none)

end Conversion

end PiDeck.Supervisor.EventPayloads
