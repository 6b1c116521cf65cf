import Mathlib
import PiDeck.Collections.Utf16

/-! JSON values, the text they are written as, its length in bytes, and how deep they are nested. -/
namespace PiDeck.Collections

/-- The decimal text of a finite number. -/
structure Numeral where
  text : List Char
  nonempty : text ≠ []
  deriving DecidableEq

inductive Json
  | null
  | bool (value : Bool)
  | number (numeral : Numeral)
  | string (units : List CodeUnit)
  | array (elements : List Json)
  | object (entries : List (List CodeUnit × Json))

namespace Json

def hexDigit (n : ℕ) : Char := "0123456789abcdef".toList.getD (n % 16) '0'

def unicodeEscape (n : ℕ) : List Char :=
  ['\\', 'u', hexDigit (n / 0x1000), hexDigit (n / 0x100), hexDigit (n / 0x10), hexDigit n]

/-- A code unit without a partner. -/
def escapeUnit (unit : CodeUnit) : List Char :=
  if unit = 0x22 then ['\\', '"']
  else if unit = 0x5C then ['\\', '\\']
  else if unit = 0x08 then ['\\', 'b']
  else if unit = 0x09 then ['\\', 't']
  else if unit = 0x0A then ['\\', 'n']
  else if unit = 0x0C then ['\\', 'f']
  else if unit = 0x0D then ['\\', 'r']
  else if unit.toNat < 0x20 ∨ unit.IsHigh ∨ unit.IsLow then unicodeEscape unit.toNat
  else [Char.ofNat unit.toNat]

def escape : List CodeUnit → List Char
  | [] => []
  | [unit] => escapeUnit unit
  | high :: low :: units =>
    if high.IsHigh ∧ low.IsLow then CodeUnit.paired high low :: escape units
    else escapeUnit high ++ escape (low :: units)

def quoted (units : List CodeUnit) : List Char := '"' :: (escape units ++ ['"'])

mutual

/-- `JSON.stringify`. -/
def text : Json → List Char
  | .null => ['n', 'u', 'l', 'l']
  | .bool true => ['t', 'r', 'u', 'e']
  | .bool false => ['f', 'a', 'l', 's', 'e']
  | .number numeral => numeral.text
  | .string units => quoted units
  | .array elements => '[' :: (elementsText elements ++ [']'])
  | .object entries => '\x7b' :: (entriesText entries ++ ['\x7d'])

def elementsText : List Json → List Char
  | [] => []
  | json :: rest => json.text ++ ((if rest.isEmpty then [] else [',']) ++ elementsText rest)

def entriesText : List (List CodeUnit × Json) → List Char
  | [] => []
  | (key, json) :: rest =>
    quoted key ++ (':' :: json.text ++ ((if rest.isEmpty then [] else [',']) ++ entriesText rest))

end

mutual

/-- The containers around the deepest value. -/
def height : Json → ℕ
  | .array elements => elementsHeight elements
  | .object entries => entriesHeight entries
  | _ => 0

def elementsHeight : List Json → ℕ
  | [] => 0
  | json :: rest => max (json.height + 1) (elementsHeight rest)

def entriesHeight : List (List CodeUnit × Json) → ℕ
  | [] => 0
  | (_, json) :: rest => max (json.height + 1) (entriesHeight rest)

end

/-- The length of a text in UTF-8. -/
def byteLength (text : List Char) : ℕ := (text.map Char.utf8Size).sum

/-- The bytes that a value is written as. -/
def size (json : Json) : ℕ := byteLength json.text

@[simp] theorem byteLength_nil : byteLength [] = 0 := rfl

@[simp] theorem byteLength_cons (c : Char) (text : List Char) :
    byteLength (c :: text) = c.utf8Size + byteLength text := by
  simp [byteLength]

@[simp] theorem byteLength_append (first second : List Char) :
    byteLength (first ++ second) = byteLength first + byteLength second := by
  simp [byteLength]

theorem byteLength_pos {text : List Char} (h : text ≠ []) : 0 < byteLength text := by
  cases text with
  | nil => exact absurd rfl h
  | cons c text =>
    have := c.utf8Size_pos
    rw [byteLength_cons]
    omega

theorem two_le_quoted (units : List CodeUnit) : 2 ≤ byteLength (quoted units) := by
  have hquote : ('"' : Char).utf8Size = 1 := by decide
  simp only [quoted, byteLength_cons, byteLength_append, byteLength_nil, hquote]
  omega

/-- Every element but the last has a comma after it. -/
theorem elementsText_size (elements : List Json) :
    byteLength (elementsText elements) + (if elements = [] then 0 else 1) =
      (elements.map (fun json => json.size + 1)).sum := by
  induction elements with
  | nil => rfl
  | cons json rest ih =>
    have hcomma : (',' : Char).utf8Size = 1 := by decide
    rw [List.map_cons, List.sum_cons, ← ih]
    cases rest with
    | nil => simp [elementsText, size]
    | cons next rest =>
      simp [elementsText, size, hcomma]
      omega

theorem size_array (elements : List Json) :
    (array elements).size = (elements.map (fun json => json.size + 1)).sum +
      if elements = [] then 2 else 1 := by
  have hopen : ('[' : Char).utf8Size = 1 := by decide
  have hclose : (']' : Char).utf8Size = 1 := by decide
  rw [← elementsText_size]
  simp only [size, text, byteLength_cons, byteLength_append, byteLength_nil, hopen, hclose]
  split <;> omega

theorem entriesText_size (entries : List (List CodeUnit × Json)) :
    byteLength (entriesText entries) + (if entries = [] then 0 else 1) =
      (entries.map (fun entry => entry.2.size + (byteLength (quoted entry.1) + 2))).sum := by
  induction entries with
  | nil => rfl
  | cons entry rest ih =>
    have hcolon : (':' : Char).utf8Size = 1 := by decide
    have hcomma : (',' : Char).utf8Size = 1 := by decide
    rw [List.map_cons, List.sum_cons, ← ih]
    cases rest with
    | nil =>
      simp [entriesText, size, hcolon]
      omega
    | cons next rest =>
      simp [entriesText, size, hcolon, hcomma]
      omega

theorem size_object (entries : List (List CodeUnit × Json)) :
    (object entries).size =
      (entries.map (fun entry => entry.2.size + (byteLength (quoted entry.1) + 2))).sum +
        if entries = [] then 2 else 1 := by
  have hopen : ('\x7b' : Char).utf8Size = 1 := by decide
  have hclose : ('\x7d' : Char).utf8Size = 1 := by decide
  rw [← entriesText_size]
  simp only [size, text, byteLength_cons, byteLength_append, byteLength_nil, hopen, hclose]
  split <;> omega

theorem elementsHeight_le {elements : List Json} {bound : ℕ} :
    elementsHeight elements ≤ bound ↔ ∀ json ∈ elements, json.height < bound := by
  induction elements with
  | nil => simp [elementsHeight]
  | cons json rest ih => simp [elementsHeight, ih]

theorem entriesHeight_le {entries : List (List CodeUnit × Json)} {bound : ℕ} :
    entriesHeight entries ≤ bound ↔ ∀ entry ∈ entries, entry.2.height < bound := by
  induction entries with
  | nil => simp [entriesHeight]
  | cons entry rest ih => simp [entriesHeight, ih]

theorem height_array_lt {elements : List Json} {bound : ℕ} :
    (array elements).height < bound + 1 ↔ ∀ json ∈ elements, json.height < bound := by
  rw [Nat.lt_succ_iff, height, elementsHeight_le]

theorem height_object_lt {entries : List (List CodeUnit × Json)} {bound : ℕ} :
    (object entries).height < bound + 1 ↔ ∀ entry ∈ entries, entry.2.height < bound := by
  rw [Nat.lt_succ_iff, height, entriesHeight_le]

end Json

end PiDeck.Collections
