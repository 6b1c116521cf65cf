import Mathlib
import PiDeck.Collections.Utf16

/-! Key chords: modifiers in any order and spelling, and a key, with dashes between them. A chord is
written anew from the modifiers and the key that were read, and classified by what was written. -/
namespace PiDeck.Keymap
open PiDeck.Collections

abbrev Text := List CodeUnit

def text (string : String) : Text := string.toList.map fun c => .ofNat c.toNat

def dash : CodeUnit := 0x2D

inductive Modifier
  | mod
  | cmd
  | ctrl
  | alt
  | shift
  deriving DecidableEq, Repr

namespace Modifier

instance : Fintype Modifier where
  elems := {mod, cmd, ctrl, alt, shift}
  complete := by
    intro modifier
    cases modifier <;> decide

def name : Modifier → Text
  | mod => text "Mod"
  | cmd => text "Cmd"
  | ctrl => text "Ctrl"
  | alt => text "Alt"
  | shift => text "Shift"

/-- `MODIFIER_ORDER`. -/
def order : List Modifier := [mod, cmd, ctrl, alt, shift]

end Modifier

/-- `MODIFIER_NAMES`. -/
def modifierNames : List (Text × Modifier) :=
  [(text "mod", .mod), (text "cmd", .cmd), (text "meta", .cmd), (text "ctrl", .ctrl),
    (text "alt", .alt), (text "shift", .shift)]

/-- `NAMED_KEYS`. -/
def namedKeys : List (Text × Text) :=
  [(text "esc", text "Escape"), (text "escape", text "Escape"), (text "enter", text "Enter"),
    (text "return", text "Enter"), (text "space", text "Space"), (text "tab", text "Tab"),
    (text "backspace", text "Backspace"), (text "delete", text "Delete"), (text "home", text "Home"),
    (text "end", text "End"), (text "arrowup", text "ArrowUp"), (text "arrowdown", text "ArrowDown"),
    (text "arrowleft", text "ArrowLeft"), (text "arrowright", text "ArrowRight"),
    (text "pageup", text "PageUp"), (text "pagedown", text "PageDown")]

def functionKeys : List Text :=
  ["F1", "F2", "F3", "F4", "F5", "F6", "F7", "F8", "F9", "F10", "F11", "F12"].map text

/-- Lower case in ASCII. -/
def lowerAscii (unit : CodeUnit) : CodeUnit := if 0x41 ≤ unit ∧ unit ≤ 0x5A then unit + 0x20 else unit

/-- The capital I with a dot, and what its lower case is written as. -/
def dottedI : CodeUnit := 0x130

def dottedISmall : Text := [0x69, 0x307]

/-- `String.toLowerCase`. One code unit has a lower case of one, which is in lower case and no space
unless it was one; only the capital I with a dot has a lower case of two. -/
structure Lowering where
  toLowerCase : Text → Text
  ascii : ∀ text : Text, (∀ unit ∈ text, unit < 0x80) → toLowerCase text = text.map lowerAscii
  single : ∀ unit : CodeUnit, unit ≠ dottedI → ∃ small : CodeUnit, toLowerCase [unit] = [small] ∧
    toLowerCase [small] = [small] ∧ (small.isSpace = true → unit.isSpace = true) ∧ small ≠ dottedI
  dotted : toLowerCase [dottedI] = dottedISmall
  dottedSmall : toLowerCase dottedISmall = dottedISmall

variable (lowering : Lowering)

/-- `trim`. -/
def trim (value : Text) : Text := (value.dropWhile CodeUnit.isSpace).rdropWhile CodeUnit.isSpace

/-- `/^f(?:[1-9]|1[0-2])$/i`, with the text in capitals. -/
def functionKey (value : Text) : Option Text :=
  functionKeys.find? fun key => value == key || value == key.map lowerAscii

def normalizedKey (value : Text) : Option Text :=
  let trimmed := trim value
  if trimmed.length = 1 ∧ trimmed ≠ text " " then some (lowering.toLowerCase trimmed)
  else ((namedKeys.lookup (lowering.toLowerCase trimmed)).or (functionKey trimmed))

/-- The loop over the modifiers. One that is unknown or comes twice ends it. -/
def readModifiers : List Text → Finset Modifier → Option (Finset Modifier)
  | [], modifiers => some modifiers
  | raw :: rest, modifiers =>
    (modifierNames.lookup (lowering.toLowerCase raw)).bind fun modifier =>
      if modifier ∈ modifiers then none else readModifiers rest (insert modifier modifiers)

def maxKeyBindingLength : ℕ := 64

/-- A chord as the modifiers and the key of it. -/
structure Chord where
  modifiers : Finset Modifier
  key : Text
  deriving DecidableEq

/-- The raw key and the raw modifiers. A dash at the end is the key. -/
def segments (trimmed : Text) : Text × List Text :=
  if trimmed.getLast? = some dash then ([dash], (trimmed.splitOn dash).filter (· ≠ []))
  else ((trimmed.splitOn dash).getLastD [], (trimmed.splitOn dash).dropLast)

/-- What `normalizeKeyChord` reads. -/
def readChord (value : Text) : Option Chord :=
  let trimmed := trim value
  if trimmed = [] ∨ maxKeyBindingLength < trimmed.length ∨ trimmed.any CodeUnit.isSpace then none
  else if (segments trimmed).1 = [] then none
  else
    (readModifiers lowering (segments trimmed).2 ∅).bind fun modifiers =>
      if .mod ∈ modifiers ∧ (.cmd ∈ modifiers ∨ .ctrl ∈ modifiers) then none
      else (normalizedKey lowering (segments trimmed).1).map fun key => ⟨modifiers, key⟩

def ordered (modifiers : Finset Modifier) : List Modifier :=
  Modifier.order.filter (· ∈ modifiers)

/-- What it writes. -/
def Chord.render (chord : Chord) : Text :=
  [dash].intercalate ((ordered chord.modifiers).map Modifier.name ++ [chord.key])

def normalizeKeyChord (value : Text) : Option Text := (readChord lowering value).map Chord.render

/-! ### Classification -/

inductive Platform
  | mac
  | windows
  | linux
  deriving DecidableEq, Repr

inductive BindingKind
  | leader
  | direct
  | leaderKey
  deriving DecidableEq, Repr

inductive Risk
  | safe
  | browserRisky
  | terminalReserved
  | widgetLocal
  | osUnavailable
  | banned
  deriving DecidableEq, Repr

structure Classification where
  risk : Risk
  reason : Option Text
  deriving DecidableEq

/-- `WIDGET_LOCAL_KEYS`. -/
def widgetLocalKeys : List Text :=
  ["Escape", "Enter", "Space", "Tab", "Home", "End", "ArrowUp", "ArrowDown", "ArrowLeft",
    "ArrowRight", "PageUp", "PageDown"].map text

/-- `PRIMARY_UNAVAILABLE_KEYS`. -/
def primaryUnavailableKeys : List Text :=
  ["0", "1", "2", "3", "4", "5", "6", "7", "8", "9", "=", "-", "f", "l", "n", "p", "q", "r", "t",
    "w"].map text

structure ChordParts where
  modifiers : List Text
  key : Text

/-- `chordParts`: the last piece is the key, whatever stands before it. -/
def chordParts (binding : Text) : ChordParts :=
  ⟨(binding.splitOn dash).dropLast, (binding.splitOn dash).getLastD []⟩

/-- Upper case of a key of one letter, as it is asked for here. -/
def normalizePrefixKey (toUpperCase : Text → Text) (value : Text) : Option Text :=
  (normalizeKeyChord lowering value).bind fun chord =>
    let parts := chordParts chord
    if parts.key = [] ∨ parts.modifiers.any (· ≠ text "Shift") then none
    else if parts.key ∈ widgetLocalKeys ∨ parts.key.length ≠ 1 then none
    else if parts.modifiers = [] then some parts.key
    else some (text "Shift-" ++ toUpperCase parts.key)

def isPrimaryModifier (modifiers : List Text) (platform : Platform) : Bool :=
  decide (text "Mod" ∈ modifiers) ||
    (if platform = .mac then decide (text "Cmd" ∈ modifiers)
    else decide (text "Ctrl" ∈ modifiers))

/-- `/^(?:Mod|Ctrl)-[a-z]$/`. -/
def isLeader (normalized : Text) : Bool :=
  (text "Mod-" == normalized.dropLast || text "Ctrl-" == normalized.dropLast) &&
    decide (∃ last ∈ normalized.getLast?, 0x61 ≤ last ∧ last ≤ 0x7A)

/-- What becomes of a chord that is neither left to the widgets nor to the terminal nor banned. -/
def classifyPrimary (kind : BindingKind) (platform : Platform) (normalized : Text) :
    Classification :=
  let parts := chordParts normalized
  if text "Cmd" ∈ parts.modifiers ∧ platform ≠ .mac then
    ⟨.osUnavailable, some (text "Cmd bindings are unavailable on this platform.")⟩
  else if isPrimaryModifier parts.modifiers platform ∧ parts.key ∈ primaryUnavailableKeys then
    ⟨.osUnavailable,
      some (normalized ++ text " is reserved by the browser or operating system.")⟩
  else if kind = .leader ∧
      (normalized = text "Mod-k" ∨ (text "Ctrl-").isPrefixOf normalized = true) then
    ⟨.safe, none⟩
  else if normalized = text "Mod-," then ⟨.safe, none⟩
  else ⟨.browserRisky,
    some (normalized ++ text " may replace a browser shortcut and needs explicit confirmation.")⟩

def classifyChord (kind : BindingKind) (platform : Platform) (normalized : Text) : Classification :=
  let parts := chordParts normalized
  if parts.key ∈ widgetLocalKeys then
    ⟨.widgetLocal, some (parts.key ++ text " remains local to terminal and list widgets.")⟩
  else if kind = .leader then
    if isLeader normalized then classifyPrimary kind platform normalized
    else ⟨.terminalReserved,
      some (text "Leaders must be Mod-letter or Ctrl-letter chords with an exact control byte.")⟩
  else if normalized = text "Mod-k" ∨ normalized = text "Mod-Shift-p" then
    ⟨.banned, some (normalized ++ text " is a removed direct alias.")⟩
  else if !isPrimaryModifier parts.modifiers platform || decide (text "Alt" ∈ parts.modifiers) ||
      (decide (text "Ctrl" ∈ parts.modifiers) && !decide (text "Mod" ∈ parts.modifiers)) then
    ⟨.terminalReserved,
      some (text "Plain, Alt, and explicit terminal Ctrl chords pass through to the PTY.")⟩
  else classifyPrimary kind platform normalized

def classifyKeyBinding (toUpperCase : Text → Text) (binding : Text) (kind : BindingKind)
    (platform : Platform) : Classification :=
  if kind = .leaderKey then
    match normalizePrefixKey lowering toUpperCase binding with
    | none => ⟨.widgetLocal, some (text "Leader keys must be one printable key.")⟩
    | some normalized =>
      if lowering.toLowerCase normalized = text "p" then
        ⟨.banned, some (text "Prefix p is a removed alias and stays reserved.")⟩
      else ⟨.safe, none⟩
  else
    match normalizeKeyChord lowering binding with
    | none => ⟨.widgetLocal, some (text "The chord is outside the key grammar.")⟩
    | some normalized => classifyChord kind platform normalized

end PiDeck.Keymap
