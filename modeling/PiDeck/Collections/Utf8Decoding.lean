import Mathlib

/-! Decoding bytes as UTF-8. A decoder reads byte by byte and keeps what it has of an unfinished
sequence; where a sequence cannot go on, and where the bytes end within one, stands one replacement
character. Decoding two parts one by one is decoding the whole where no sequence goes on from the
first part into the second. -/
namespace PiDeck.Collections.Utf8

abbrev Bytes := List UInt8

/-- An unfinished sequence: the bits so far, the bytes still needed, the bounds of the next one. -/
structure Pending where
  bits : ℕ
  needed : ℕ
  lower : ℕ
  upper : ℕ
  deriving DecidableEq, Repr

def replacement : Char := '\uFFFD'

/-- A byte where a sequence may begin. -/
def start (byte : UInt8) : List Char × Option Pending :=
  let b := byte.toNat
  if b ≤ 0x7F then ([Char.ofNat b], none)
  else if 0xC2 ≤ b ∧ b ≤ 0xDF then ([], some ⟨b % 0x20, 1, 0x80, 0xBF⟩)
  else if 0xE0 ≤ b ∧ b ≤ 0xEF then
    ([], some ⟨b % 0x10, 2, if b = 0xE0 then 0xA0 else 0x80, if b = 0xED then 0x9F else 0xBF⟩)
  else if 0xF0 ≤ b ∧ b ≤ 0xF4 then
    ([], some ⟨b % 0x08, 3, if b = 0xF0 then 0x90 else 0x80, if b = 0xF4 then 0x8F else 0xBF⟩)
  else ([replacement], none)

/-- The byte goes on with the sequence. -/
def Continues (state : Option Pending) (byte : UInt8) : Prop :=
  ∃ pending, state = some pending ∧ pending.lower ≤ byte.toNat ∧ byte.toNat ≤ pending.upper

instance (state : Option Pending) (byte : UInt8) : Decidable (Continues state byte) :=
  match state with
  | none => isFalse (by simp [Continues])
  | some pending => decidable_of_iff (pending.lower ≤ byte.toNat ∧ byte.toNat ≤ pending.upper) (by
      simp [Continues])

/-- The next byte. One that does not go on with the sequence is read as a start. -/
def next (state : Option Pending) (byte : UInt8) : List Char × Option Pending :=
  match state with
  | none => start byte
  | some pending =>
    if pending.lower ≤ byte.toNat ∧ byte.toNat ≤ pending.upper then
      let bits := pending.bits * 0x40 + byte.toNat % 0x40
      if pending.needed = 1 then ([Char.ofNat bits], none)
      else ([], some ⟨bits, pending.needed - 1, 0x80, 0xBF⟩)
    else (replacement :: (start byte).1, (start byte).2)

/-- The end of the bytes. -/
def finish : Option Pending → List Char
  | none => []
  | some _ => [replacement]

def decodeFrom : Option Pending → Bytes → List Char
  | state, [] => finish state
  | state, byte :: bytes => (next state byte).1 ++ decodeFrom (next state byte).2 bytes

/-- `Buffer.toString` with UTF-8. -/
def decode (bytes : Bytes) : List Char := decodeFrom none bytes

def stateAfter (state : Option Pending) (bytes : Bytes) : Option Pending :=
  bytes.foldl (fun state byte => (next state byte).2) state

variable {state : Option Pending} {xs ys : Bytes}

/-- No sequence goes on from the bytes so far into the next ones. -/
def Parted (xs ys : Bytes) : Prop := ∀ byte ∈ ys.head?, ¬Continues (stateAfter none xs) byte

/-- A sequence that does not go on has come to its end. -/
theorem decodeFrom_of_parted (h : ∀ byte ∈ ys.head?, ¬Continues state byte) :
    decodeFrom state ys = finish state ++ decode ys := by
  cases state with
  | none => rfl
  | some pending =>
    cases ys with
    | nil => rfl
    | cons byte ys =>
      have hends : ¬(pending.lower ≤ byte.toNat ∧ byte.toNat ≤ pending.upper) :=
        fun hbounds => h byte rfl ⟨pending, rfl, hbounds⟩
      simp [decodeFrom, next, hends, finish, decode]

theorem decodeFrom_append (h : ∀ byte ∈ ys.head?, ¬Continues (stateAfter state xs) byte) :
    decodeFrom state (xs ++ ys) = decodeFrom state xs ++ decode ys := by
  induction xs generalizing state with
  | nil => exact decodeFrom_of_parted h
  | cons byte xs ih =>
    rw [List.cons_append, decodeFrom, ih h, decodeFrom, List.append_assoc]

theorem decode_append (h : Parted xs ys) : decode (xs ++ ys) = decode xs ++ decode ys :=
  decodeFrom_append h

theorem Parted.take (h : Parted xs ys) (count : ℕ) : Parted xs (ys.take count) := by
  intro byte hbyte
  apply h byte
  rw [List.head?_take] at hbyte
  split at hbyte
  · cases hbyte
  · exact hbyte

@[simp] theorem decode_nil : decode [] = [] := rfl

end PiDeck.Collections.Utf8
