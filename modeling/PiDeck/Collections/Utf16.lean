import Mathlib

/-! Strings of 16-bit code units, the text that well-formed ones hold, and the bytes that an encoder
of UTF-8 makes of any of them. A surrogate without its partner is replaced. -/
namespace PiDeck.Collections

abbrev CodeUnit := UInt16

namespace CodeUnit

def IsHigh (unit : CodeUnit) : Prop := 0xD800 ≤ unit.toNat ∧ unit.toNat ≤ 0xDBFF

def IsLow (unit : CodeUnit) : Prop := 0xDC00 ≤ unit.toNat ∧ unit.toNat ≤ 0xDFFF

instance : DecidablePred IsHigh := fun unit =>
  inferInstanceAs (Decidable (0xD800 ≤ unit.toNat ∧ unit.toNat ≤ 0xDBFF))

instance : DecidablePred IsLow := fun unit =>
  inferInstanceAs (Decidable (0xDC00 ≤ unit.toNat ∧ unit.toNat ≤ 0xDFFF))

theorem IsLow.not_isHigh {unit : CodeUnit} (h : unit.IsLow) : ¬unit.IsHigh := by
  rw [IsHigh]
  rw [IsLow] at h
  omega

/-- The character that a pair of surrogates stands for. -/
def paired (high low : CodeUnit) : Char :=
  Char.ofNat (0x10000 + (high.toNat - 0xD800) * 0x400 + (low.toNat - 0xDC00))

/-- White space and ends of lines. -/
def isSpace (unit : CodeUnit) : Bool :=
  decide (unit.toNat ∈ [0x09, 0x0A, 0x0B, 0x0C, 0x0D, 0x20, 0xA0, 0x1680, 0x2028, 0x2029, 0x202F,
    0x205F, 0x3000, 0xFEFF] ∨ 0x2000 ≤ unit.toNat ∧ unit.toNat ≤ 0x200A)

/-- The bytes of a code unit that has no partner. -/
def utf8 (unit : CodeUnit) : List UInt8 :=
  String.utf8EncodeChar (if unit.IsHigh ∨ unit.IsLow then '\uFFFD' else Char.ofNat unit.toNat)

/-- The code units of a character. -/
def ofChar (c : Char) : List CodeUnit :=
  if c.toNat < 0x10000 then [.ofNat c.toNat]
  else [.ofNat (0xD800 + (c.toNat - 0x10000) / 0x400),
    .ofNat (0xDC00 + (c.toNat - 0x10000) % 0x400)]

end CodeUnit
open CodeUnit

/-- The code units of a text. -/
def utf16 (text : List Char) : List CodeUnit := text.flatMap ofChar

/-- What an encoder makes of the units: a pair is one character, and a surrogate that is left over is
replaced. -/
def utf8 : List CodeUnit → List UInt8
  | [] => []
  | [unit] => unit.utf8
  | high :: low :: units =>
    if high.IsHigh ∧ low.IsLow then String.utf8EncodeChar (paired high low) ++ utf8 units
    else high.utf8 ++ utf8 (low :: units)

/-- The units are those of a text. -/
def WellFormed (units : List CodeUnit) : Prop := ∃ text, utf16 text = units

/-- A pair of surrogates begins at the position. -/
def PairAt (units : List CodeUnit) (position : ℕ) : Prop :=
  ∃ high low, units[position]? = some high ∧ units[position + 1]? = some low ∧
    high.IsHigh ∧ low.IsLow

/-- The last unit is not one that waits for its partner. -/
def Whole (units : List CodeUnit) : Prop := ∀ unit ∈ units.getLast?, ¬unit.IsHigh

variable {units head tail : List CodeUnit} {unit high low : CodeUnit} {text : List Char}
  {position size : ℕ}

@[simp] theorem utf8_nil : utf8 [] = [] := rfl

theorem utf8_pair (hhigh : high.IsHigh) (hlow : low.IsLow) :
    utf8 (high :: low :: units) = String.utf8EncodeChar (paired high low) ++ utf8 units := by
  rw [utf8, if_pos ⟨hhigh, hlow⟩]

/-- A unit that is not the first of a pair is encoded by itself. -/
theorem utf8_cons (h : ¬PairAt (unit :: units) 0) :
    utf8 (unit :: units) = unit.utf8 ++ utf8 units := by
  cases units with
  | nil => exact (List.append_nil _).symm
  | cons next units =>
    rw [utf8, if_neg]
    rintro ⟨hhigh, hlow⟩
    exact h ⟨unit, next, rfl, rfl, hhigh, hlow⟩

theorem pairAt_zero : PairAt (high :: low :: units) 0 ↔ high.IsHigh ∧ low.IsLow := by
  constructor
  · rintro ⟨_, _, hhead, hnext, hpaired⟩
    rwa [← Option.some.inj hhead, ← Option.some.inj hnext] at hpaired
  · exact fun hpaired => ⟨high, low, rfl, rfl, hpaired⟩

theorem not_pairAt_zero (h : ¬unit.IsHigh) : ¬PairAt (unit :: units) 0 := by
  rintro ⟨_, _, hhead, -, hhigh, -⟩
  exact h (Option.some.inj hhead ▸ hhigh)

theorem pairAt_drop : PairAt (units.drop size) position ↔ PairAt units (size + position) := by
  simp only [PairAt, List.getElem?_drop, Nat.add_assoc]

theorem length_utf8_unit (h : unit.IsHigh ∨ unit.IsLow) : unit.utf8.length = 3 := by
  rw [CodeUnit.utf8, if_pos h]
  decide

/-- What is not divided within a pair is encoded part by part. -/
theorem utf8_append
    (h : ∀ position, position + 1 = head.length → ¬PairAt (head ++ tail) position) :
    utf8 (head ++ tail) = utf8 head ++ utf8 tail := by
  induction head using utf8.induct with
  | case1 => rfl
  | case2 unit => exact utf8_cons (h 0 rfl)
  | case3 high low units hpair ih =>
    rw [utf8_pair hpair.1 hpair.2, List.cons_append, List.cons_append, utf8_pair hpair.1 hpair.2,
      List.append_assoc, ih]
    intro position hposition hat
    exact h (position + 2) (by simp [hposition]) hat
  | case4 high low units hpair ih =>
    have hfirst : ∀ rest, ¬PairAt (high :: low :: rest) 0 := fun rest => pairAt_zero.not.mpr hpair
    rw [List.cons_append, List.cons_append, utf8_cons (hfirst _), utf8_cons (hfirst _),
      List.append_assoc, ← List.cons_append, ih]
    intro position hposition hat
    exact h (position + 1) (by simp [hposition]) hat

/-- A pair that is divided takes more bytes than it does in one part. -/
theorem length_utf8_divided (hlength : position + 1 = head.length)
    (h : PairAt (head ++ tail) position) :
    (utf8 (head ++ tail)).length < (utf8 head).length + (utf8 tail).length := by
  induction head using utf8.induct generalizing position with
  | case1 => cases hlength
  | case2 high =>
    cases hlength
    cases tail with
    | nil =>
      obtain ⟨_, _, -, hnext, -⟩ := h
      cases hnext
    | cons low tail =>
      obtain ⟨hhigh, hlow⟩ := pairAt_zero.mp h
      have hfour := Char.utf8Size_le_four (paired high low)
      have hsingle : utf8 [high] = high.utf8 := rfl
      rw [List.singleton_append, utf8_pair hhigh hlow, utf8_cons (not_pairAt_zero hlow.not_isHigh),
        hsingle, List.length_append, List.length_append, String.length_utf8EncodeChar,
        length_utf8_unit (.inl hhigh), length_utf8_unit (.inr hlow)]
      omega
  | case3 high low units hpair ih =>
    rcases position with - | - | position
    · cases hlength
    · exact absurd h (not_pairAt_zero hpair.2.not_isHigh)
    · have hless := ih (by simpa using hlength) h
      rw [utf8_pair hpair.1 hpair.2, List.cons_append, List.cons_append,
        utf8_pair hpair.1 hpair.2, List.length_append, List.length_append]
      omega
  | case4 high low units hpair ih =>
    have hfirst : ∀ rest, ¬PairAt (high :: low :: rest) 0 := fun rest => pairAt_zero.not.mpr hpair
    cases position with
    | zero => cases hlength
    | succ position =>
      have hless := ih (by simpa using hlength) h
      rw [List.cons_append, List.cons_append, utf8_cons (hfirst _), utf8_cons (hfirst _),
        List.length_append, List.length_append, ← List.cons_append]
      omega

/-- No more bytes in one part than in two. -/
theorem length_utf8_append (head tail : List CodeUnit) :
    (utf8 (head ++ tail)).length ≤ (utf8 head).length + (utf8 tail).length := by
  by_cases h : ∃ position, position + 1 = head.length ∧ PairAt (head ++ tail) position
  · obtain ⟨position, hlength, hat⟩ := h
    exact (length_utf8_divided hlength hat).le
  · push Not at h
    rw [utf8_append h, List.length_append]

theorem Whole.append (hhead : Whole head) (htail : Whole tail) : Whole (head ++ tail) := by
  intro unit hunit
  rw [List.getLast?_append] at hunit
  cases hlast : tail.getLast? with
  | none => exact hhead unit (by simpa [hlast] using hunit)
  | some last => exact htail unit (by simpa [hlast] using hunit)

/-- Nothing is divided behind units that end with a character. -/
theorem Whole.utf8_append (h : Whole head) : utf8 (head ++ tail) = utf8 head ++ utf8 tail := by
  refine Collections.utf8_append fun position hposition hat => ?_
  obtain ⟨high, _, hget, -, hhigh, -⟩ := hat
  refine h high ?_ hhigh
  rw [List.getElem?_append_left (by omega)] at hget
  rw [List.getLast?_eq_getElem?, ← hposition]
  exact hget

theorem toNat_ofNat {n : ℕ} (h : n < 0x10000) : (UInt16.ofNat n).toNat = n :=
  UInt16.toNat_ofNat_of_lt' h

/-- The code units of a character and its bytes. -/
theorem ofChar_cases (c : Char) :
    (∃ unit, ofChar c = [unit] ∧ ¬unit.IsHigh ∧ unit.utf8 = String.utf8EncodeChar c) ∨
    ∃ high low, ofChar c = [high, low] ∧ high.IsHigh ∧ low.IsLow ∧ paired high low = c := by
  have hvalid : c.toNat < 0xD800 ∨ 0xDFFF < c.toNat ∧ c.toNat < 0x110000 := c.valid
  by_cases h : c.toNat < 0x10000
  · have hunit : (UInt16.ofNat c.toNat).toNat = c.toNat := toNat_ofNat h
    have hhigh : ¬IsHigh (.ofNat c.toNat) := by
      rw [IsHigh, hunit]
      omega
    have hlow : ¬IsLow (.ofNat c.toNat) := by
      rw [IsLow, hunit]
      omega
    refine .inl ⟨.ofNat c.toNat, if_pos h, hhigh, ?_⟩
    rw [CodeUnit.utf8, if_neg (not_or.mpr ⟨hhigh, hlow⟩), hunit, Char.ofNat_toNat]
  · have hhigh : (UInt16.ofNat (0xD800 + (c.toNat - 0x10000) / 0x400)).toNat =
        0xD800 + (c.toNat - 0x10000) / 0x400 := toNat_ofNat (by omega)
    have hlow : (UInt16.ofNat (0xDC00 + (c.toNat - 0x10000) % 0x400)).toNat =
        0xDC00 + (c.toNat - 0x10000) % 0x400 := toNat_ofNat (by omega)
    refine .inr ⟨_, _, if_neg h, ?_, ?_, ?_⟩
    · rw [IsHigh, hhigh]
      omega
    · rw [IsLow, hlow]
      omega
    · have hscalar : 0x10000 + (0xD800 + (c.toNat - 0x10000) / 0x400 - 0xD800) * 0x400 +
          (0xDC00 + (c.toNat - 0x10000) % 0x400 - 0xDC00) = c.toNat := by omega
      rw [paired, hhigh, hlow, hscalar, Char.ofNat_toNat]

theorem whole_ofChar (c : Char) : Whole (ofChar c) := by
  intro last hlast
  rcases ofChar_cases c with ⟨unit, hunits, hunit, -⟩ | ⟨high, low, hunits, -, hlow, -⟩
  · rw [hunits] at hlast
    cases hlast
    exact hunit
  · rw [hunits] at hlast
    cases hlast
    exact hlow.not_isHigh

theorem utf8_ofChar (c : Char) : utf8 (ofChar c) = String.utf8EncodeChar c := by
  rcases ofChar_cases c with ⟨unit, hunits, -, hbytes⟩ | ⟨high, low, hunits, hhigh, hlow, hpaired⟩
  · rw [hunits]
    exact hbytes
  · rw [hunits, utf8_pair hhigh hlow, hpaired, utf8_nil, List.append_nil]

theorem WellFormed.whole (h : WellFormed units) : Whole units := by
  obtain ⟨text, rfl⟩ := h
  induction text with
  | nil => simp [Whole, utf16]
  | cons c text ih =>
    rw [utf16, List.flatMap_cons]
    exact (whole_ofChar c).append ih

/-- What is made of the units of a text is the text's own bytes. -/
theorem utf8_utf16 (text : List Char) : utf8 (utf16 text) = text.flatMap String.utf8EncodeChar := by
  induction text with
  | nil => rfl
  | cons c text ih =>
    rw [utf16, List.flatMap_cons, (whole_ofChar c).utf8_append, utf8_ofChar, List.flatMap_cons, ← ih,
      utf16]

section Slices

/-- The units in slices of the size. The last one is what is left. -/
def slices (size : ℕ) (units : List CodeUnit) : List (List CodeUnit) :=
  if units = [] ∨ size = 0 then [] else units.take size :: slices size (units.drop size)
termination_by units.length
decreasing_by
  rename_i h
  rw [not_or, ← List.length_eq_zero_iff] at h
  rw [List.length_drop]
  omega

/-- No pair of surrogates has its two halves in two slices. -/
def CleanlyCut (size : ℕ) (units : List CodeUnit) : Prop :=
  ∀ position, PairAt units position → ¬size ∣ position + 1

/-- The first cut is between the halves of a pair, or the slices behind it have to be looked at. -/
theorem cleanlyCut_iff (hsize : 0 < size) : CleanlyCut size units ↔
    ¬PairAt units (size - 1) ∧ CleanlyCut size (units.drop size) := by
  constructor
  · intro h
    refine ⟨fun hat => h _ hat (by rw [Nat.sub_add_cancel hsize]), fun position hat hdvd => ?_⟩
    refine h _ (pairAt_drop.mp hat) ?_
    rw [Nat.add_assoc]
    exact (Nat.dvd_add_right (dvd_refl size)).mpr hdvd
  · rintro ⟨hfirst, hrest⟩ position hat ⟨cuts, hcuts⟩
    cases cuts with
    | zero => cases hcuts
    | succ cuts =>
      rw [Nat.mul_succ] at hcuts
      cases cuts with
      | zero =>
        have hposition : position = size - 1 := by omega
        exact hfirst (hposition ▸ hat)
      | succ cuts =>
        rw [Nat.mul_succ] at hcuts
        obtain ⟨beyond, rfl⟩ : ∃ beyond, position = size + beyond :=
          ⟨position - size, by omega⟩
        refine hrest beyond (pairAt_drop.mpr hat) ⟨cuts + 1, ?_⟩
        rw [Nat.mul_succ]
        omega

/-- The slices have the bytes of the whole, or more bytes than the whole. -/
theorem utf8_slices (hsize : 0 < size) (units : List CodeUnit) :
    (CleanlyCut size units ∧ (slices size units).flatMap utf8 = utf8 units) ∨
    (¬CleanlyCut size units ∧
      (utf8 units).length < ((slices size units).flatMap utf8).length) := by
  induction units using slices.induct size with
  | case1 units h =>
    obtain rfl : units = [] := h.resolve_right hsize.ne'
    left
    rw [slices, if_pos h]
    exact ⟨fun position hat => by simp [PairAt] at hat, rfl⟩
  | case2 units h ih =>
    have hwhole := List.take_append_drop size units
    have hless := length_utf8_append (units.take size) (units.drop size)
    rw [hwhole] at hless
    rw [slices, if_neg h, List.flatMap_cons, List.length_append, cleanlyCut_iff hsize]
    by_cases hfirst : PairAt units (size - 1)
    · have hlength : (units.take size).length = size := by
        obtain ⟨_, _, hget, -⟩ := hfirst
        obtain ⟨hbound, -⟩ := List.getElem?_eq_some_iff.mp hget
        rw [List.length_take]
        omega
      have hdivided : (utf8 units).length <
          (utf8 (units.take size)).length + (utf8 (units.drop size)).length := by
        have hat : PairAt (units.take size ++ units.drop size) (size - 1) := by rwa [hwhole]
        have hlt := length_utf8_divided (by omega) hat
        rwa [hwhole] at hlt
      right
      refine ⟨fun hclean => hclean.1 hfirst, ?_⟩
      rcases ih with ⟨-, hsame⟩ | ⟨-, hmore⟩
      · rw [hsame]
        exact hdivided
      · omega
    · have hparts : utf8 units = utf8 (units.take size) ++ utf8 (units.drop size) := by
        have hcut : ∀ position, position + 1 = (units.take size).length →
            ¬PairAt (units.take size ++ units.drop size) position := by
          intro position hposition hat
          rw [hwhole] at hat
          obtain ⟨_, _, -, hnext, -⟩ := id hat
          obtain ⟨hbound, -⟩ := List.getElem?_eq_some_iff.mp hnext
          rw [List.length_take] at hposition
          have hlast : position = size - 1 := by omega
          exact hfirst (hlast ▸ hat)
        have happend := utf8_append hcut
        rwa [hwhole] at happend
      rcases ih with ⟨hclean, hsame⟩ | ⟨hclean, hmore⟩
      · left
        exact ⟨⟨hfirst, hclean⟩, by rw [hsame, hparts]⟩
      · right
        refine ⟨fun hboth => hclean hboth.2, ?_⟩
        rw [hparts, List.length_append]
        omega

end Slices
end PiDeck.Collections
