import Mathlib
import PiDeck.Collections.Delimiters
import PiDeck.Collections.Utf16

/-! The text of a link. Sentence punctuation goes from the end of a match first, then closing
brackets without openers, kind by kind. -/
namespace PiDeck.Links
open PiDeck.Collections PiDeck.Collections.Delimiters

abbrev Text := List CodeUnit

def unit (c : Char) : CodeUnit := .ofNat c.toNat

/-- The punctuation that goes. -/
def isPunctuation (unit' : CodeUnit) : Bool :=
  decide (unit' ∈ [unit '.', unit ',', unit ';', unit '!', unit '?'])

/-- What `trimClosingDelimiters` makes of a text, both read from their end. -/
def trimEnd (text : Text) : Text :=
  trimUnbalanced (unit '\x7b') (unit '\x7d')
    (trimUnbalanced (unit '[') (unit ']')
      (trimUnbalanced (unit '(') (unit ')') (text.dropWhile isPunctuation)))

def trimClosingDelimiters (text : Text) : Text := (trimEnd text.reverse).reverse

/-- A text, read from its end, ends neither in punctuation nor in a closer without an opener. -/
def CleanEnd : Text → Prop
  | [] => True
  | last :: text => isPunctuation last = false ∧
    (last = unit ')' → 0 < depth (unit '(') (unit ')') text) ∧
    (last = unit ']' → 0 < depth (unit '[') (unit ']') text) ∧
    (last = unit '\x7d' → 0 < depth (unit '\x7b') (unit '\x7d') text)

def Clean (text : Text) : Prop := CleanEnd text.reverse

instance : DecidablePred CleanEnd := fun text => by
  cases text with
  | nil => exact isTrue trivial
  | cons last text => exact inferInstanceAs (Decidable (_ ∧ _ ∧ _ ∧ _))

instance : DecidablePred Clean := fun text => inferInstanceAs (Decidable (CleanEnd text.reverse))

/-- What a match ends in when its punctuation is gone: in round, then square, then curly closers. One
of them has an opener, or what stands before them all is clean. -/
def Settles (text : Text) : Prop :=
  let unpunctuated := text.reverse.dropWhile isPunctuation
  let round := stem (unit ')') unpunctuated
  let square := stem (unit ']') round
  Stops (unit '(') (unit ')') unpunctuated ∨ Stops (unit '[') (unit ']') round ∨
    Stops (unit '\x7b') (unit '\x7d') square ∨ CleanEnd (stem (unit '\x7d') square)

variable {text : Text}

/-- A matched closer at the end is clean, and no other loop drops it. -/
theorem cleanEnd_round {rest : Text} (h : 0 < depth (unit '(') (unit ')') rest) :
    CleanEnd (unit ')' :: rest) :=
  ⟨by decide, fun _ => h, fun hlast => absurd hlast (by decide), fun hlast => absurd hlast (by decide)⟩

theorem cleanEnd_square {rest : Text} (h : 0 < depth (unit '[') (unit ']') rest) :
    CleanEnd (unit ']' :: rest) :=
  ⟨by decide, fun hlast => absurd hlast (by decide), fun _ => h, fun hlast => absurd hlast (by decide)⟩

theorem cleanEnd_curly {rest : Text} (h : 0 < depth (unit '\x7b') (unit '\x7d') rest) :
    CleanEnd (unit '\x7d' :: rest) :=
  ⟨by decide, fun hlast => absurd hlast (by decide), fun hlast => absurd hlast (by decide), fun _ => h⟩

theorem clean_trim_iff : Clean (trimClosingDelimiters text) ↔ Settles text := by
  rw [Clean, trimClosingDelimiters, List.reverse_reverse, trimEnd, Settles]
  generalize text.reverse.dropWhile isPunctuation = unpunctuated
  by_cases hround : Stops (unit '(') (unit ')') unpunctuated
  · obtain ⟨rest, htrim, hdepth⟩ := trimUnbalanced_of_stops (by decide) hround
    rw [htrim, trimUnbalanced_of_ne (by decide), trimUnbalanced_of_ne (by decide)]
    exact iff_of_true (cleanEnd_round hdepth) (.inl hround)
  rw [trimUnbalanced_of_not_stops (by decide) hround]
  by_cases hsquare : Stops (unit '[') (unit ']') (stem (unit ')') unpunctuated)
  · obtain ⟨rest, htrim, hdepth⟩ := trimUnbalanced_of_stops (by decide) hsquare
    rw [htrim, trimUnbalanced_of_ne (by decide)]
    exact iff_of_true (cleanEnd_square hdepth) (.inr (.inl hsquare))
  rw [trimUnbalanced_of_not_stops (by decide) hsquare]
  by_cases hcurly : Stops (unit '\x7b') (unit '\x7d')
      (stem (unit ']') (stem (unit ')') unpunctuated))
  · obtain ⟨rest, htrim, hdepth⟩ := trimUnbalanced_of_stops (by decide) hcurly
    rw [htrim]
    exact iff_of_true (cleanEnd_curly hdepth) (.inr (.inr (.inl hcurly)))
  rw [trimUnbalanced_of_not_stops (by decide) hcurly]
  simp [hround, hsquare, hcurly]

theorem trim_isPrefix (text : Text) : trimClosingDelimiters text <+: text := by
  rw [← List.reverse_suffix, trimClosingDelimiters, List.reverse_reverse]
  exact (trimUnbalanced_suffix _ _ _).trans ((trimUnbalanced_suffix _ _ _).trans
    ((trimUnbalanced_suffix _ _ _).trans (List.dropWhile_suffix _)))

theorem length_trim_le (text : Text) : (trimClosingDelimiters text).length ≤ text.length :=
  (trim_isPrefix text).length_le

end PiDeck.Links
