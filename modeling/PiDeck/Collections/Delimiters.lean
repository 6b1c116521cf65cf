import Mathlib

/-! Texts read from their end, and the closing delimiters that stand there. Closers without openers
are dropped one by one until one has an opener; then all of the run before it stays. -/
namespace PiDeck.Collections.Delimiters

variable {α : Type} [DecidableEq α]

/-- The loop that drops unbalanced closers from the end of a text. -/
def trimUnbalanced (opener closer : α) : List α → List α
  | [] => []
  | last :: text =>
    if last = closer ∧ (last :: text).count opener < (last :: text).count closer then
      trimUnbalanced opener closer text
    else last :: text

/-- The openers that are still open where the text ends. -/
def depth (opener closer : α) : List α → ℕ
  | [] => 0
  | last :: text =>
    if last = opener then depth opener closer text + 1
    else if last = closer then depth opener closer text - 1
    else depth opener closer text

/-- What stands before the closers at the end. -/
def stem (closer : α) (text : List α) : List α := text.dropWhile (· = closer)

/-- One of the closers at the end has an opener. -/
def Stops (opener closer : α) (text : List α) : Prop :=
  stem closer text ≠ text ∧ (stem closer text).count closer < (stem closer text).count opener

instance (opener closer : α) (text : List α) : Decidable (Stops opener closer text) :=
  inferInstanceAs (Decidable (_ ∧ _))

variable {opener closer last : α} {text : List α}

theorem count_le_depth (hne : opener ≠ closer) (text : List α) :
    text.count opener ≤ depth opener closer text + text.count closer := by
  induction text with
  | nil => simp
  | cons last text ih =>
    rw [depth, List.count_cons, List.count_cons]
    by_cases hopener : last = opener
    · subst hopener
      simp only [beq_self_eq_true, if_true, beq_iff_eq, hne, if_false]
      omega
    · by_cases hcloser : last = closer
      · subst hcloser
        simp only [beq_self_eq_true, if_true, beq_iff_eq, hopener, if_false]
        omega
      · simp only [beq_iff_eq, hopener, hcloser, if_false]
        omega

theorem stem_cons_self : stem closer (closer :: text) = stem closer text := by
  simp [stem]

theorem stem_of_ne (h : last ≠ closer) : stem closer (last :: text) = last :: text := by
  simp [stem, h]

theorem stem_sublist (closer : α) (text : List α) : (stem closer text).Sublist text :=
  List.dropWhile_sublist _

theorem length_stem_le (closer : α) (text : List α) : (stem closer text).length ≤ text.length :=
  (stem_sublist closer text).length_le

theorem stem_cons_ne : stem closer (closer :: text) ≠ closer :: text := by
  rw [stem_cons_self]
  intro h
  have hlength := length_stem_le closer text
  rw [h, List.length_cons] at hlength
  omega

theorem not_stops_of_ne (h : last ≠ closer) : ¬Stops opener closer (last :: text) :=
  fun hstops => hstops.1 (stem_of_ne h)

theorem count_stem (hne : opener ≠ closer) (text : List α) :
    (stem closer text).count opener = text.count opener := by
  induction text with
  | nil => rfl
  | cons last text ih =>
    by_cases hlast : last = closer
    · subst hlast
      rw [stem_cons_self, ih, List.count_cons_of_ne hne.symm]
    · rw [stem_of_ne hlast]

theorem trimUnbalanced_of_ne (h : last ≠ closer) :
    trimUnbalanced opener closer (last :: text) = last :: text := by
  rw [trimUnbalanced, if_neg (fun hclose => h hclose.1)]

/-- Where no closer has an opener, all of them go. -/
theorem trimUnbalanced_of_not_stops (hne : opener ≠ closer) (h : ¬Stops opener closer text) :
    trimUnbalanced opener closer text = stem closer text := by
  induction text with
  | nil => rfl
  | cons last text ih =>
    by_cases hlast : last = closer
    · subst hlast
      have hcount : (stem last text).count opener ≤ (stem last text).count last := by
        rw [← stem_cons_self]
        exact Nat.le_of_not_lt fun hlt => h ⟨stem_cons_ne, hlt⟩
      have hunbalanced : (last :: text).count opener < (last :: text).count last := by
        rw [List.count_cons_of_ne hne.symm, List.count_cons_self, ← count_stem hne]
        exact Nat.lt_succ_of_le (hcount.trans ((stem_sublist last text).count_le last))
      rw [trimUnbalanced, if_pos ⟨rfl, hunbalanced⟩, stem_cons_self]
      exact ih fun hstops => Nat.not_lt_of_le hcount hstops.2
    · rw [trimUnbalanced_of_ne hlast, stem_of_ne hlast]

/-- Where one has, the text goes on ending with a closer, and that one is matched. -/
theorem trimUnbalanced_of_stops (hne : opener ≠ closer) (h : Stops opener closer text) :
    ∃ rest, trimUnbalanced opener closer text = closer :: rest ∧
      0 < depth opener closer rest := by
  induction text with
  | nil => exact absurd rfl h.1
  | cons last text ih =>
    by_cases hlast : last = closer
    · subst hlast
      have hopen : (stem last text).count last < (stem last text).count opener := by
        rw [← stem_cons_self]
        exact h.2
      by_cases hunbalanced : (last :: text).count opener < (last :: text).count last
      · rw [trimUnbalanced, if_pos ⟨rfl, hunbalanced⟩]
        apply ih
        refine ⟨fun hstem => ?_, hopen⟩
        rw [hstem] at hopen
        rw [List.count_cons_of_ne hne.symm, List.count_cons_self] at hunbalanced
        omega
      · rw [trimUnbalanced, if_neg (fun hclose => hunbalanced hclose.2)]
        refine ⟨text, rfl, ?_⟩
        rw [List.count_cons_of_ne hne.symm, List.count_cons_self] at hunbalanced
        have hdepth := count_le_depth hne text
        omega
    · exact absurd h (not_stops_of_ne hlast)

theorem trimUnbalanced_suffix (opener closer : α) (text : List α) :
    trimUnbalanced opener closer text <:+ text := by
  induction text with
  | nil => exact List.suffix_rfl
  | cons last text ih =>
    rw [trimUnbalanced]
    split
    · exact ih.trans (List.suffix_cons last text)
    · exact List.suffix_rfl

end PiDeck.Collections.Delimiters
