import Mathlib
import PiDeck.Collections.Keyed

/-! `UPDATE … WHERE` on a table kept as a list of rows: every row that meets the condition is
replaced, the others and the order stay. -/
namespace PiDeck.Collections

section UpdateWhere
variable {ρ κ : Type*} {p q : ρ → Bool} {f : ρ → ρ} {rows : List ρ} {r : ρ}

def updateWhere (p : ρ → Bool) (f : ρ → ρ) (rows : List ρ) : List ρ :=
  rows.map (fun r => if p r then f r else r)

/-- A column that the update does not write. -/
theorem map_updateWhere {g : ρ → κ} (hf : ∀ r, p r = true → g (f r) = g r) :
    (updateWhere p f rows).map g = rows.map g := by
  induction rows with
  | nil => rfl
  | cons r rows ih =>
    have hr : g (if p r then f r else r) = g r := by
      by_cases hp : p r = true
      · rw [if_pos hp]
        exact hf r hp
      · rw [if_neg hp]
    simpa [updateWhere, hr] using ih

theorem countP_updateWhere :
    (updateWhere p f rows).countP q = rows.countP (fun r => if p r then q (f r) else q r) := by
  rw [updateWhere, List.countP_map]
  apply List.countP_congr
  intro r _
  cases hp : p r <;> simp [hp]

/-- An update that does not change which rows count. -/
theorem countP_updateWhere_of_eq (h : ∀ r ∈ rows, p r = true → q (f r) = q r) :
    (updateWhere p f rows).countP q = rows.countP q := by
  rw [countP_updateWhere]
  apply List.countP_congr
  intro r hr
  by_cases hp : p r = true
  · rw [if_pos hp, h r hr hp]
  · rw [if_neg hp]

/-- An update after which none of the updated rows counts. -/
theorem countP_updateWhere_of_drop (h : ∀ r ∈ rows, p r = true → q (f r) = false) :
    (updateWhere p f rows).countP q + rows.countP (fun r => p r && q r) = rows.countP q := by
  induction rows with
  | nil => rfl
  | cons r rows ih =>
    have ih := ih (fun r hr => h r (List.mem_cons_of_mem _ hr))
    have hr := h r (List.mem_cons_self ..)
    rw [updateWhere, List.map_cons, List.countP_cons, List.countP_cons, List.countP_cons]
    rw [updateWhere] at ih
    by_cases hp : p r = true
    · by_cases hq : q r = true
      · simp only [hp, hq, hr hp, if_true, Bool.and_self, Bool.false_eq_true, if_false]
        omega
      · simp only [hp, hq, hr hp, if_true, Bool.and_false, Bool.false_eq_true, if_false]
        omega
    · simp only [hp, Bool.false_eq_true, if_false, Bool.false_and]
      omega

variable [DecidableEq κ] {key : ρ → κ}

theorem findRow_updateWhere (hf : ∀ r, p r = true → key (f r) = key r) (k : κ) :
    findRow key (updateWhere p f rows) k =
      (findRow key rows k).map (fun r => if p r then f r else r) := by
  apply findRow_map
  intro r
  by_cases hp : p r = true
  · rw [if_pos hp]
    exact hf r hp
  · rw [if_neg hp]

end UpdateWhere

end PiDeck.Collections
