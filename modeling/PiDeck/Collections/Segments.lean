import Mathlib

/-! Sequences of segments of a stream. A segment ends at position `stop` and covers `size`
positions up to it; a list of segments covers an interval when each starts where the one before
it stopped. -/
namespace PiDeck.Collections

variable {α : Type*} {stop size : α → ℕ}

/-- The segments cover the positions `n + 1, …, m` in order, each position once. -/
def Covers (stop size : α → ℕ) (n : ℕ) : List α → ℕ → Prop
  | [], m => n = m
  | x :: xs, m => stop x = n + size x ∧ Covers stop size (stop x) xs m

namespace Covers
variable {n m k : ℕ} {x : α} {xs ys : List α}

@[simp] theorem nil_iff : Covers stop size n [] m ↔ n = m := Iff.rfl

@[simp] theorem cons_iff :
    Covers stop size n (x :: xs) m ↔ stop x = n + size x ∧ Covers stop size (stop x) xs m := Iff.rfl

theorem append (h : Covers stop size n xs k) (h' : Covers stop size k ys m) :
    Covers stop size n (xs ++ ys) m := by
  induction xs generalizing n with
  | nil =>
    obtain rfl : n = k := h
    exact h'
  | cons x xs ih => exact ⟨h.1, ih h.2⟩

theorem concat (h : Covers stop size n xs m) (hx : stop x = m + size x) :
    Covers stop size n (xs ++ [x]) (stop x) :=
  h.append ⟨hx, rfl⟩

/-- Segments of positive size stop after the point they start from. -/
theorem lt_stop (h : Covers stop size n xs m) (hpos : ∀ x ∈ xs, 0 < size x) :
    ∀ x ∈ xs, n < stop x := by
  induction xs generalizing n with
  | nil => simp
  | cons y ys ih =>
    have hy := hpos y List.mem_cons_self
    have hstop := h.1
    intro x hx
    rcases List.mem_cons.mp hx with rfl | hx
    · omega
    · have := ih h.2 (fun z hz => hpos z (List.mem_cons_of_mem _ hz)) x hx
      omega

end Covers
end PiDeck.Collections
