import Mathlib

/-! A waiting list whose members leave one at a time, and the order in which they leave. -/
namespace PiDeck.Collections

variable {α : Type*} {p : α → Bool} {R : α → α → Prop} {left waiting added : List α} {x : α}

/-- Among the members a predicate selects, those that left did so in the order of a relation,
and those that still wait come after them. -/
structure Departed (p : α → Bool) (R : α → α → Prop) (left waiting : List α) : Prop where
  ordered : (left.filter p).Pairwise R
  later : ∀ a ∈ left, ∀ b ∈ waiting, p a = true → p b = true → R a b

namespace Departed

theorem nil : Departed p R [] waiting :=
  ⟨.nil, fun _ h => absurd h List.not_mem_nil⟩

/-- Members may join that come after everyone who left. -/
theorem join (h : Departed p R left waiting)
    (hadd : ∀ a ∈ left, ∀ b ∈ added, p a = true → p b = true → R a b) :
    Departed p R left (waiting ++ added) := by
  refine ⟨h.ordered, fun a ha b hb => ?_⟩
  rcases List.mem_append.mp hb with hb | hb
  · exact h.later a ha b hb
  · exact hadd a ha b hb

/-- Members may give up. -/
theorem abandon (h : Departed p R left waiting) {rest : List α}
    (hsub : ∀ b ∈ rest, b ∈ waiting) : Departed p R left rest :=
  ⟨h.ordered, fun a ha b hb => h.later a ha b (hsub b hb)⟩

/-- A member leaves that comes before those who stay. -/
theorem leave (h : Departed p R left waiting) {rest : List α} (hx : x ∈ waiting)
    (hsub : ∀ b ∈ rest, b ∈ waiting)
    (hbefore : ∀ b ∈ rest, p x = true → p b = true → R x b) :
    Departed p R (left ++ [x]) rest := by
  constructor
  · rw [List.filter_append]
    refine List.pairwise_append.mpr ⟨h.ordered, ?_, fun a ha b hb => ?_⟩
    · exact List.Pairwise.filter _ (List.pairwise_singleton _ _)
    · obtain ⟨hb, hpb⟩ := List.mem_filter.mp hb
      obtain rfl := List.mem_singleton.mp hb
      obtain ⟨ha, hpa⟩ := List.mem_filter.mp ha
      exact h.later a ha b hx hpa hpb
  · intro a ha b hb hpa hpb
    rcases List.mem_append.mp ha with ha | ha
    · exact h.later a ha b (hsub b hb) hpa hpb
    · obtain rfl := List.mem_singleton.mp ha
      exact hbefore b hb hpa hpb

end Departed
end PiDeck.Collections
