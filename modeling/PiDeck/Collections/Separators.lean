import Mathlib

/-! Two parts joined by a separator. The join can be read in one way only unless the second of two
first parts goes on after the first in a way that the separator can also be read there. -/
namespace PiDeck.Collections

variable {α : Type*} {sep left left' right right' : List α}

/-- `left'` is `left` with more, and the separator is read at the start of what is more. -/
def Overlaps (sep left left' : List α) : Prop :=
  ∃ more, more ≠ [] ∧ left' = left ++ more ∧ sep <+: more ++ sep

theorem overlaps_of_join (h : left ++ sep ++ right = left' ++ sep ++ right')
    (hle : left.length ≤ left'.length) : left = left' ∧ right = right' ∨ Overlaps sep left left' := by
  rw [List.append_assoc, List.append_assoc] at h
  obtain ⟨more, rfl⟩ : left <+: left' :=
    List.prefix_of_prefix_length_le ⟨_, h⟩ (List.prefix_append left' _) hle
  have hjoin : left ++ (sep ++ right) = left ++ (more ++ sep ++ right') := by
    rw [h]
    simp only [List.append_assoc]
  have hrest : sep ++ right = more ++ sep ++ right' := List.append_cancel_left hjoin
  by_cases hmore : more = []
  · subst hmore
    left
    exact ⟨(List.append_nil left).symm, List.append_cancel_left hrest⟩
  · right
    refine ⟨more, hmore, rfl, ?_⟩
    apply List.prefix_of_prefix_length_le ⟨right, hrest⟩ (List.prefix_append _ right')
    rw [List.length_append]
    omega

/-- Equal joins have equal parts, or one first part overlaps the other. -/
theorem parts_of_join (h : left ++ sep ++ right = left' ++ sep ++ right') :
    left = left' ∧ right = right' ∨ Overlaps sep left left' ∨ Overlaps sep left' left := by
  rcases Nat.le_total left.length left'.length with hle | hle
  · rcases overlaps_of_join h hle with heq | hov
    · exact .inl heq
    · exact .inr (.inl hov)
  · rcases overlaps_of_join h.symm hle with ⟨hl, hr⟩ | hov
    · exact .inl ⟨hl.symm, hr.symm⟩
    · exact .inr (.inr hov)

/-- An overlap makes joins that can be read in two ways: what is more moves to the right part. -/
theorem Overlaps.join (h : Overlaps sep left left') :
    ∃ more rest, left' = left ++ more ∧ more ++ sep = sep ++ rest ∧ left ≠ left' ∧
      ∀ tail, left ++ sep ++ (rest ++ tail) = left' ++ sep ++ tail := by
  obtain ⟨more, hmore, rfl, rest, hrest⟩ := h
  refine ⟨more, rest, rfl, hrest.symm, ?_, ?_⟩
  · intro he
    exact hmore (List.append_right_eq_self.mp he.symm)
  · intro tail
    rw [List.append_assoc, ← List.append_assoc sep, hrest]
    simp only [List.append_assoc]

end PiDeck.Collections
