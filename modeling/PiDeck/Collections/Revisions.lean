import Mathlib

/-! Tables whose rows carry a revision. A table advances when every rewritten row gets a larger
revision. -/
namespace PiDeck.Collections
variable {κ ρ : Type*}

/-- From `f` to `g` rows only advance: none disappears, a rewritten one has a larger revision and
is related to the row before it by `R`, and only keys in `changed` are rewritten or added. -/
structure Advances (rev : ρ → ℕ) (R : Option ρ → ρ → Prop) (changed : Set κ)
    (f g : κ → Option ρ) : Prop where
  kept : ∀ k r, f k = some r → ∃ r', g k = some r' ∧ (r' = r ∨ rev r < rev r')
  change : ∀ k r', g k = some r' → f k = some r' ∨ R (f k) r'
  frame : ∀ k, k ∉ changed → g k = f k

namespace Advances
variable {rev : ρ → ℕ} {R : Option ρ → ρ → Prop} {changed changed' : Set κ}
  {f g h : κ → Option ρ} {k : κ} {r r' : ρ}

theorem refl (f : κ → Option ρ) : Advances rev R changed f f where
  kept _ r hr := ⟨r, hr, .inl rfl⟩
  change _ _ hr := .inl hr
  frame _ _ := rfl

theorem mono {R' : Option ρ → ρ → Prop} (hR : ∀ o r, R o r → R' o r) (hc : changed ⊆ changed')
    (A : Advances rev R changed f g) : Advances rev R' changed' f g where
  kept := A.kept
  change k r hr := (A.change k r hr).imp id (hR _ _)
  frame k hk := A.frame k (fun hm => hk (hc hm))

theorem trans (hR : ∀ o r r', R o r → R (some r) r' → R o r')
    (A : Advances rev R changed f g) (B : Advances rev R changed g h) :
    Advances rev R changed f h where
  kept k r hr := by
    obtain ⟨r₁, h₁, e₁⟩ := A.kept k r hr
    obtain ⟨r₂, h₂, e₂⟩ := B.kept k r₁ h₁
    refine ⟨r₂, h₂, ?_⟩
    cases e₁ with
    | inl e₁ => exact e₁ ▸ e₂
    | inr l₁ =>
      cases e₂ with
      | inl e₂ => exact .inr (e₂ ▸ l₁)
      | inr l₂ => exact .inr (by omega)
  change k r hr := by
    cases B.change k r hr with
    | inl hg => exact A.change k r hg
    | inr hR₂ =>
      cases hg : g k with
      | none =>
        cases hf : f k with
        | none => exact .inr (hg ▸ hR₂)
        | some r₀ =>
          obtain ⟨r₁, h₁, -⟩ := A.kept k r₀ hf
          cases hg.symm.trans h₁
      | some r₁ =>
        rw [hg] at hR₂
        cases A.change k r₁ hg with
        | inl hf => exact .inr (hf ▸ hR₂)
        | inr hR₁ => exact .inr (hR _ _ _ hR₁ hR₂)
  frame k hk := (B.frame k hk).trans (A.frame k hk)

/-- One row rewritten in place. -/
theorem update [DecidableEq κ] {upd : ρ → ρ} (hk : k ∈ changed)
    (hupd : ∀ r, f k = some r → upd r = r ∨ (rev r < rev (upd r) ∧ R (some r) (upd r)))
    (hg : ∀ k', g k' = if k' = k then (f k).map upd else f k') : Advances rev R changed f g where
  kept k' r hr := by
    by_cases e : k' = k
    · subst e
      exact ⟨upd r, by rw [hg, if_pos rfl, hr]; rfl, (hupd r hr).imp id And.left⟩
    · exact ⟨r, by rw [hg, if_neg e, hr], .inl rfl⟩
  change k' r' hr := by
    rw [hg] at hr
    split_ifs at hr with e
    · subst e
      obtain ⟨r, hf, rfl⟩ := Option.map_eq_some_iff.mp hr
      cases hupd r hf with
      | inl he => exact .inl (he.symm ▸ hf)
      | inr hR => exact .inr (hf ▸ hR.2)
    · exact .inl hr
  frame k' hk' := by
    have e : k' ≠ k := fun e => hk' (e ▸ hk)
    rw [hg, if_neg e]

/-- Every row rewritten by the same function. -/
theorem map {upd : ρ → ρ}
    (hupd : ∀ k r, f k = some r →
      upd r = r ∨ (k ∈ changed ∧ rev r < rev (upd r) ∧ R (some r) (upd r)))
    (hg : ∀ k, g k = (f k).map upd) : Advances rev R changed f g where
  kept k r hr :=
    ⟨upd r, by rw [hg, hr]; rfl, (hupd k r hr).imp id (fun h => h.2.1)⟩
  change k r' hr := by
    rw [hg] at hr
    obtain ⟨r, hf, rfl⟩ := Option.map_eq_some_iff.mp hr
    cases hupd k r hf with
    | inl he => exact .inl (he.symm ▸ hf)
    | inr hR => exact .inr (hf ▸ hR.2.2)
  frame k hk := by
    rw [hg]
    cases hf : f k with
    | none => rfl
    | some r =>
      cases hupd k r hf with
      | inl he => exact congrArg some he
      | inr hR => exact absurd hR.1 hk

/-- One row added under a new key. -/
theorem insert [DecidableEq κ] (hk : k ∈ changed) (fresh : f k = none) (hR : R none r)
    (hg : ∀ k', g k' = if k' = k then some r else f k') : Advances rev R changed f g where
  kept k' r₀ hr := by
    have e : k' ≠ k := fun e => by rw [e, fresh] at hr; cases hr
    exact ⟨r₀, by rw [hg, if_neg e, hr], .inl rfl⟩
  change k' r' hr := by
    rw [hg] at hr
    split_ifs at hr with e
    · obtain rfl := Option.some.inj hr
      exact .inr (by rw [e, fresh]; exact hR)
    · exact .inl hr
  frame k' hk' := by
    have e : k' ≠ k := fun e => hk' (e ▸ hk)
    rw [hg, if_neg e]

/-- A revision that did not move belongs to a row that did not change. -/
theorem eq_of_rev (A : Advances rev R changed f g) (hf : f k = some r) (hg : g k = some r')
    (hrev : rev r = rev r') : r' = r := by
  obtain ⟨r₁, h₁, e⟩ := A.kept k r hf
  obtain rfl : r₁ = r' := Option.some.inj (h₁.symm.trans hg)
  cases e with
  | inl e => exact e
  | inr l => omega

theorem rev_le (A : Advances rev R changed f g) (hf : f k = some r) (hg : g k = some r') :
    rev r ≤ rev r' := by
  obtain ⟨r₁, h₁, e⟩ := A.kept k r hf
  obtain rfl : r₁ = r' := Option.some.inj (h₁.symm.trans hg)
  cases e with
  | inl e => exact le_of_eq (congrArg rev e.symm)
  | inr l => omega

end Advances

end PiDeck.Collections
