import Mathlib

/-! Partial deterministic machines and their finite runs. A label carries everything the
environment decides (arguments, clock readings, fresh identifiers, scheduling choices), so one
label has at most one successor. A run may be restricted by a guard on the state before each
step; the unguarded runs are those of the guard that is always true. -/
namespace PiDeck.Transition

/-- A machine over states `σ` and labels `α`; a label that is not enabled has no successor. -/
structure Machine (σ α : Type*) where
  step : σ → α → Option σ

namespace Machine
variable {σ α : Type*} {M : Machine σ α} {C D : σ → α → Prop} {s t u : σ} {a : α} {as bs : List α}

/-- The finite runs of `M` whose every step meets the guard `C`. -/
inductive Path (M : Machine σ α) (C : σ → α → Prop) : σ → List α → σ → Prop
  | nil (s : σ) : Path M C s [] s
  | cons {s t u : σ} {a : α} {as : List α} (guard : C s a) (step : M.step s a = some t)
      (tail : Path M C t as u) : Path M C s (a :: as) u

/-- The runs without a guard. -/
abbrev Run (M : Machine σ α) : σ → List α → σ → Prop := Path M (fun _ _ => True)

/-- Execute a run, checking the guard at every step. -/
def exec (M : Machine σ α) (C : σ → α → Prop) [∀ s a, Decidable (C s a)] : σ → List α → Option σ
  | s, [] => some s
  | s, a :: as => if C s a then (M.step s a).bind (fun t => exec M C t as) else none

theorem path_of_exec [∀ s a, Decidable (C s a)] (h : M.exec C s as = some u) :
    Path M C s as u := by
  induction as generalizing s with
  | nil =>
    obtain rfl : s = u := by simpa [exec] using h
    exact .nil s
  | cons a as ih =>
    by_cases hg : C s a
    · obtain ⟨t, ht, hu⟩ : ∃ t, M.step s a = some t ∧ M.exec C t as = some u := by
        simpa [exec, hg, Option.bind_eq_some_iff] using h
      exact .cons hg ht (ih hu)
    · simp [exec, hg] at h

namespace Path

theorem append (h : Path M C s as t) (k : Path M C t bs u) : Path M C s (as ++ bs) u := by
  induction h with
  | nil => exact k
  | cons hg hs _ ih => exact .cons hg hs (ih k)

theorem single (hg : C s a) (hs : M.step s a = some t) : Path M C s [a] t :=
  .cons hg hs (.nil t)

theorem mono (hCD : ∀ s a, C s a → D s a) (h : Path M C s as t) : Path M D s as t := by
  induction h with
  | nil s => exact .nil s
  | cons hg hs _ ih => exact .cons (hCD _ _ hg) hs ih

theorem toRun (h : Path M C s as t) : Run M s as t := h.mono (fun _ _ _ => trivial)

/-- A run ends where the machine says it does. -/
theorem unique (h : Path M C s as t) (k : Path M D s as u) : t = u := by
  induction h generalizing u with
  | nil s => cases k; rfl
  | cons _ hs _ ih =>
    cases k with
    | cons _ hs' tail =>
      obtain rfl := Option.some.inj (hs.symm.trans hs')
      exact ih tail

theorem split (h : Path M C s (as ++ bs) u) : ∃ t, Path M C s as t ∧ Path M C t bs u := by
  induction as generalizing s with
  | nil => exact ⟨s, .nil s, h⟩
  | cons a as ih =>
    cases h with
    | cons hg hs tail =>
      obtain ⟨t, h₁, h₂⟩ := ih tail
      exact ⟨t, .cons hg hs h₁, h₂⟩

/-- What every guarded step preserves holds at the end of every guarded run. -/
theorem invariant {I : σ → Prop}
    (hstep : ∀ s a t, I s → C s a → M.step s a = some t → I t)
    (h : Path M C s as u) (hs : I s) : I u := by
  induction h with
  | nil => exact hs
  | cons hg hst _ ih => exact ih (hstep _ _ _ hs hg hst)

/-- Where a step keeps `P` exactly if its guard holds, the guarded runs are those that reach `P` only. -/
theorem iff_reached {I P : σ → Prop} (hI : ∀ s a t, I s → P s → M.step s a = some t → I t)
    (hP : ∀ s a t, I s → P s → M.step s a = some t → (P t ↔ C s a)) (hi : I s) (hp : P s) :
    Path M C s as u ↔ Run M s as u ∧ ∀ pre t, pre <+: as → Run M s pre t → P t := by
  induction as generalizing s with
  | nil =>
    constructor
    · intro h
      cases h
      refine ⟨.nil _, fun pre t hpre hrun => ?_⟩
      obtain rfl := List.prefix_nil.mp hpre
      cases hrun
      exact hp
    · rintro ⟨h, -⟩
      cases h
      exact .nil _
  | cons a as ih =>
    constructor
    · intro h
      cases h with
      | cons hg hs tail =>
        have hnext := (hP _ _ _ hi hp hs).mpr hg
        obtain ⟨hrun, hreached⟩ := (ih (hI _ _ _ hi hp hs) hnext).mp tail
        refine ⟨.cons trivial hs hrun, fun pre t hpre hpath => ?_⟩
        cases hpath with
        | nil => exact hp
        | cons _ hs' tail' =>
          obtain ⟨rfl, hpre'⟩ := List.cons_prefix_cons.mp hpre
          obtain rfl := Option.some.inj (hs.symm.trans hs')
          exact hreached _ _ hpre' tail'
    · rintro ⟨h, hreached⟩
      cases h with
      | @cons _ t _ _ _ _ hs tail =>
        have hnext : P t := hreached [a] t (List.prefix_append [a] as) (.single trivial hs)
        refine .cons ((hP _ _ _ hi hp hs).mp hnext) hs ((ih (hI _ _ _ hi hp hs) hnext).mpr ⟨tail, ?_⟩)
        intro pre t' hpre hpath
        exact hreached (a :: pre) t' (List.cons_prefix_cons.mpr ⟨rfl, hpre⟩) (.cons trivial hs hpath)

/-- A preorder that every step moves along relates the two ends of a run. -/
theorem monotone {I : σ → Prop} {R : σ → σ → Prop} (refl : ∀ s, R s s)
    (trans : ∀ s t u, R s t → R t u → R s u)
    (hI : ∀ s a t, I s → C s a → M.step s a = some t → I t)
    (hR : ∀ s a t, I s → C s a → M.step s a = some t → R s t)
    (h : Path M C s as u) (hs : I s) : R s u := by
  induction h with
  | nil s => exact refl s
  | cons hg hst _ ih => exact trans _ _ _ (hR _ _ _ hs hg hst) (ih (hI _ _ _ hs hg hst))

end Path
end Machine
end PiDeck.Transition
