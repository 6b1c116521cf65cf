import Mathlib
import PiDeck.Transition.Machine

/-! Calls on a shared state that are made of atomic steps: regions under one lock, or statements of
one database. A step sees the state and what its surroundings give it (clock readings, fresh random
bytes, whether the database answers); between two steps of a call other calls may take theirs. -/
namespace PiDeck.Transition

/-- A call on states `σ` with surroundings `ε` that ends with a result or an error. -/
inductive Call (σ ε δ α : Type)
  | ret (a : α)
  | fail (error : δ)
  | step (act : ε → σ → σ) (next : ε → σ → Call σ ε δ α)

namespace Call
variable {σ ε δ α β : Type}

def bind : Call σ ε δ α → (α → Call σ ε δ β) → Call σ ε δ β
  | ret a, k => k a
  | fail error, _ => fail error
  | step act next, k => step act fun e s => (next e s).bind k

instance : Monad (Call σ ε δ) where
  pure := ret
  bind := bind

/-- One step that ends with a result or an error. -/
def atomic (f : ε → σ → Except δ α × σ) : Call σ ε δ α :=
  step (fun e s => (f e s).2) fun e s =>
    match (f e s).1 with
    | .ok a => ret a
    | .error error => fail error

/-- A reading of the surroundings. -/
def observe (f : ε → α) : Call σ ε δ α := atomic fun e s => (.ok (f e), s)

/-- Make a call with no other call in between. The surroundings of its `n`-th step are `env n`; the
number of the next step is given back. -/
def exec (env : ℕ → ε) : Call σ ε δ α → ℕ → σ → Except δ α × ℕ × σ
  | ret a, n, s => (.ok a, n, s)
  | fail error, n, s => (.error error, n, s)
  | step act next, n, s => (next (env n) s).exec env (n + 1) (act (env n) s)

variable {env : ℕ → ε} {n : ℕ} {s : σ} {c : Call σ ε δ α} {k : α → Call σ ε δ β}

@[simp] theorem exec_pure (a : α) : (pure a : Call σ ε δ α).exec env n s = (.ok a, n, s) := rfl

@[simp] theorem exec_fail (error : δ) :
    (fail error : Call σ ε δ α).exec env n s = (.error error, n, s) := rfl

@[simp] theorem exec_atomic (f : ε → σ → Except δ α × σ) :
    (atomic f).exec env n s = ((f (env n) s).1, n + 1, (f (env n) s).2) := by
  cases h : (f (env n) s).1 <;> simp only [atomic, exec, h]

@[simp] theorem exec_observe (f : ε → α) :
    (observe f : Call σ ε δ α).exec env n s = (.ok (f (env n)), n + 1, s) := exec_atomic _

theorem exec_bind (c : Call σ ε δ α) (k : α → Call σ ε δ β) :
    (c >>= k).exec env n s =
      match c.exec env n s with
      | (.ok a, m, t) => (k a).exec env m t
      | (.error error, m, t) => (.error error, m, t) := by
  change (c.bind k).exec env n s = _
  induction c generalizing n s with
  | ret a => rfl
  | fail error => rfl
  | step act next ih => exact ih (env n) s

theorem exec_bind_ok {a : α} {m : ℕ} {t : σ} (h : c.exec env n s = (.ok a, m, t)) :
    (c >>= k).exec env n s = (k a).exec env m t := by
  rw [exec_bind, h]

theorem exec_bind_error {error : δ} {m : ℕ} {t : σ} (h : c.exec env n s = (.error error, m, t)) :
    (c >>= k).exec env n s = (.error error, m, t) := by
  rw [exec_bind, h]

/-- A call that ends with a result has gone through its first part. -/
theorem exec_bind_inv {b : β} {m : ℕ} {t : σ} (h : (c >>= k).exec env n s = (.ok b, m, t)) :
    ∃ a m' t', c.exec env n s = (.ok a, m', t') ∧ (k a).exec env m' t' = (.ok b, m, t) := by
  rw [exec_bind] at h
  split at h
  next a m' t' hc => exact ⟨a, m', t', hc, h⟩
  next error m' t' hc => cases h

/-- A property of the state at the end is shown for the two ways in which a first part can end. -/
theorem exec_bind_state {P : σ → Prop}
    (hok : ∀ a m t, c.exec env n s = (.ok a, m, t) → P ((k a).exec env m t).2.2)
    (herror : ∀ error m t, c.exec env n s = (.error error, m, t) → P t) :
    P ((c >>= k).exec env n s).2.2 := by
  rw [exec_bind]
  split
  next a m t hc => exact hok a m t hc
  next error m t hc => exact herror error m t hc

theorem exec_ite_inv {p : Prop} [Decidable p] {error : δ} {a : α} {m : ℕ} {t : σ}
    (h : (if p then fail error else c).exec env n s = (.ok a, m, t)) :
    ¬p ∧ c.exec env n s = (.ok a, m, t) := by
  split at h
  next => cases h
  next hp => exact ⟨hp, h⟩

/-! ### What the steps of a call do to the state -/

variable {R : σ → σ → Prop}

/-- Every step of the call, in whatever state it is taken, moves the state along `R`. -/
def Moves (R : σ → σ → Prop) : Call σ ε δ α → Prop
  | ret _ | fail _ => True
  | step act next => ∀ e s, R s (act e s) ∧ (next e s).Moves R

theorem moves_pure (a : α) : (pure a : Call σ ε δ α).Moves R := trivial

theorem moves_fail (error : δ) : (fail error : Call σ ε δ α).Moves R := trivial

theorem moves_atomic {f : ε → σ → Except δ α × σ} (h : ∀ e s, R s (f e s).2) :
    (atomic f).Moves R := by
  intro e s
  refine ⟨h e s, ?_⟩
  cases hf : (f e s).1 <;> simp only [hf, Moves]

theorem moves_bind (hc : c.Moves R) (hk : ∀ a, (k a).Moves R) : (c >>= k).Moves R := by
  change (c.bind k).Moves R
  induction c with
  | ret a => exact hk a
  | fail error => exact trivial
  | step act next ih => exact fun e s => ⟨(hc e s).1, ih e s (hc e s).2⟩

theorem moves_ite {p : Prop} [Decidable p] {d : Call σ ε δ α} (hc : c.Moves R) (hd : d.Moves R) :
    (if p then c else d).Moves R := by
  split
  · exact hc
  · exact hd

/-- A call that nothing comes between moves the state along `R` when all its steps do. -/
theorem Moves.exec (refl : ∀ s, R s s) (trans : ∀ s t u, R s t → R t u → R s u) (hc : c.Moves R) :
    R s (c.exec env n s).2.2 := by
  induction c generalizing n s with
  | ret a => exact refl s
  | fail error => exact refl s
  | step act next ih => exact trans _ _ _ (hc (env n) s).1 (ih (env n) s (hc (env n) s).2)

/-! ### What a call depends on -/

/-- From states that `R` relates, the call takes the same steps and they keep the states related. -/
def Respects (R : σ → σ → Prop) : Call σ ε δ α → Prop
  | ret _ | fail _ => True
  | step act next =>
    ∀ e s t, R s t → R (act e s) (act e t) ∧ next e s = next e t ∧ (next e s).Respects R

theorem respects_atomic {f : ε → σ → Except δ α × σ}
    (h : ∀ e s t, R s t → (f e s).1 = (f e t).1 ∧ R (f e s).2 (f e t).2) :
    (atomic f).Respects R := by
  intro e s t hst
  obtain ⟨hresult, hstate⟩ := h e s t hst
  refine ⟨hstate, by simp only [hresult], ?_⟩
  cases hf : (f e s).1 <;> simp only [hf, Respects]

theorem respects_pure (a : α) : (pure a : Call σ ε δ α).Respects R := trivial

theorem respects_fail (error : δ) : (fail error : Call σ ε δ α).Respects R := trivial

theorem respects_bind (hc : c.Respects R) (hk : ∀ a, (k a).Respects R) : (c >>= k).Respects R := by
  change (c.bind k).Respects R
  induction c with
  | ret a => exact hk a
  | fail error => exact trivial
  | step act next ih =>
    intro e s t hst
    obtain ⟨hstate, hnext, hrest⟩ := hc e s t hst
    exact ⟨hstate, congrArg (fun c => c.bind k) hnext, ih e s hrest⟩

theorem respects_ite {p : Prop} [Decidable p] {d : Call σ ε δ α} (hc : c.Respects R)
    (hd : d.Respects R) : (if p then c else d).Respects R := by
  split
  · exact hc
  · exact hd

/-- Related states give the same result. -/
theorem Respects.exec {t : σ} (hc : c.Respects R) (hst : R s t) :
    (c.exec env n s).1 = (c.exec env n t).1 := by
  induction c generalizing n s t with
  | ret a => rfl
  | fail error => rfl
  | step act next ih =>
    obtain ⟨hstate, hnext, hrest⟩ := hc (env n) s t hst
    change ((next (env n) s).exec env (n + 1) (act (env n) s)).1 =
      ((next (env n) t).exec env (n + 1) (act (env n) t)).1
    rw [← hnext]
    exact ih (env n) s hrest hstate

end Call
end PiDeck.Transition
