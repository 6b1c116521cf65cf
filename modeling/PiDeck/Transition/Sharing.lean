import Mathlib
import PiDeck.Transition.Calls

/-! Many calls on one state. A call begins at any moment, and the calls under way take their steps in
any order; each step is atomic. A call that takes no further step has been given up. -/
namespace PiDeck.Transition
open Call

/-- The state and the calls under way on it. -/
structure Shared (σ ε δ α : Type) where
  state : σ
  underway : List (Call σ ε δ α)

/-- What happens next: a request arrives, or the call at a place takes its next step. -/
inductive Turn (ρ ε : Type)
  | begin (request : ρ)
  | take (i : ℕ) (e : ε)

/-- The machine of the calls that the requests make. -/
def sharing {σ ε δ α ρ : Type} (call : ρ → Call σ ε δ α) : Machine (Shared σ ε δ α) (Turn ρ ε) where
  step s
    | .begin request => some { s with underway := s.underway ++ [call request] }
    | .take i e =>
      match s.underway[i]? with
      | some (.step act next) => some ⟨act e s.state, s.underway.set i (next e s.state)⟩
      | _ => none

variable {σ ε δ α ρ : Type} {call : ρ → Call σ ε δ α} {s t : Shared σ ε δ α}

/-- What one turn can do. -/
theorem sharing_step {turn : Turn ρ ε} (h : (sharing call).step s turn = some t) :
    (∃ request, turn = .begin request ∧ t = ⟨s.state, s.underway ++ [call request]⟩) ∨
    ∃ i e act next, turn = .take i e ∧ s.underway[i]? = some (.step act next) ∧
      t = ⟨act e s.state, s.underway.set i (next e s.state)⟩ := by
  cases turn with
  | begin request => exact .inl ⟨request, rfl, (Option.some.inj h).symm⟩
  | take i e =>
    simp only [sharing] at h
    split at h
    next act next hcall => exact .inr ⟨i, e, act, next, rfl, hcall, (Option.some.inj h).symm⟩
    next => cases h

/-- `R` relates the state before and after whatever the calls under way still do. -/
structure Shared.Moves (R : σ → σ → Prop) (s : Shared σ ε δ α) : Prop where
  underway : ∀ c ∈ s.underway, c.Moves R

/-- A turn keeps the calls under way along `R`, and moves the state along it or not at all. -/
theorem sharing_moves {R : σ → σ → Prop} (hcall : ∀ request, (call request).Moves R)
    {turn : Turn ρ ε} (hs : s.Moves R) (h : (sharing call).step s turn = some t) :
    t.Moves R ∧ (t.state = s.state ∨ R s.state t.state) := by
  obtain ⟨request, -, rfl⟩ | ⟨i, e, act, next, -, hi, rfl⟩ := sharing_step h
  · refine ⟨⟨fun c hc => ?_⟩, .inl rfl⟩
    rcases List.mem_append.mp hc with hc | hc
    · exact hs.underway c hc
    · obtain rfl := List.mem_singleton.mp hc
      exact hcall request
  · have hstep := hs.underway _ (List.mem_of_getElem? hi) e s.state
    refine ⟨⟨fun c hc => ?_⟩, .inr hstep.1⟩
    rcases List.mem_or_eq_of_mem_set hc with hc | rfl
    · exact hs.underway c hc
    · exact hstep.2

/-- What every step of every call keeps holds in every state that the calls reach together. -/
theorem sharing_invariant {I : σ → Prop}
    (hcall : ∀ request, (call request).Moves fun before after => I before → I after)
    {start : σ} {turns : List (Turn ρ ε)} (hstart : I start)
    (h : (sharing call).Run ⟨start, []⟩ turns t) : I t.state := by
  have hinv := h.invariant
    (I := fun s => s.Moves (fun before after => I before → I after) ∧ I s.state)
    (fun s turn t hs _ hstep => by
      obtain ⟨hmoves, hstate⟩ := sharing_moves hcall hs.1 hstep
      refine ⟨hmoves, ?_⟩
      rcases hstate with hsame | hmoved
      · exact hsame ▸ hs.2
      · exact hmoved hs.2)
    ⟨⟨fun c hc => absurd hc List.not_mem_nil⟩, hstart⟩
  exact hinv.2

end PiDeck.Transition
