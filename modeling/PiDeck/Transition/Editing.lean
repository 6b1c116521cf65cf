import Mathlib
import PiDeck.Transition.Machine

/-! Requests that edit a store in separate calls. A request reads what it edits, later writes all
columns back, those it sets and those it has read, and then reads its answer. What a request sets
survives when every write finds the columns that it does not set as it has read them; for two
requests there is no other way. -/
namespace PiDeck.Transition

variable {σ ρ π ι κ : Type*} {V : ι → Type*}

/-- How requests `π` edit a store `σ` through views `ρ`. A write takes a column from the view when
the request does not set it, and leaves the other fields alone. -/
structure Editing (σ ρ π : Type*) {ι : Type*} (V : ι → Type*) where
  read : σ → Option ρ
  write : ρ → π → σ → Option σ
  column : ι → Prop
  get : (i : ι) → σ → Option (V i)
  seen : (i : ι) → ρ → Option (V i)
  set : (i : ι) → π → Option (V i)

structure Editing.Lawful (E : Editing σ ρ π V) : Prop where
  read_seen : ∀ {s r i}, E.read s = some r → E.column i → E.seen i r = E.get i s
  write_reads : ∀ {s t r p}, (E.read s).isSome = true → E.write r p s = some t →
    (E.read t).isSome = true
  write_column : ∀ {s t r p i}, (E.read s).isSome = true → E.write r p s = some t → E.column i →
    E.get i t = (E.set i p).or (E.seen i r)
  write_other : ∀ {s t r p i}, (E.read s).isSome = true → E.write r p s = some t → ¬E.column i →
    E.get i t = (E.set i p).or (E.get i s)

inductive Phase (ρ : Type*)
  | waiting
  | reading (view : ρ)
  | written
  | answered

/-- The write of the request is behind it. -/
def Phase.Past : Phase ρ → Prop
  | .waiting | .reading _ => False
  | .written | .answered => True

structure Editors (σ ρ κ : Type*) where
  store : σ
  phase : κ → Phase ρ

namespace Editing
variable [DecidableEq κ] (E : Editing σ ρ π V) (request : κ → π)

/-- The next call of one request. -/
def step (s : Editors σ ρ κ) (k : κ) : Option (Editors σ ρ κ) :=
  match s.phase k with
  | .waiting => (E.read s.store).map fun r => ⟨s.store, Function.update s.phase k (.reading r)⟩
  | .reading r =>
    (E.write r (request k) s.store).map fun t => ⟨t, Function.update s.phase k .written⟩
  | .written => (E.read s.store).map fun _ => ⟨s.store, Function.update s.phase k .answered⟩
  | .answered => none

def machine : Machine (Editors σ ρ κ) κ := ⟨E.step request⟩

def start (s : σ) : Editors σ ρ κ := ⟨s, fun _ => .waiting⟩

/-- If the next call of a request is its write, it finds the columns that it does not set as it has
read them. -/
def Fresh (s : Editors σ ρ κ) (k : κ) : Prop :=
  ∀ r, s.phase k = .reading r → ∀ i, E.column i → E.set i (request k) = none →
    E.seen i r = E.get i s.store

/-- Every field that a request sets holds what the request set. -/
def Kept (s : σ) : Prop := ∀ k i v, E.set i (request k) = some v → E.get i s = some v

def Disjoint : Prop :=
  ∀ j k, j ≠ k → ∀ i, E.set i (request j) = none ∨ E.set i (request k) = none

variable {E request} {s t : Editors σ ρ κ} {k : κ}

theorem step_cases (h : E.step request s k = some t) :
    (∃ r, s.phase k = .waiting ∧ E.read s.store = some r ∧
      t = ⟨s.store, Function.update s.phase k (.reading r)⟩) ∨
    (∃ r u, s.phase k = .reading r ∧ E.write r (request k) s.store = some u ∧
      t = ⟨u, Function.update s.phase k .written⟩) ∨
    (s.phase k = .written ∧ (E.read s.store).isSome = true ∧
      t = ⟨s.store, Function.update s.phase k .answered⟩) := by
  unfold step at h
  split at h
  next hk =>
    obtain ⟨r, hr, rfl⟩ := Option.map_eq_some_iff.mp h
    exact .inl ⟨r, hk, hr, rfl⟩
  next r hk =>
    obtain ⟨u, hu, rfl⟩ := Option.map_eq_some_iff.mp h
    exact .inr (.inl ⟨r, u, hk, hu, rfl⟩)
  next hk =>
    obtain ⟨r, hr, rfl⟩ := Option.map_eq_some_iff.mp h
    exact .inr (.inr ⟨hk, by rw [hr]; rfl, rfl⟩)
  next => cases h

/-- Once a request has read, there is something to read. -/
def Present (E : Editing σ ρ π V) (s : Editors σ ρ κ) : Prop :=
  ∀ k, s.phase k ≠ .waiting → (E.read s.store).isSome = true

omit [DecidableEq κ] in
theorem present_start (s : σ) : E.Present (start s : Editors σ ρ κ) :=
  fun _ h => absurd rfl h

omit [DecidableEq κ] in
theorem Present.reading (hp : E.Present s) {r : ρ} (hk : s.phase k = .reading r) :
    (E.read s.store).isSome = true :=
  hp k (by rw [hk]; simp)

theorem Present.step (hE : E.Lawful) (hp : E.Present s) (h : E.step request s k = some t) :
    E.Present t := by
  intro j _
  obtain ⟨r, -, hr, rfl⟩ | ⟨r, u, hk, hu, rfl⟩ | ⟨hk, hr, rfl⟩ := step_cases h
  · rw [hr]
    rfl
  · exact hE.write_reads (hp.reading hk) hu
  · exact hr

/-- What a request that has written set is there. -/
structure Preserved (E : Editing σ ρ π V) (request : κ → π) (s : Editors σ ρ κ) : Prop where
  present : E.Present s
  kept : ∀ k, (s.phase k).Past → ∀ i v, E.set i (request k) = some v → E.get i s.store = some v

theorem Preserved.step (hE : E.Lawful) (hdisjoint : E.Disjoint request)
    (hs : E.Preserved request s) (hfresh : E.Fresh request s k)
    (h : E.step request s k = some t) : E.Preserved request t := by
  refine ⟨hs.present.step hE h, fun j hj i v hv => ?_⟩
  obtain ⟨r, hk, hr, rfl⟩ | ⟨r, u, hk, hu, rfl⟩ | ⟨hk, hr, rfl⟩ := step_cases h
  · by_cases heq : j = k
    · subst heq
      simp [Phase.Past] at hj
    · exact hs.kept j (by simpa [heq] using hj) i v hv
  · have hpresent := hs.present.reading hk
    by_cases heq : j = k
    · subst heq
      by_cases hcolumn : E.column i
      · rw [hE.write_column hpresent hu hcolumn, hv]
        rfl
      · rw [hE.write_other hpresent hu hcolumn, hv]
        rfl
    · have hold := hs.kept j (by simpa [heq] using hj) i v hv
      have hunset : E.set i (request k) = none := by
        rcases hdisjoint j k heq i with hnone | hnone
        · rw [hv] at hnone
          cases hnone
        · exact hnone
      by_cases hcolumn : E.column i
      · rw [hE.write_column hpresent hu hcolumn, hunset, Option.none_or,
          hfresh r hk i hcolumn hunset]
        exact hold
      · rw [hE.write_other hpresent hu hcolumn, hunset, Option.none_or]
        exact hold
  · refine hs.kept j ?_ i v hv
    by_cases heq : j = k
    · rw [heq, hk]
      trivial
    · simpa [heq] using hj

/-- Any number of requests keep what they set when every write is fresh. -/
theorem kept_of_fresh (hE : E.Lawful) (hdisjoint : E.Disjoint request) {store : σ} {ks : List κ}
    (h : Machine.Path (E.machine request) (E.Fresh request) (start store) ks t)
    (hdone : ∀ k, t.phase k = .answered) : E.Kept request t.store := by
  have hinv : E.Preserved request t := by
    refine h.invariant (fun s k t hs hg hst => hs.step hE hdisjoint hg hst) ⟨present_start _, ?_⟩
    intro k hk
    exact hk.elim
  intro k
  exact hinv.kept k (by rw [hdone k]; trivial)

/-- What a request that has not written yet knows of the columns it does not set: they are as it
has read them, or they are what another request has set since. -/
structure Traced (E : Editing σ ρ π V) (request : κ → π) (s : Editors σ ρ κ) : Prop where
  present : E.Present s
  columns : ∀ k r, s.phase k = .reading r → ∀ i, E.column i → E.set i (request k) = none →
    E.seen i r = E.get i s.store ∨ ∃ j v, j ≠ k ∧ (s.phase j).Past ∧
      E.set i (request j) = some v ∧ E.get i s.store = some v

theorem Traced.step (hE : E.Lawful) (htwo : ∀ a b c : κ, a = b ∨ b = c ∨ a = c)
    (hs : E.Traced request s) (h : E.step request s k = some t) : E.Traced request t := by
  refine ⟨hs.present.step hE h, fun j r hj i hcolumn hunset => ?_⟩
  obtain ⟨r', hk, hr, rfl⟩ | ⟨r', u, hk, hu, rfl⟩ | ⟨hk, hr, rfl⟩ := step_cases h
  · by_cases heq : j = k
    · subst heq
      obtain rfl : r' = r := by simpa using hj
      exact .inl (hE.read_seen hr hcolumn)
    · have hj' : s.phase j = .reading r := by simpa [heq] using hj
      obtain hsame | ⟨o, v, hne, hpast, hset, hget⟩ := hs.columns j r hj' i hcolumn hunset
      · exact .inl hsame
      · have hok : o ≠ k := fun hok => by rw [hok, hk] at hpast; exact hpast
        exact .inr ⟨o, v, hne, by simpa [hok] using hpast, hset, hget⟩
  · have heq : j ≠ k := fun heq => by simp [heq] at hj
    have hj' : s.phase j = .reading r := by simpa [heq] using hj
    have hpresent := hs.present.reading hk
    have hnew := hE.write_column hpresent hu hcolumn
    -- With two requests, nobody but these two can have written.
    have hnobody : ∀ o, (s.phase o).Past → False := by
      intro o hpast
      obtain rfl | rfl | rfl := htwo o j k
      · rw [hj'] at hpast
        exact hpast
      · exact heq rfl
      · rw [hk] at hpast
        exact hpast
    have hmine : E.seen i r = E.get i s.store := by
      obtain hsame | ⟨o, -, -, hpast, -⟩ := hs.columns j r hj' i hcolumn hunset
      · exact hsame
      · exact (hnobody o hpast).elim
    cases hset : E.set i (request k) with
    | none =>
      have htheirs : E.seen i r' = E.get i s.store := by
        obtain hsame | ⟨o, -, -, hpast, -⟩ := hs.columns k r' hk i hcolumn hset
        · exact hsame
        · exact (hnobody o hpast).elim
      rw [hset, Option.none_or, htheirs] at hnew
      exact .inl (hmine.trans hnew.symm)
    | some v =>
      rw [hset, Option.some_or] at hnew
      exact .inr ⟨k, v, heq.symm, by simp [Phase.Past], hset, hnew⟩
  · have heq : j ≠ k := fun heq => by simp [heq] at hj
    have hj' : s.phase j = .reading r := by simpa [heq] using hj
    obtain hsame | ⟨o, v, hne, hpast, hset, hget⟩ := hs.columns j r hj' i hcolumn hunset
    · exact .inl hsame
    · refine .inr ⟨o, v, hne, ?_, hset, hget⟩
      by_cases hok : o = k
      · simp [hok, Phase.Past]
      · simpa [hok] using hpast

/-- A field has lost what a request set, and no write is left. -/
structure Lost (E : Editing σ ρ π V) (request : κ → π) (s : Editors σ ρ κ) : Prop where
  past : ∀ k, (s.phase k).Past
  lost : ¬E.Kept request s.store

theorem Lost.step (hs : E.Lost request s) (h : E.step request s k = some t) :
    E.Lost request t := by
  have hpast := hs.past k
  obtain ⟨r, hk, -, -⟩ | ⟨r, u, hk, -, -⟩ | ⟨-, -, rfl⟩ := step_cases h
  · rw [hk] at hpast
    exact hpast.elim
  · rw [hk] at hpast
    exact hpast.elim
  · refine ⟨fun j => ?_, hs.lost⟩
    by_cases heq : j = k
    · simp [heq, Phase.Past]
    · simpa [heq] using hs.past j

/-- A write that is not fresh loses what the other request set. -/
theorem lost_of_not_fresh (hE : E.Lawful) (htwo : ∀ a b c : κ, a = b ∨ b = c ∨ a = c)
    (hs : E.Traced request s) (hstale : ¬E.Fresh request s k)
    (h : E.step request s k = some t) : E.Lost request t := by
  simp only [Fresh, not_forall] at hstale
  obtain ⟨r, hk, i, hcolumn, hunset, hne⟩ := hstale
  obtain ⟨r', hk', -, -⟩ | ⟨r', u, hk', hu, rfl⟩ | ⟨hk', -, -⟩ := step_cases h
  · rw [hk] at hk'
    cases hk'
  · obtain rfl : r = r' := by rw [hk] at hk'; exact Phase.reading.inj hk'
    obtain hsame | ⟨j, v, hjk, hpast, hset, hget⟩ := hs.columns k r hk i hcolumn hunset
    · exact (hne hsame).elim
    · refine ⟨fun o => ?_, fun hkept => hne ?_⟩
      · by_cases hok : o = k
        · simp [hok, Phase.Past]
        · obtain rfl | hjk' | hok' := htwo o j k
          · simpa [hok] using hpast
          · exact (hjk hjk').elim
          · exact (hok hok').elim
      · have hnew := hE.write_column (hs.present.reading hk) hu hcolumn
        rw [hunset, Option.none_or, hkept j i v hset] at hnew
        rw [← hnew, hget]
  · rw [hk] at hk'
    cases hk'

theorem fresh_of_traced (hE : E.Lawful) (htwo : ∀ a b c : κ, a = b ∨ b = c ∨ a = c)
    {ks : List κ} (h : Machine.Run (E.machine request) s ks t) (hs : E.Traced request s)
    (hkept : E.Kept request t.store) :
    Machine.Path (E.machine request) (E.Fresh request) s ks t := by
  induction h with
  | nil => exact .nil _
  | @cons s u t k ks _ hst tail ih =>
    by_cases hfresh : E.Fresh request s k
    · exact .cons hfresh hst (ih (hs.step hE htwo hst) hkept)
    · have hlost := lost_of_not_fresh hE htwo hs hfresh hst
      have hend : E.Lost request t := tail.invariant
        (fun s k u (hl : E.Lost request s) _ hst => hl.step hst) hlost
      exact (hend.lost hkept).elim

/-- Two requests keep what they set only if every write is fresh. -/
theorem fresh_of_kept (hE : E.Lawful) (htwo : ∀ a b c : κ, a = b ∨ b = c ∨ a = c) {store : σ}
    {ks : List κ} (h : Machine.Run (E.machine request) (start store) ks t)
    (hkept : E.Kept request t.store) :
    Machine.Path (E.machine request) (E.Fresh request) (start store) ks t := by
  refine fresh_of_traced hE htwo h ⟨present_start _, fun k r hk => ?_⟩ hkept
  cases hk

/-- Two requests keep what they set exactly when every write is fresh. -/
theorem kept_iff_fresh (hE : E.Lawful) (htwo : ∀ a b c : κ, a = b ∨ b = c ∨ a = c)
    (hdisjoint : E.Disjoint request) {store : σ} {ks : List κ}
    (h : Machine.Run (E.machine request) (start store) ks t)
    (hdone : ∀ k, t.phase k = .answered) :
    E.Kept request t.store ↔
      Machine.Path (E.machine request) (E.Fresh request) (start store) ks t :=
  ⟨fun hkept => fresh_of_kept hE htwo h hkept, fun hpath => kept_of_fresh hE hdisjoint hpath hdone⟩

end Editing
end PiDeck.Transition
