import Mathlib

/-! Programs over a disk that can fail at any write and stop before any write, and the rules for
what they leave. A write is atomic: it is made, it fails and leaves the disk as it was, or the
machine stops before it. -/
namespace PiDeck.Storage

inductive Outcome
  | done
  | failed
  | crashed
  deriving DecidableEq, Repr

/-- A program over disks `σ`. A write has a continuation for when it is made and one for when it
fails. -/
inductive Program (σ α : Type)
  | ret (a : α)
  | read (next : σ → Program σ α)
  | write (act : σ → σ) (done failed : Program σ α)

namespace Program
variable {σ α β : Type}

def bind : Program σ α → (α → Program σ β) → Program σ β
  | ret a, k => k a
  | read next, k => read fun d => (next d).bind k
  | write act done failed, k => write act (done.bind k) (failed.bind k)

/-- Run a program with given outcomes of its writes; writes past the end of the list are made. A
program that stopped has no result. -/
def exec : Program σ α → List Outcome → σ → σ × Option α
  | ret a, _, d => (d, some a)
  | read next, s, d => (next d).exec s d
  | write act done _, [], d => done.exec [] (act d)
  | write act done _, .done :: s, d => done.exec s (act d)
  | write _ _ failed, .failed :: s, d => failed.exec s d
  | write _ _ _, .crashed :: _, d => (d, none)

/-- The weakest precondition for `post` to hold of the result and of the disk it leaves, and for
`crash` to hold of every disk on which the program can stop. Writes fail only if `faults`. -/
def wp (faults : Prop) (crash : σ → Prop) (post : α → σ → Prop) : Program σ α → σ → Prop
  | ret a, d => post a d
  | read next, d => (next d).wp faults crash post d
  | write act done failed, d =>
    crash d ∧ done.wp faults crash post (act d) ∧ (faults → failed.wp faults crash post d)

variable {faults : Prop} {crash crash' : σ → Prop} {d : σ}

theorem wp_bind {post : β → σ → Prop} (p : Program σ α) (k : α → Program σ β) :
    (p.bind k).wp faults crash post d ↔
      p.wp faults crash (fun a d => (k a).wp faults crash post d) d := by
  induction p generalizing d with
  | ret a => rfl
  | read next ih => exact ih d
  | write act done failed ihd ihf => simp only [bind, wp, ihd, ihf]

theorem wp_mono {post post' : α → σ → Prop} {p : Program σ α}
    (hcrash : ∀ d, crash d → crash' d) (hpost : ∀ a d, post a d → post' a d)
    (h : p.wp faults crash post d) : p.wp faults crash' post' d := by
  induction p generalizing d with
  | ret a => exact hpost a d h
  | read next ih => exact ih d h
  | write act done failed ihd ihf => exact ⟨hcrash d h.1, ihd h.2.1, fun hf => ihf (h.2.2 hf)⟩

/-- What a precondition promises of a run. -/
theorem exec_of_wp {post : α → σ → Prop} {p : Program σ α} {s : List Outcome}
    (h : p.wp faults crash post d) (hs : Outcome.failed ∈ s → faults) :
    (∀ a, (p.exec s d).2 = some a → post a (p.exec s d).1) ∧
      ((p.exec s d).2 = none → crash (p.exec s d).1) := by
  induction p generalizing d s with
  | ret a => exact ⟨fun b hb => Option.some.inj hb ▸ h, nofun⟩
  | read next ih => exact ih d h hs
  | write act done failed ihd ihf =>
    have rest : ∀ o t, s = o :: t → (Outcome.failed ∈ t → faults) := by
      rintro o t rfl hmem
      exact hs (List.mem_cons_of_mem _ hmem)
    match s with
    | [] => exact ihd h.2.1 hs
    | .done :: t => exact ihd h.2.1 (rest _ t rfl)
    | .failed :: t => exact ihf (h.2.2 (hs List.mem_cons_self)) (rest _ t rfl)
    | .crashed :: t => exact ⟨nofun, fun _ => h.1⟩

/-- A program can end, without a failed write, only where its precondition looks. -/
theorem wp_exec (p : Program σ α) (d : σ) :
    p.wp False (fun d' => ∃ s, .failed ∉ s ∧ p.exec s d = (d', none))
      (fun a d' => ∃ s, .failed ∉ s ∧ p.exec s d = (d', some a)) d := by
  induction p generalizing d with
  | ret a => exact ⟨[], by simp, rfl⟩
  | read next ih => exact ih d d
  | write act done failed ihd ihf =>
    refine ⟨⟨[.crashed], by simp, rfl⟩, wp_mono ?_ ?_ (ihd (act d)), False.elim⟩
    · rintro d' ⟨s, hclean, hs⟩
      exact ⟨.done :: s, by simpa using hclean, hs⟩
    · rintro a d' ⟨s, hclean, hs⟩
      exact ⟨.done :: s, by simpa using hclean, hs⟩

/-- What stops the first part of a program stops the program. -/
theorem exec_bind_none {p : Program σ α} (k : α → Program σ β) {s : List Outcome}
    (h : (p.exec s d).2 = none) : (p.bind k).exec s d = ((p.exec s d).1, none) := by
  induction p generalizing d s with
  | ret a => cases h
  | read next ih => exact ih d h
  | write act done failed ihd ihf =>
    match s with
    | [] => exact ihd h
    | .done :: t => exact ihd h
    | .failed :: t => exact ihf h
    | .crashed :: t => rfl

/-- A program goes on from where its first part ends, with outcomes that are left. -/
theorem exec_bind_some {p : Program σ α} (k : α → Program σ β) {s : List Outcome} {a : α}
    (h : (p.exec s d).2 = some a) :
    ∃ t, t <:+ s ∧ (p.bind k).exec s d = (k a).exec t (p.exec s d).1 := by
  induction p generalizing d s with
  | ret b =>
    obtain rfl := Option.some.inj h
    exact ⟨s, List.suffix_refl s, rfl⟩
  | read next ih => exact ih d h
  | write act done failed ihd ihf =>
    match s with
    | [] => exact ihd h
    | .done :: t =>
      obtain ⟨u, hu, heq⟩ := ihd h
      exact ⟨u, hu.trans (List.suffix_cons _ t), heq⟩
    | .failed :: t =>
      obtain ⟨u, hu, heq⟩ := ihf h
      exact ⟨u, hu.trans (List.suffix_cons _ t), heq⟩
    | .crashed :: t => cases h

/-- A run that is not stopped has a result. -/
theorem exec_complete (p : Program σ α) {s : List Outcome} (hs : Outcome.crashed ∉ s) :
    ∃ a, (p.exec s d).2 = some a := by
  induction p generalizing d s with
  | ret a => exact ⟨a, rfl⟩
  | read next ih => exact ih d hs
  | write act done failed ihd ihf =>
    match s with
    | [] => exact ihd hs
    | .done :: t => exact ihd fun h => hs (List.mem_cons_of_mem _ h)
    | .failed :: t => exact ihf fun h => hs (List.mem_cons_of_mem _ h)
    | .crashed :: t => exact absurd List.mem_cons_self hs

end Program

/-- A program over a disk that also works on a state in memory and can end in an error, keeping the
state it reached. -/
def Action (σ S ε α : Type) : Type := S → Program σ (Except ε α × S)

namespace Action
variable {σ S ε α β : Type}

/-- Go on with `k` after a success, and end after an error. -/
def continueWith (k : α → Action σ S ε β) : Except ε α × S → Program σ (Except ε β × S)
  | (.ok a, s) => k a s
  | (.error e, s) => .ret (.error e, s)

/-- Go on with `handler` after an error. -/
def recoverWith (handler : ε → Action σ S ε α) : Except ε α × S → Program σ (Except ε α × S)
  | (.ok a, s) => .ret (.ok a, s)
  | (.error e, s) => handler e s

instance : Monad (Action σ S ε) where
  pure a := fun s => .ret (.ok a, s)
  bind m k := fun s => (m s).bind (continueWith k)

def fail (e : ε) : Action σ S ε α := fun s => .ret (.error e, s)

def rescue (m : Action σ S ε α) (handler : ε → Action σ S ε α) : Action σ S ε α :=
  fun s => (m s).bind (recoverWith handler)

def getState : Action σ S ε S := fun s => .ret (.ok s, s)

def modifyState (f : S → S) : Action σ S ε Unit := fun s => .ret (.ok (), f s)

/-- Look at the disk. -/
def inspect (f : σ → α) : Action σ S ε α := fun s => .read fun d => .ret (.ok (f d), s)

/-- One step on the disk, ending in `e` if it fails. -/
def step (act : σ → σ) (e : ε) : Action σ S ε Unit :=
  fun s => .write act (.ret (.ok (), s)) (.ret (.error e, s))

def ofExcept : Except ε α → Action σ S ε α
  | .ok a => pure a
  | .error e => fail e

/-- What must hold of a result, the state and the disk. -/
def settled (ok : α → S → σ → Prop) (err : ε → S → σ → Prop) : Except ε α × S → σ → Prop
  | (.ok a, s), d => ok a s d
  | (.error e, s), d => err e s d

/-- Run from `s` and `d`, the action meets `ok` when it succeeds and `err` when it fails, and
`crash` holds wherever it can stop. -/
def Meets (faults : Prop) (crash : σ → Prop) (m : Action σ S ε α) (s : S) (d : σ)
    (ok : α → S → σ → Prop) (err : ε → S → σ → Prop) : Prop :=
  (m s).wp faults crash (settled ok err) d

section Rules
variable {faults : Prop} {crash crash' : σ → Prop} {s : S} {d : σ} {ok ok' : α → S → σ → Prop}
  {err err' : ε → S → σ → Prop}

@[simp] theorem meets_pure (a : α) :
    Meets faults crash (pure a : Action σ S ε α) s d ok err ↔ ok a s d := Iff.rfl

@[simp] theorem meets_fail (e : ε) :
    Meets faults crash (fail e : Action σ S ε α) s d ok err ↔ err e s d := Iff.rfl

@[simp] theorem meets_bind {ok : β → S → σ → Prop} (m : Action σ S ε α) (k : α → Action σ S ε β) :
    Meets faults crash (m >>= k) s d ok err ↔
      Meets faults crash m s d (fun a s d => Meets faults crash (k a) s d ok err) err := by
  refine (Program.wp_bind (m s) (continueWith k)).trans (iff_of_eq ?_)
  congr 1
  funext ⟨r, s'⟩ d'
  cases r <;> rfl

@[simp] theorem meets_rescue (m : Action σ S ε α) (handler : ε → Action σ S ε α) :
    Meets faults crash (m.rescue handler) s d ok err ↔
      Meets faults crash m s d ok (fun e s d => Meets faults crash (handler e) s d ok err) := by
  refine (Program.wp_bind (m s) (recoverWith handler)).trans (iff_of_eq ?_)
  congr 1
  funext ⟨r, s'⟩ d'
  cases r <;> rfl

@[simp] theorem meets_getState {ok : S → S → σ → Prop} :
    Meets faults crash (getState : Action σ S ε S) s d ok err ↔ ok s s d := Iff.rfl

@[simp] theorem meets_modifyState {ok : Unit → S → σ → Prop} (f : S → S) :
    Meets faults crash (modifyState f : Action σ S ε Unit) s d ok err ↔ ok () (f s) d := Iff.rfl

@[simp] theorem meets_inspect (f : σ → α) :
    Meets faults crash (inspect f : Action σ S ε α) s d ok err ↔ ok (f d) s d := Iff.rfl

@[simp] theorem meets_step {ok : Unit → S → σ → Prop} (act : σ → σ) (e : ε) :
    Meets faults crash (step act e : Action σ S ε Unit) s d ok err ↔
      crash d ∧ ok () s (act d) ∧ (faults → err e s d) := Iff.rfl

@[simp] theorem meets_ofExcept_ok (a : α) :
    Meets faults crash (ofExcept (.ok a) : Action σ S ε α) s d ok err ↔ ok a s d := Iff.rfl

@[simp] theorem meets_ofExcept_error (e : ε) :
    Meets faults crash (ofExcept (.error e) : Action σ S ε α) s d ok err ↔ err e s d := Iff.rfl

theorem Meets.mono {m : Action σ S ε α} (h : Meets faults crash m s d ok err)
    (hcrash : ∀ d, crash d → crash' d) (hok : ∀ a s d, ok a s d → ok' a s d)
    (herr : ∀ e s d, err e s d → err' e s d) : Meets faults crash' m s d ok' err' := by
  refine Program.wp_mono hcrash ?_ h
  rintro ⟨_ | a, s'⟩ d' hr
  · exact herr _ _ _ hr
  · exact hok _ _ _ hr

end Rules

/-- Run an action with given outcomes of its writes. -/
def run (m : Action σ S ε α) (s : S) (outcomes : List Outcome) (d : σ) :
    σ × Option (Except ε α × S) :=
  (m s).exec outcomes d

section Runs
variable {faults : Prop} {crash : σ → Prop} {m : Action σ S ε α} {s s' : S} {d d' : σ}
  {ok : α → S → σ → Prop} {err : ε → S → σ → Prop} {outcomes : List Outcome}

/-- The three ways in which a run can end. -/
theorem Meets.ended (h : Meets faults crash m s d ok err) (outcomes : List Outcome)
    (hf : Outcome.failed ∈ outcomes → faults) :
    (∃ d', m.run s outcomes d = (d', none) ∧ crash d') ∨
    (∃ a s' d', m.run s outcomes d = (d', some (.ok a, s')) ∧ ok a s' d') ∨
    (∃ e s' d', m.run s outcomes d = (d', some (.error e, s')) ∧ err e s' d') := by
  obtain ⟨hdone, hcrash⟩ := Program.exec_of_wp h hf
  rw [run]
  match hran : (m s).exec outcomes d with
  | (d', none) =>
    simp only [hran] at hcrash
    exact .inl ⟨d', rfl, hcrash trivial⟩
  | (d', some (.ok a, s')) =>
    simp only [hran] at hdone
    exact .inr (.inl ⟨a, s', d', rfl, hdone _ rfl⟩)
  | (d', some (.error e, s')) =>
    simp only [hran] at hdone
    exact .inr (.inr ⟨e, s', d', rfl, hdone _ rfl⟩)

/-- A run that does not stop ends in one of two ways. -/
theorem Meets.completed (h : Meets faults crash m s d ok err) (outcomes : List Outcome)
    (hf : Outcome.failed ∈ outcomes → faults) (hc : Outcome.crashed ∉ outcomes) :
    (∃ a s' d', m.run s outcomes d = (d', some (.ok a, s')) ∧ ok a s' d') ∨
    (∃ e s' d', m.run s outcomes d = (d', some (.error e, s')) ∧ err e s' d') := by
  obtain ⟨d', hran, -⟩ | hran := h.ended _ hf
  · obtain ⟨r, hr⟩ := Program.exec_complete (m s) hc (d := d)
    rw [run] at hran
    rw [hran] at hr
    cases hr
  · exact hran

theorem Meets.of_run (h : Meets faults crash m s d ok err) {a : α}
    (hran : m.run s outcomes d = (d', some (.ok a, s')))
    (hf : Outcome.failed ∈ outcomes → faults) : ok a s' d' := by
  obtain ⟨_, hran', -⟩ | ⟨_, _, _, hran', hok⟩ | ⟨_, _, _, hran', -⟩ := h.ended _ hf
  · cases hran.symm.trans hran'
  · cases hran.symm.trans hran'
    exact hok
  · cases hran.symm.trans hran'

/-- A run that is not stopped ends in what both of its ends promise. -/
theorem Meets.result_of_run {post : S → σ → Prop}
    (h : Meets faults crash m s d (fun _ => post) (fun _ => post)) {result : Except ε α}
    (hran : m.run s outcomes d = (d', some (result, s')))
    (hf : Outcome.failed ∈ outcomes → faults) : post s' d' := by
  obtain ⟨_, hran', -⟩ | ⟨_, _, _, hran', hpost⟩ | ⟨_, _, _, hran', hpost⟩ := h.ended _ hf
  · cases hran.symm.trans hran'
  · cases hran.symm.trans hran'
    exact hpost
  · cases hran.symm.trans hran'
    exact hpost

/-- Every way in which an action can end without a failed write. -/
theorem meets_reached (m : Action σ S ε α) (s : S) (d : σ) :
    Meets False (fun d' => ∃ outcomes, .failed ∉ outcomes ∧ m.run s outcomes d = (d', none)) m s d
      (fun _ _ _ => True) (fun _ _ _ => True) := by
  refine Program.wp_mono (fun _ hd => hd) ?_ (Program.wp_exec (m s) d)
  rintro ⟨_ | _, _⟩ _ _ <;> trivial

theorem run_bind_stopped (k : α → Action σ S ε β) (h : m.run s outcomes d = (d', none)) :
    (m >>= k).run s outcomes d = (d', none) := by
  have hnone : ((m s).exec outcomes d).2 = none := by
    rw [← run, h]
  refine (Program.exec_bind_none _ hnone).trans ?_
  rw [← run, h]

theorem run_bind_ok (k : α → Action σ S ε β) {a : α}
    (h : m.run s outcomes d = (d', some (.ok a, s'))) :
    ∃ t, t <:+ outcomes ∧ (m >>= k).run s outcomes d = (k a).run s' t d' := by
  have hsome : ((m s).exec outcomes d).2 = some (.ok a, s') := by
    rw [← run, h]
  obtain ⟨t, hsuffix, ht⟩ := Program.exec_bind_some (continueWith k) hsome
  refine ⟨t, hsuffix, ht.trans ?_⟩
  rw [← run, h]
  rfl

/-! ### Runs in which all writes are made -/

@[simp] theorem run_clean_pure (a : α) :
    (pure a : Action σ S ε α).run s [] d = (d, some (.ok a, s)) := rfl

@[simp] theorem run_clean_fail (e : ε) :
    (fail e : Action σ S ε α).run s [] d = (d, some (.error e, s)) := rfl

@[simp] theorem run_clean_step (act : σ → σ) (e : ε) :
    (step act e : Action σ S ε Unit).run s [] d = (act d, some (.ok (), s)) := rfl

@[simp] theorem run_clean_inspect (f : σ → α) :
    (inspect f : Action σ S ε α).run s [] d = (d, some (.ok (f d), s)) := rfl

@[simp] theorem run_clean_getState :
    (getState : Action σ S ε S).run s [] d = (d, some (.ok s, s)) := rfl

@[simp] theorem run_clean_modifyState (f : S → S) :
    (modifyState f : Action σ S ε Unit).run s [] d = (d, some (.ok (), f s)) := rfl

theorem run_clean_bind (k : α → Action σ S ε β) {a : α}
    (h : m.run s [] d = (d', some (.ok a, s'))) : (m >>= k).run s [] d = (k a).run s' [] d' := by
  obtain ⟨t, hsuffix, ht⟩ := run_bind_ok k h
  rwa [List.suffix_nil.mp hsuffix] at ht

end Runs

end Action
end PiDeck.Storage
