import Mathlib
import PiDeck.Worker.Recovery

/-! The pool of workers. A terminal goes to the slot with the fewest terminals and stays there. -/
namespace PiDeck.Worker
open PiDeck.Collections PiDeck.Transition FairWorkerScheduler

variable {θ : Type*}

def maxTerminalWorkers : ℕ := 4

def workerLimit (hardwareConcurrency : ℕ) : ℕ :=
  max 1 (min maxTerminalWorkers (hardwareConcurrency / 2))

structure TerminalWorkerPool (θ : Type*) where
  slots : List (Slot θ)

inductive PoolStep (θ : Type*)
  | create (id : String) (options : Settings θ)
  | slot (index : ℕ) (step : SlotStep θ)

namespace TerminalWorkerPool

def start : TerminalWorkerPool θ := ⟨[]⟩

def terminalCount (pool : TerminalWorkerPool θ) : ℕ :=
  (pool.slots.map fun slot => slot.terminals.length).sum

/-- The loop that adds slots, for at most as many rounds as there may be slots. -/
def grow (limit count : ℕ) : ℕ → List (Slot θ) → List (Slot θ)
  | 0, slots => slots
  | rounds + 1, slots =>
    if slots.length < limit ∧ slots.length ≤ count then grow limit count rounds (slots ++ [.start])
    else slots

/-- The slot with the fewest terminals, the first of several. -/
def least (slots : List (Slot θ)) : Option (Slot θ × ℕ) :=
  slots.zipIdx.foldl (fun least candidate =>
    match least with
    | none => some candidate
    | some found =>
      if candidate.1.terminals.length < found.1.terminals.length then some candidate
      else some found) none

/-- The slots from which a new terminal gets one. -/
def grown (limit : ℕ) (pool : TerminalWorkerPool θ) : List (Slot θ) :=
  grow limit pool.terminalCount limit pool.slots

def step (limit : ℕ) (pool : TerminalWorkerPool θ) : PoolStep θ → Option (TerminalWorkerPool θ)
  | .create id options =>
    if pool.slots.any fun slot => (slot.core id).isSome then none
    else
      match least (pool.grown limit) with
      | none => none
      | some (slot, index) =>
        (slot.step (.create id options)).map fun slot =>
          ⟨(pool.grown limit).set index slot⟩
  | .slot _ (.create _ _) => none
  | .slot index a =>
    match pool.slots[index]? with
    | none => none
    | some slot => (slot.step a).map fun slot => ⟨pool.slots.set index slot⟩

def machine (limit : ℕ) : Machine (TerminalWorkerPool θ) (PoolStep θ) := ⟨step limit⟩

/-- A condition on the steps of a slot, for those of a pool. -/
def Each (C : Slot θ → SlotStep θ → Prop) (limit : ℕ) (pool : TerminalWorkerPool θ) :
    PoolStep θ → Prop
  | .create id options =>
    ∀ slot index, least (pool.grown limit) = some (slot, index) → C slot (.create id options)
  | .slot index a => ∀ slot, pool.slots[index]? = some slot → C slot a

variable {limit : ℕ} {pool pool' : TerminalWorkerPool θ} {a : PoolStep θ} {as : List (PoolStep θ)}
  {I : Slot θ → Prop} {C : Slot θ → SlotStep θ → Prop}

theorem mem_grow {limit count rounds : ℕ} {slots : List (Slot θ)} {slot : Slot θ}
    (h : slot ∈ grow limit count rounds slots) : slot ∈ slots ∨ slot = .start := by
  induction rounds generalizing slots with
  | zero => exact .inl h
  | succ rounds ih =>
    unfold grow at h
    split at h
    · rcases ih h with hmem | rfl
      · rcases List.mem_append.mp hmem with hmem | hmem
        · exact .inl hmem
        · exact .inr (List.mem_singleton.mp hmem)
      · exact .inr rfl
    · exact .inl h

theorem mem_of_least {slots : List (Slot θ)} {slot : Slot θ} {index : ℕ}
    (h : least slots = some (slot, index)) : slot ∈ slots := by
  have hfold : ∀ (candidates : List (Slot θ × ℕ)) (found : Option (Slot θ × ℕ)),
      (∀ c, found = some c → c.1 ∈ slots) → (∀ c ∈ candidates, c.1 ∈ slots) →
      ∀ c, candidates.foldl (fun least candidate =>
        match least with
        | none => some candidate
        | some found =>
          if candidate.1.terminals.length < found.1.terminals.length then some candidate
          else some found) found = some c → c.1 ∈ slots := by
    intro candidates
    induction candidates with
    | nil => exact fun found hfound _ c hc => hfound c hc
    | cons candidate candidates ih =>
      intro found hfound hall c hc
      refine ih _ ?_ (fun d hd => hall d (List.mem_cons_of_mem _ hd)) c hc
      intro d hd
      have hfirst := hall candidate List.mem_cons_self
      cases found with
      | none =>
        obtain rfl := Option.some.inj hd
        exact hfirst
      | some old =>
        dsimp only at hd
        split at hd
        · obtain rfl := Option.some.inj hd
          exact hfirst
        · obtain rfl := Option.some.inj hd
          exact hfound old rfl
  refine hfold slots.zipIdx none (fun _ h => nomatch h) ?_ (slot, index) h
  intro c hc
  exact (List.mem_zipIdx' hc).2 ▸ List.getElem_mem _

/-- What every slot keeps, the pool keeps of all its slots. -/
theorem each_step (hstart : I .start)
    (hslot : ∀ s b t, I s → C s b → Slot.machine.step s b = some t → I t)
    (h : ∀ slot ∈ pool.slots, I slot) (hg : Each C limit pool a)
    (hs : (machine limit).step pool a = some pool') : ∀ slot ∈ pool'.slots, I slot := by
  cases a with
  | create id options =>
    dsimp only [machine, step] at hs
    split at hs
    · cases hs
    · split at hs
      · cases hs
      · rename_i slot index hleast
        obtain ⟨new, hnew, rfl⟩ := Option.map_eq_some_iff.mp hs
        have hall : ∀ slot ∈ pool.grown limit, I slot := by
          intro slot hmem
          rcases mem_grow hmem with hmem | rfl
          · exact h slot hmem
          · exact hstart
        have hold := hall slot (mem_of_least hleast)
        intro other hmem
        rcases List.mem_or_eq_of_mem_set hmem with hmem | rfl
        · exact hall other hmem
        · exact hslot slot _ other hold (hg slot index hleast) hnew
  | slot index b =>
    have hcase : ∃ slot new, pool.slots[index]? = some slot ∧ slot.step b = some new ∧
        (⟨pool.slots.set index new⟩ : TerminalWorkerPool θ) = pool' := by
      cases b with
      | create id options => cases hs
      | _ =>
        dsimp only [machine, step] at hs
        split at hs
        · cases hs
        · rename_i slot hslot
          obtain ⟨new, hnew, rfl⟩ := Option.map_eq_some_iff.mp hs
          exact ⟨slot, new, hslot, hnew, rfl⟩
    obtain ⟨slot, new, hfound, hnew, rfl⟩ := hcase
    intro other hmem
    rcases List.mem_or_eq_of_mem_set hmem with hmem | rfl
    · exact h other hmem
    · exact hslot slot b other (h slot (List.mem_of_getElem? hfound)) (hg slot hfound) hnew

theorem each_run (hstart : I .start)
    (hslot : ∀ s b t, I s → C s b → Slot.machine.step s b = some t → I t)
    (h : (machine limit).Path (Each C limit) start as pool) : ∀ slot ∈ pool.slots, I slot :=
  h.invariant (I := fun pool => ∀ slot ∈ pool.slots, I slot)
    (fun _ _ _ hi hg h => each_step hstart hslot hi hg h) (fun _ h => nomatch h)

/-- Where terminals are disposed only while their worker has nothing of them, a quiescent slot has
no runtime of a disposed terminal. -/
theorem disposed_leave_nothing (limit : ℕ) (as : List (PoolStep θ)) (pool : TerminalWorkerPool θ)
    (h : (machine limit).Path (Each Slot.DisposesClear limit) start as pool) :
    ∀ slot ∈ pool.slots, slot.Quiescent → slot.NoneLeft := by
  have htidy : ∀ slot ∈ pool.slots, slot.Tidy := by
    apply each_run Slot.tidy_start _ h
    exact fun s b t hi hg hs => Slot.tidy_step hi hg hs
  exact fun slot hmem _ => (htidy slot hmem).noneLeft

/-- Where every step keeps what has been asked for, the cores of a quiescent slot are all running,
and their runtimes are what has been asked for. -/
theorem recovery_resynchronises (limit : ℕ) (as : List (PoolStep θ)) (pool : TerminalWorkerPool θ)
    (h : (machine limit).Path (Each Slot.KeepsRequests limit) start as pool) :
    ∀ slot ∈ pool.slots, slot.Quiescent → slot.Synced := by
  have hconsonant : ∀ slot ∈ pool.slots, slot.Consonant := by
    apply each_run Slot.consonant_start _ h
    exact fun s b t hi hg hs => Slot.consonant_step hi hg hs
  exact fun slot hmem hq => (hconsonant slot hmem).synced hq

section Runs

def options : Settings Unit := ⟨⟨80, 24, 8, 16⟩, (), ⟨true, true⟩⟩

/-- A terminal is created and its promise resolves. -/
def opens : List (PoolStep Unit) :=
  [.create "terminal-1" options, .slot 0 .microtask, .slot 0 (.handle .completed),
    .slot 0 (.created "terminal-1" 0 .ready), .slot 0 .deliver]

/-- A terminal that is disposed after its worker has been replaced. -/
theorem replaced_then_disposed :
    ∃ pool : TerminalWorkerPool Unit, (machine 1).Run start
        (opens ++ [.slot 0 .workerFailed, .slot 0 (.call "terminal-1" (.dispose []))]) pool ∧
      ∀ slot ∈ pool.slots, slot.Quiescent → slot.NoneLeft := by
  obtain ⟨pool, hrun⟩ : ∃ pool : TerminalWorkerPool Unit,
      (machine 1).Path (Each Slot.DisposesClear 1) start
        (opens ++ [.slot 0 .workerFailed, .slot 0 (.call "terminal-1" (.dispose []))]) pool := by
    refine ⟨_, .cons ?_ rfl (.cons ?_ rfl (.cons ?_ rfl (.cons ?_ rfl (.cons ?_ rfl
      (.cons ?_ rfl (.cons ?_ rfl (.nil _)))))))⟩
    · exact fun _ _ _ => trivial
    · exact fun _ _ => trivial
    · exact fun _ _ => trivial
    · exact fun _ _ => trivial
    · rintro _ ⟨⟩ id event rest core ⟨⟩ hfailed
      cases hfailed
    · exact fun _ _ => trivial
    · rintro _ ⟨⟩ core _ _
      exact ⟨rfl, rfl, fun _ h => nomatch h⟩
  exact ⟨pool, hrun.toRun, disposed_leave_nothing 1 _ pool hrun⟩

/-- Disposed while its worker has its runtime, a terminal leaves it there. -/
theorem opened_then_disposed :
    ¬ ∀ (limit : ℕ) (as : List (PoolStep Unit)) (pool : TerminalWorkerPool Unit),
      (machine limit).Run start as pool → ∀ slot ∈ pool.slots, slot.Quiescent → slot.NoneLeft := by
  intro h
  obtain ⟨pool, hexec, slot, core, entry, hmem, hcore, hdisposed, hentry, hq⟩ :
      ∃ pool : TerminalWorkerPool Unit,
        (machine 1).exec (fun _ _ => True) start
          (opens ++ [.slot 0 (.call "terminal-1" (.dispose []))]) = some pool ∧
        ∃ (slot : Slot Unit) (core : WorkerTerminalCore Unit) (entry : RuntimeEntry Unit),
          slot ∈ pool.slots ∧ slot.core "terminal-1" = some core ∧ core.disposed = true ∧
          slot.worker.runtimes "terminal-1" = some entry ∧ slot.Quiescent := by
    refine ⟨_, rfl, _, _, _, List.mem_singleton_self _, rfl, rfl, rfl, ?_⟩
    refine ⟨fun _ => rfl, fun _ => rfl, rfl, fun id => ?_, rfl⟩
    by_cases hid : id = "terminal-1"
    · subst hid
      rfl
    · exact (Function.update_of_ne hid _ _).trans (Function.update_of_ne hid _ _)
  have hnone := h 1 _ pool (Machine.path_of_exec hexec) slot hmem hq _ core hcore hdisposed
  rw [hentry] at hnone
  cases hnone

/-- The worker of a terminal fails, and the terminal recovers. -/
def recovers : List (PoolStep Unit) :=
  [.slot 0 .workerFailed, .slot 0 .microtask, .slot 0 (.handle .completed),
    .slot 0 (.created "terminal-1" 0 .ready), .slot 0 .deliver]

theorem recovered_synced :
    ∃ pool : TerminalWorkerPool Unit, (machine 1).Run start (opens ++ recovers) pool ∧
      ∀ slot ∈ pool.slots, slot.Quiescent → slot.Synced := by
  obtain ⟨pool, hrun⟩ : ∃ pool : TerminalWorkerPool Unit,
      (machine 1).Path (Each Slot.KeepsRequests 1) start (opens ++ recovers) pool := by
    refine ⟨_, .cons ?_ rfl (.cons ?_ rfl (.cons ?_ rfl (.cons ?_ rfl (.cons ?_ rfl
      (.cons ?_ rfl (.cons ?_ rfl (.cons ?_ rfl (.cons ?_ rfl (.cons ?_ rfl (.nil _))))))))))⟩
    · rintro _ _ ⟨⟩
      exact ⟨by decide, by decide⟩
    · exact fun _ _ => trivial
    · exact fun _ _ => trivial
    · exact fun _ _ => trivial
    · rintro _ ⟨⟩ id event rest core ⟨⟩ hfailed
      cases hfailed
    · rintro _ ⟨⟩
      refine ⟨by decide, fun id core hcore _ _ => ?_⟩
      obtain ⟨⟩ := List.mem_singleton.mp (Slot.mem_cores hcore)
      exact ⟨rfl, rfl, rfl⟩
    · exact fun _ _ => trivial
    · exact fun _ _ => trivial
    · exact fun _ _ => trivial
    · rintro _ ⟨⟩ id event rest core ⟨⟩ hfailed
      cases hfailed
  exact ⟨pool, hrun.toRun, recovery_resynchronises 1 _ pool hrun⟩

/-- A second failure of the worker, before the first has been recovered from, is ignored, and the
terminal recovers no more. A size asked for is lost with the worker. -/
theorem wedged_and_forgotten :
    (¬ ∀ (limit : ℕ) (as : List (PoolStep Unit)) (pool : TerminalWorkerPool Unit),
      (machine limit).Run start as pool → ∀ slot ∈ pool.slots, slot.Quiescent →
        ∀ id core, slot.core id = some core → core.disposed = false → core.recovering = false) ∧
    ¬ ∀ (limit : ℕ) (as : List (PoolStep Unit)) (pool : TerminalWorkerPool Unit),
      (machine limit).Run start as pool → ∀ slot ∈ pool.slots, slot.Quiescent →
        ∀ id core entry, slot.core id = some core → core.disposed = false →
          slot.worker.runtimes id = some entry → entry.settings = core.requested := by
  constructor
  · intro h
    obtain ⟨pool, hexec, slot, core, hmem, hcore, hactive, hrec, hq⟩ :
        ∃ pool : TerminalWorkerPool Unit,
          (machine 1).exec (fun _ _ => True) start
            (opens ++ [.slot 0 .workerFailed, .slot 0 .workerFailed]) = some pool ∧
          ∃ (slot : Slot Unit) (core : WorkerTerminalCore Unit), slot ∈ pool.slots ∧
            slot.core "terminal-1" = some core ∧ core.disposed = false ∧
            core.recovering = true ∧ slot.Quiescent := by
      refine ⟨_, rfl, _, _, List.mem_singleton_self _, rfl, rfl, rfl, ?_⟩
      exact ⟨fun _ => rfl, fun _ => rfl, rfl, fun _ => rfl, rfl⟩
    have hrun := h 1 _ pool (Machine.path_of_exec hexec) slot hmem hq _ core hcore hactive
    rw [hrec] at hrun
    cases hrun
  · intro h
    obtain ⟨pool, hexec, slot, core, entry, hmem, hcore, hactive, hentry, hother, hq⟩ :
        ∃ pool : TerminalWorkerPool Unit,
          (machine 1).exec (fun _ _ => True) start
            (opens ++ [.slot 0 (.call "terminal-1" (.resize ⟨100, 30, 8, 16⟩))] ++ recovers) =
              some pool ∧
          ∃ (slot : Slot Unit) (core : WorkerTerminalCore Unit) (entry : RuntimeEntry Unit),
            slot ∈ pool.slots ∧ slot.core "terminal-1" = some core ∧ core.disposed = false ∧
            slot.worker.runtimes "terminal-1" = some entry ∧
            entry.settings.geometry.cols ≠ core.requested.geometry.cols ∧ slot.Quiescent := by
      refine ⟨_, rfl, _, _, _, List.mem_singleton_self _, rfl, rfl, rfl, ?_, ?_⟩
      · change (80 : ℚ) ≠ 100
        norm_num
      · refine ⟨fun _ => rfl, fun _ => rfl, rfl, fun id => ?_, rfl⟩
        by_cases hid : id = "terminal-1"
        · subst hid
          rfl
        · exact (Function.update_of_ne hid _ _).trans (Function.update_of_ne hid _ _)
    have hsame := h 1 _ pool (Machine.path_of_exec hexec) slot hmem hq _ core entry hcore hactive
      hentry
    exact hother (congrArg (fun settings => settings.geometry.cols) hsame)

end Runs
end TerminalWorkerPool
end PiDeck.Worker
