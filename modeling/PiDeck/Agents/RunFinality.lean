import Mathlib
import PiDeck.Agents.RunStatus

/-! When a final status stays. The phase of each task bounds the statuses its run can have, and a
write then changes a final status exactly if another task has put a different one there since. -/
namespace PiDeck.Agents
open PiDeck.Transition

namespace Host
variable {host host' : Host} {a : RunStep} {id k : String} {as bs : List RunStep}

/-- What the phases of the tasks of one run say about its status. -/
structure Lifecycle (host : Host) (id : String) : Prop where
  never_queued : host.status id ≠ some .queued
  launching : host.launch id ≠ none → host.status id ≠ none ∧ host.reader id = none
  admitted : host.launch id = some .admitted → host.status id = some .running ∧ id ∉ host.active ∧
    ∀ handler c, host.cancel handler = some (id, c) → c = .checked
  attached : host.launch id = some .attached →
    host.status id = some .running ∨ host.status id = some .cancelled
  reads : host.reader id ≠ none → host.status id ≠ none
  reading : host.reader id = some .reading →
    host.status id ≠ some .failed
  exiting : host.reader id = some .exiting →
    host.status id = some .running ∨ host.status id = some .cancelled
  active : id ∈ host.active → host.status id ≠ none
  cancels : ∀ handler c, host.cancel handler = some (id, c) → host.status id ≠ none

theorem lifecycle_start {rows : List RunRow} {now : String} : (start rows now).Lifecycle id := by
  have hidle : (start rows now).launch id = none ∧ (start rows now).reader id = none ∧
      (start rows now).active = [] ∧ ∀ h, (start rows now).cancel h = none :=
    ⟨rfl, rfl, rfl, fun _ => rfl⟩
  obtain ⟨hl, hr, ha, hc⟩ := hidle
  have hq : (start rows now).status id ≠ some .queued := by
    rw [status_start]
    intro h
    obtain ⟨row, -, hrow⟩ := Option.map_eq_some_iff.mp h
    cases hs : row.status <;> simp [hs, RunStatus.isActive] at hrow
  constructor <;> simp_all

/-- Steps of other runs do not matter. -/
theorem Lifecycle.frame (hi : host.Lifecycle k) (hs : host'.status k = host.status k)
    (hl : host'.launch k = host.launch k) (hr : host'.reader k = host.reader k)
    (ha : k ∈ host'.active → k ∈ host.active)
    (hc : ∀ handler c, host'.cancel handler = some (k, c) →
      ∃ handler', host.cancel handler' = some (k, c)) : host'.Lifecycle k := by
  constructor
  · rw [hs]
    exact hi.never_queued
  · rw [hs, hl, hr]
    exact hi.launching
  · rw [hs, hl]
    intro h
    obtain ⟨hrun, hact, hchecked⟩ := hi.admitted h
    refine ⟨hrun, fun hmem => hact (ha hmem), ?_⟩
    intro handler c hcan
    obtain ⟨handler', hcan'⟩ := hc handler c hcan
    exact hchecked handler' c hcan'
  · rw [hs, hl]
    exact hi.attached
  · rw [hs, hr]
    exact hi.reads
  · rw [hs, hr]
    exact hi.reading
  · rw [hs, hr]
    exact hi.exiting
  · rw [hs]
    exact fun hmem => hi.active (ha hmem)
  · rw [hs]
    intro handler c hcan
    obtain ⟨handler', hcan'⟩ := hc handler c hcan
    exact hi.cancels handler' c hcan'

theorem lifecycle_createRun {agentId : String} (hi : host.Lifecycle k)
    (fresh : host.status id = none) :
    ((host.pushRow ⟨id, agentId, .running, none, none⟩).setLaunch id
      (some .admitted)).Lifecycle k := by
  have hs := status_pushRow (k := k) ⟨id, agentId, .running, none, none⟩ fresh
  by_cases hk : k = id
  · subst hk
    obtain ⟨queued, launching, admitted, attached, reads, reading, exiting, active, cancels⟩ := hi
    constructor <;> simp_all
  · apply hi.frame <;> simp [hs, hk]
    exact fun handler c h => ⟨handler, h⟩

section Update
variable {written : Bool} {new : RunStatus} {error : Option RunError} {now : String}

@[simp] theorem launch_updateRunStatus :
    (updateRunStatus host written id new error now).launch = host.launch := by
  cases written <;> rfl

@[simp] theorem reader_updateRunStatus :
    (updateRunStatus host written id new error now).reader = host.reader := by
  cases written <;> rfl

@[simp] theorem active_updateRunStatus :
    (updateRunStatus host written id new error now).active = host.active := by
  cases written <;> rfl

@[simp] theorem cancel_updateRunStatus :
    (updateRunStatus host written id new error now).cancel = host.cancel := by
  cases written <;> rfl

/-- A write and a change of phase can be taken in either order. -/
theorem updateRunStatus_setLaunch {launch : Option Launch} :
    (updateRunStatus host written id new error now).setLaunch k launch =
      updateRunStatus (host.setLaunch k launch) written id new error now := by
  cases written <;> rfl

theorem updateRunStatus_setReader {reader : Option Reader} :
    (updateRunStatus host written id new error now).setReader k reader =
      updateRunStatus (host.setReader k reader) written id new error now := by
  cases written <;> rfl

theorem updateRunStatus_setCancel {handler : ℕ} {cancel : Option (String × Cancel)} :
    (updateRunStatus host written id new error now).setCancel handler cancel =
      updateRunStatus (host.setCancel handler cancel) written id new error now := by
  cases written <;> rfl

theorem status_updateRunStatus_cases :
    (updateRunStatus host written id new error now).status k = host.status k ∨
      k = id ∧ host.status k ≠ none ∧
        (updateRunStatus host written id new error now).status k = some new := by
  rw [status_updateRunStatus]
  by_cases hk : written = true ∧ k = id
  · obtain ⟨hw, rfl⟩ := hk
    cases hs : host.status k with
    | none => exact .inl (by simp)
    | some old => exact .inr ⟨rfl, by simp, by simp [hw]⟩
  · exact .inl (by simp only [hk, if_false])

/-- A written status that the phases of the run allow. -/
theorem Lifecycle.update (hi : host.Lifecycle k) (hnew : new ≠ .queued)
    (hadmitted : k = id → host.launch k ≠ some .admitted)
    (hattached : k = id → host.launch k = some .attached → new = .running ∨ new = .cancelled)
    (hreading : k = id → host.reader k = some .reading → new ≠ .failed)
    (hexiting : k = id → host.reader k = some .exiting → new = .running ∨ new = .cancelled) :
    (updateRunStatus host written id new error now).Lifecycle k := by
  rcases status_updateRunStatus_cases with hs | ⟨hk, hstored, hs⟩
  · apply hi.frame hs
    · rw [launch_updateRunStatus]
    · rw [reader_updateRunStatus]
    · rw [active_updateRunStatus]
      exact fun h => h
    · rw [cancel_updateRunStatus]
      exact fun handler c h => ⟨handler, h⟩
  · have hstored' : (updateRunStatus host written id new error now).status k ≠ none := by
      rw [hs]
      exact Option.some_ne_none new
    constructor
    · rw [hs]
      exact fun h => hnew (Option.some.inj h)
    · rw [launch_updateRunStatus, reader_updateRunStatus]
      exact fun h => ⟨hstored', (hi.launching h).2⟩
    · rw [launch_updateRunStatus]
      exact fun h => absurd h (hadmitted hk)
    · rw [launch_updateRunStatus, hs]
      simpa using hattached hk
    · exact fun _ => hstored'
    · rw [reader_updateRunStatus, hs]
      simpa using hreading hk
    · rw [reader_updateRunStatus, hs]
      simpa using hexiting hk
    · exact fun _ => hstored'
    · exact fun _ _ _ => hstored'

end Update

theorem Lifecycle.setLaunch_none (hi : host.Lifecycle k) : (host.setLaunch id none).Lifecycle k := by
  by_cases hk : k = id
  · subst hk
    constructor <;> simp [hi.never_queued]
    · exact hi.reads
    · exact hi.reading
    · exact hi.exiting
    · exact hi.active
    · exact hi.cancels
  · apply hi.frame <;> simp [hk]
    exact fun handler c h => ⟨handler, h⟩

theorem Lifecycle.attach (hi : host.Lifecycle k) (hl : host.launch id = some .admitted) :
    ((host.activate id).setLaunch id (some .attached)).Lifecycle k := by
  by_cases hk : k = id
  · subst hk
    obtain ⟨queued, launching, admitted, attached, reads, reading, exiting, active, cancels⟩ := hi
    constructor <;> simp_all
  · apply hi.frame <;> simp [hk]
    exact fun handler c h => ⟨handler, h⟩

theorem Lifecycle.promptSent (hi : host.Lifecycle k) (hl : host.launch id = some .attached) :
    ((host.setLaunch id none).setReader id (some .reading)).Lifecycle k := by
  by_cases hk : k = id
  · subst hk
    have hrun := hi.attached hl
    have hnf : host.status k ≠ some .failed := by
      rcases hrun with h | h <;> rw [h] <;> simp
    have hstored := (hi.launching (by simp [hl])).1
    constructor <;> simp [hi.never_queued, hnf, hstored]
  · apply hi.frame <;> simp [hk]
    exact fun handler c h => ⟨handler, h⟩

/-- A task that reads a process moves on. -/
theorem Lifecycle.setReader (hi : host.Lifecycle k) {reader : Option Reader}
    (hold : host.reader id ≠ none) (hreading : reader ≠ some .reading)
    (hexiting : reader = some .exiting → host.status id = some .running) :
    (host.setReader id reader).Lifecycle k := by
  by_cases hk : k = id
  · subst hk
    have hl : host.launch k = none := by
      by_contra h
      exact hold (hi.launching h).2
    have hstored := hi.reads hold
    constructor <;> simp [hi.never_queued, hl, hstored, hreading]
    exact fun h => .inl (hexiting h)
  · apply hi.frame <;> simp [hk]
    exact fun handler c h => ⟨handler, h⟩

theorem Lifecycle.deactivate (hi : host.Lifecycle k) : (host.deactivate id).Lifecycle k := by
  apply hi.frame <;> simp
  · exact fun h _ => h
  · exact fun handler c h => ⟨handler, h⟩

/-- A handler that cancels moves on. It has the input of the process only if the run has been
attached. -/
theorem Lifecycle.setCancel (hi : ∀ k, host.Lifecycle k) {handler : ℕ}
    {cancel : Option (String × Cancel)}
    (hstored : ∀ id c, cancel = some (id, c) → host.status id ≠ none)
    (hlaunched : ∀ id c, cancel = some (id, c) → c ≠ .checked → host.launch id ≠ some .admitted) :
    (host.setCancel handler cancel).Lifecycle k := by
  obtain ⟨queued, launching, admitted, attached, reads, reading, exiting, active, cancels⟩ := hi k
  refine ⟨queued, launching, ?_, attached, reads, reading, exiting, active, ?_⟩
  · intro hl
    obtain ⟨hrun, hact, hchecked⟩ := admitted hl
    refine ⟨hrun, hact, ?_⟩
    intro handler' c hc
    by_cases hh : handler' = handler
    · subst hh
      by_contra hne
      exact hlaunched k c (by simpa using hc) hne hl
    · exact hchecked handler' c (by simpa [hh] using hc)
  · intro handler' c hc
    by_cases hh : handler' = handler
    · subst hh
      exact hstored k c (by simpa using hc)
    · exact cancels handler' c (by simpa [hh] using hc)

theorem Lifecycle.setCancel_none (hi : ∀ k, host.Lifecycle k) {handler : ℕ} :
    (host.setCancel handler none).Lifecycle k := by
  apply Lifecycle.setCancel hi <;> simp

/-- The handler that creates a run fails it, and is done with it. -/
theorem Lifecycle.launchFails (hi : host.Lifecycle k) {code message now : String} {written : Bool}
    (hl : host.launch id ≠ none) :
    ((failRun host written id code message now).setLaunch id none).Lifecycle k := by
  unfold failRun
  rw [updateRunStatus_setLaunch]
  apply hi.setLaunch_none.update (by simp)
  · rintro rfl
    simp
  · rintro rfl
    simp
  · rintro rfl hr
    have hnone := (hi.launching hl).2
    simp [hnone] at hr
  · rintro rfl hr
    have hnone := (hi.launching hl).2
    simp [hnone] at hr

/-- The task that reads a process fails its run, and stops reading. -/
theorem Lifecycle.readerFails (hi : host.Lifecycle k) {code message now : String} {written : Bool}
    {reader : Option Reader} (hold : host.reader id ≠ none) (hreading : reader ≠ some .reading)
    (hexiting : reader ≠ some .exiting) :
    ((failRun host written id code message now).setReader id reader).Lifecycle k := by
  have hl : k = id → host.launch k = none := by
    rintro rfl
    by_contra h
    exact hold (hi.launching h).2
  unfold failRun
  rw [updateRunStatus_setReader]
  apply (hi.setReader hold hreading fun h => absurd h hexiting).update (by simp)
  · intro hk
    simp [hl hk]
  · intro hk
    simp [hl hk]
  · rintro rfl
    simp [hreading]
  · rintro rfl
    simp [hexiting]

theorem lifecycle_step (hi : ∀ k, host.Lifecycle k) (h : machine.step host a = some host')
    (k : String) : host'.Lifecycle k := by
  have hk := hi k
  cases a with
  | createRun id agentId =>
    obtain ⟨⟨fresh, -⟩, rfl⟩ : (host.status id = none ∧ host.agentBusy agentId = false) ∧
        (host.pushRow ⟨id, agentId, .running, none, none⟩).setLaunch id (some .admitted) = host' :=
      by simpa [machine, step] using h
    exact lifecycle_createRun hk fresh
  | launchReturns id =>
    obtain ⟨-, rfl⟩ : host.launch id ≠ none ∧ host.setLaunch id none = host' := by
      simpa [machine, step] using h
    exact hk.setLaunch_none
  | launchFails id message now written =>
    obtain ⟨hl, rfl⟩ : host.launch id = some .admitted ∧
        (failRun host written id "agent_start_failed" message now).setLaunch id none = host' := by
      simpa [machine, step] using h
    exact hk.launchFails (by simp [hl])
  | attach id =>
    obtain ⟨hl, rfl⟩ : host.launch id = some .admitted ∧
        (host.activate id).setLaunch id (some .attached) = host' := by
      simpa [machine, step] using h
    exact hk.attach hl
  | promptSent id =>
    obtain ⟨hl, rfl⟩ : host.launch id = some .attached ∧
        (host.setLaunch id none).setReader id (some .reading) = host' := by
      simpa [machine, step] using h
    exact hk.promptSent hl
  | promptFails id now written =>
    obtain ⟨hl, rfl⟩ : host.launch id = some .attached ∧
        (failRun host written id "agent_start_failed" "Could not send prompt to Pi"
          now).setLaunch id none = host' := by
      simpa [machine, step] using h
    exact hk.launchFails (by simp [hl])
  | cancelFind handler id =>
    obtain ⟨⟨-, hactive⟩, rfl⟩ : (host.cancel handler = none ∧
        (host.status id).any RunStatus.isActive = true) ∧
        host.setCancel handler (some (id, .checked)) = host' := by
      simpa [machine, step] using h
    apply Lifecycle.setCancel hi
    · rintro _ _ ⟨⟩ hs
      simp [hs] at hactive
    · rintro _ _ ⟨⟩ hne
      exact absurd rfl hne
  | cancelLookup handler =>
    rcases hc : host.cancel handler with _ | ⟨id, _ | _ | _⟩ <;>
      simp only [machine, step, hc, reduceCtorEq, Option.some.injEq] at h
    subst h
    by_cases hact : id ∈ host.active
    · rw [if_pos hact]
      apply Lifecycle.setCancel hi
      · rintro _ _ ⟨⟩
        exact (hi id).cancels handler _ hc
      · rintro _ _ ⟨⟩ - hl
        exact ((hi id).admitted hl).2.1 hact
    · rw [if_neg hact]
      exact Lifecycle.setCancel_none hi
  | cancelAbort handler sent =>
    rcases hc : host.cancel handler with _ | ⟨id, _ | _ | _⟩ <;>
      simp only [machine, step, hc, reduceCtorEq, Option.some.injEq] at h
    subst h
    cases sent with
    | false => exact Lifecycle.setCancel_none hi
    | true =>
      apply Lifecycle.setCancel hi
      · rintro _ _ ⟨⟩
        exact (hi id).cancels handler _ hc
      · rintro _ _ ⟨⟩ - hl
        exact absurd (((hi id).admitted hl).2.2 handler _ hc) (by simp)
  | cancelWrite handler now written =>
    rcases hc : host.cancel handler with _ | ⟨id, _ | _ | _⟩ <;>
      simp only [machine, step, hc, reduceCtorEq, Option.some.injEq] at h
    subst h
    rw [updateRunStatus_setCancel]
    apply (Lifecycle.setCancel_none hi).update
    · simp
    · rintro rfl hl
      exact absurd (((hi k).admitted hl).2.2 handler _ hc) (by simp)
    · exact fun _ _ => .inr rfl
    · simp
    · exact fun _ _ => .inr rfl
  | line id value now written =>
    by_cases hr : host.reader id = some .reading
    · cases hv : classify value with
      | settled =>
        obtain rfl : completeRun host written id now = host' := by
          simpa [machine, step, hr, hv] using h
        have hl : host.launch id = none := by
          by_contra hl
          simp [((hi id).launching hl).2] at hr
        apply hk.update (by simp)
        · rintro rfl
          simp [hl]
        · rintro rfl
          simp [hl]
        · simp
        · rintro rfl
          simp [hr]
      | promptRejected message =>
        obtain rfl : (failRun host written id "agent_start_failed" message now).setReader id
            (some .leaving) = host' := by
          simpa [machine, step, hr, hv] using h
        exact hk.readerFails (by simp [hr]) (by simp) (by simp)
      | other =>
        obtain rfl : host = host' := by simpa [machine, step, hr, hv] using h
        exact hk
    · simp [machine, step, hr] at h
  | endOfOutput id =>
    obtain ⟨hr, rfl⟩ : host.reader id = some .reading ∧ host.setReader id (some .leaving) = host' :=
      by simpa [machine, step] using h
    exact hk.setReader (by simp [hr]) (by simp) (by simp)
  | detach id =>
    obtain ⟨hr, rfl⟩ : host.reader id = some .leaving ∧
        (host.deactivate id).setReader id (some .waiting) = host' := by
      simpa [machine, step] using h
    exact hk.deactivate.setReader (by simp [hr]) (by simp) (by simp)
  | checkExit id found =>
    obtain ⟨hr, rfl⟩ : host.reader id = some .waiting ∧ host.setReader id
        (if found = true ∧ host.status id = some .running then some .exiting else none) = host' :=
      by simpa [machine, step] using h
    apply hk.setReader (by simp [hr])
    · split <;> simp
    · split
      · rename_i hrun
        exact fun _ => hrun.2
      · simp
  | exitWrite id now written =>
    obtain ⟨hr, rfl⟩ : host.reader id = some .exiting ∧
        (failRun host written id "agent_process_exited" "Pi process exited before settling"
          now).setReader id none = host' := by
      simpa [machine, step] using h
    exact hk.readerFails (by simp [hr]) (by simp) (by simp)
  | restart now =>
    obtain rfl : start host.rows now = host' := by simpa [machine, step] using h
    exact lifecycle_start

theorem lifecycle_run {C : Host → RunStep → Prop} (h : machine.Path C host as host')
    (hi : ∀ k, host.Lifecycle k) : ∀ k, host'.Lifecycle k :=
  h.invariant (I := fun host => ∀ k, host.Lifecycle k)
    (fun _ _ _ hi _ h => lifecycle_step hi h) hi

/-- Every final status of the first host is the status of the run in the second. -/
def KeepsFinal (host host' : Host) : Prop :=
  ∀ id status, host.status id = some status → status.isActive = false →
    host'.status id = some status

theorem KeepsFinal.of_status (h : ∀ id, host'.status id = host.status id) :
    host.KeepsFinal host' := fun id _ hs _ => (h id).trans hs

theorem KeepsFinal.trans {host'' : Host} (h : host.KeepsFinal host')
    (h' : host'.KeepsFinal host'') : host.KeepsFinal host'' :=
  fun id status hs hf => h' id status (h id status hs hf) hf

/-- A write keeps the final statuses exactly if it finds no other one. -/
theorem keepsFinal_updateRunStatus {written : Bool} {new : RunStatus} {error : Option RunError}
    {now : String} : host.KeepsFinal (updateRunStatus host written id new error now) ↔
      (written = true → ∀ old, host.status id = some old → old.isActive = false → old = new) := by
  constructor
  · rintro h rfl old hs hf
    have hnew := h id old hs hf
    rw [status_updateRunStatus] at hnew
    simpa [hs, eq_comm] using hnew
  · intro h k status hs hf
    rw [status_updateRunStatus]
    by_cases hk : written = true ∧ k = id
    · obtain ⟨hw, rfl⟩ := hk
      obtain rfl := h hw status hs hf
      simp [hs]
    · rw [if_neg hk]
      exact hs

/-- The writes that look at no status find their run active, or with the status they write: a
prompt fails and a process settles or exits before the run is cancelled, a prompt is rejected
before the run is cancelled or completed, and a cancel is recorded before the run has ended. -/
def Timely (host : Host) : RunStep → Prop
  | .promptFails id _ written => written = true → host.status id ≠ some .cancelled
  | .cancelWrite handler _ written => written = true → ∀ id c, host.cancel handler = some (id, c) →
      host.status id ≠ some .completed ∧ host.status id ≠ some .failed
  | .line id value _ written => written = true →
      match classify value with
      | .settled => host.status id ≠ some .cancelled
      | .promptRejected _ =>
        host.status id ≠ some .completed ∧ host.status id ≠ some .cancelled
      | .other => True
  | .exitWrite id _ written => written = true → host.status id ≠ some .cancelled
  | _ => True

theorem keepsFinal_start {now : String} : host.KeepsFinal (start host.rows now) := by
  intro id status hs hf
  obtain ⟨row, hrow, rfl⟩ := Option.map_eq_some_iff.mp hs
  rw [status_start, hrow]
  simp [hf]

/-- One step from a host whose phases are in order keeps the final statuses exactly if it is
timely. -/
theorem keepsFinal_step (hi : ∀ k, host.Lifecycle k) (h : machine.step host a = some host') :
    host.KeepsFinal host' ↔ host.Timely a := by
  cases a with
  | createRun id agentId =>
    obtain ⟨⟨fresh, -⟩, rfl⟩ : (host.status id = none ∧ host.agentBusy agentId = false) ∧
        (host.pushRow ⟨id, agentId, .running, none, none⟩).setLaunch id (some .admitted) = host' :=
      by simpa [machine, step] using h
    refine iff_of_true ?_ trivial
    intro k status hs _
    have hk : k ≠ id := by
      rintro rfl
      simp [fresh] at hs
    rw [status_setLaunch, status_pushRow _ fresh, if_neg hk]
    exact hs
  | launchReturns id =>
    obtain ⟨-, rfl⟩ : host.launch id ≠ none ∧ host.setLaunch id none = host' := by
      simpa [machine, step] using h
    exact iff_of_true (.of_status fun _ => rfl) trivial
  | launchFails id message now written =>
    obtain ⟨hl, rfl⟩ : host.launch id = some .admitted ∧
        (failRun host written id "agent_start_failed" message now).setLaunch id none = host' := by
      simpa [machine, step] using h
    refine iff_of_true ?_ trivial
    have hkeep : host.KeepsFinal (failRun host written id "agent_start_failed" message now) := by
      apply keepsFinal_updateRunStatus.mpr
      intro _ old hs hf
      rw [((hi id).admitted hl).1] at hs
      obtain rfl := Option.some.inj hs
      cases hf
    exact hkeep.trans (.of_status fun _ => rfl)
  | attach id =>
    obtain ⟨-, rfl⟩ : host.launch id = some .admitted ∧
        (host.activate id).setLaunch id (some .attached) = host' := by
      simpa [machine, step] using h
    exact iff_of_true (.of_status fun _ => rfl) trivial
  | promptSent id =>
    obtain ⟨-, rfl⟩ : host.launch id = some .attached ∧
        (host.setLaunch id none).setReader id (some .reading) = host' := by
      simpa [machine, step] using h
    exact iff_of_true (.of_status fun _ => rfl) trivial
  | promptFails id now written =>
    obtain ⟨hl, rfl⟩ : host.launch id = some .attached ∧
        (failRun host written id "agent_start_failed" "Could not send prompt to Pi"
          now).setLaunch id none = host' := by
      simpa [machine, step] using h
    refine keepsFinal_updateRunStatus.trans ?_
    rcases (hi id).attached hl with hs | hs <;> simp [Timely, hs, RunStatus.isActive]
  | cancelFind handler id =>
    obtain ⟨-, rfl⟩ : (host.cancel handler = none ∧
        (host.status id).any RunStatus.isActive = true) ∧
        host.setCancel handler (some (id, .checked)) = host' := by
      simpa [machine, step] using h
    exact iff_of_true (.of_status fun _ => rfl) trivial
  | cancelLookup handler =>
    rcases hc : host.cancel handler with _ | ⟨id, _ | _ | _⟩ <;>
      simp only [machine, step, hc, reduceCtorEq, Option.some.injEq] at h
    subst h
    exact iff_of_true (.of_status fun _ => rfl) trivial
  | cancelAbort handler sent =>
    rcases hc : host.cancel handler with _ | ⟨id, _ | _ | _⟩ <;>
      simp only [machine, step, hc, reduceCtorEq, Option.some.injEq] at h
    subst h
    exact iff_of_true (.of_status fun _ => rfl) trivial
  | cancelWrite handler now written =>
    rcases hc : host.cancel handler with _ | ⟨id, _ | _ | _⟩ <;>
      simp only [machine, step, hc, reduceCtorEq, Option.some.injEq] at h
    subst h
    refine keepsFinal_updateRunStatus.trans ?_
    have hq := (hi id).never_queued
    cases hs : host.status id with
    | none => simp [Timely, hc, hs]
    | some old => cases old <;> simp_all [Timely, RunStatus.isActive]
  | line id value now written =>
    by_cases hr : host.reader id = some .reading
    · have hnf := (hi id).reading hr
      have hq := (hi id).never_queued
      cases hv : classify value with
      | settled =>
        obtain rfl : completeRun host written id now = host' := by
          simpa [machine, step, hr, hv] using h
        refine keepsFinal_updateRunStatus.trans ?_
        cases hs : host.status id with
        | none => simp [Timely, hv, hs]
        | some old => cases old <;> simp_all [Timely, RunStatus.isActive]
      | promptRejected message =>
        obtain rfl : (failRun host written id "agent_start_failed" message now).setReader id
            (some .leaving) = host' := by
          simpa [machine, step, hr, hv] using h
        refine keepsFinal_updateRunStatus.trans ?_
        cases hs : host.status id with
        | none => simp [Timely, hv, hs]
        | some old => cases old <;> simp_all [Timely, RunStatus.isActive]
      | other =>
        obtain rfl : host = host' := by simpa [machine, step, hr, hv] using h
        exact iff_of_true (.of_status fun _ => rfl) (by simp [Timely, hv])
    · simp [machine, step, hr] at h
  | endOfOutput id =>
    obtain ⟨-, rfl⟩ : host.reader id = some .reading ∧ host.setReader id (some .leaving) = host' :=
      by simpa [machine, step] using h
    exact iff_of_true (.of_status fun _ => rfl) trivial
  | detach id =>
    obtain ⟨-, rfl⟩ : host.reader id = some .leaving ∧
        (host.deactivate id).setReader id (some .waiting) = host' := by
      simpa [machine, step] using h
    exact iff_of_true (.of_status fun _ => rfl) trivial
  | checkExit id found =>
    obtain ⟨-, rfl⟩ : host.reader id = some .waiting ∧ host.setReader id
        (if found = true ∧ host.status id = some .running then some .exiting else none) = host' :=
      by simpa [machine, step] using h
    exact iff_of_true (.of_status fun _ => rfl) trivial
  | exitWrite id now written =>
    obtain ⟨hr, rfl⟩ : host.reader id = some .exiting ∧
        (failRun host written id "agent_process_exited" "Pi process exited before settling"
          now).setReader id none = host' := by
      simpa [machine, step] using h
    refine keepsFinal_updateRunStatus.trans ?_
    rcases (hi id).exiting hr with hs | hs <;> simp [Timely, hs, RunStatus.isActive]
  | restart now =>
    obtain rfl : start host.rows now = host' := by simpa [machine, step] using h
    exact iff_of_true keepsFinal_start trivial

/-- Final statuses stay in every run of timely steps, and in any reachable host a step changes one
exactly if it is not timely. -/
theorem final_statuses_timely (rows : List RunRow) (now : String) :
    (∀ as host bs host', machine.Path Timely (start rows now) as host →
      machine.Path Timely host bs host' → host.KeepsFinal host') ∧
    ∀ as host a host', machine.Run (start rows now) as host →
      machine.step host a = some host' → (host.KeepsFinal host' ↔ host.Timely a) := by
  constructor
  · intro as host bs host' hrun hrest
    have hi := lifecycle_run hrun fun _ => lifecycle_start
    refine hrest.monotone (I := fun host => ∀ k, host.Lifecycle k)
      (fun _ => .of_status fun _ => rfl) (fun _ _ _ => KeepsFinal.trans) ?_ ?_ hi
    · exact fun _ _ _ hi _ h => lifecycle_step hi h
    · exact fun _ _ _ hi hg h => (keepsFinal_step hi h).mpr hg
  · intro as host a host' hrun h
    exact keepsFinal_step (lifecycle_run hrun fun _ => lifecycle_start) h

/-- A run that is cancelled before its process settles ends completed. -/
theorem settled_after_cancel :
    ((machine.exec (fun _ _ => True) (start [] "0")
        [.createRun "r" "a", .attach "r", .promptSent "r", .cancelFind 0 "r", .cancelLookup 0,
          .cancelAbort 0 true, .cancelWrite 0 "1" true]).bind fun cancelled =>
      (machine.exec (fun _ _ => True) cancelled
        [.line "r" (.object [("type", .string "agent_settled")]) "2" true]).map fun settled =>
      (cancelled.status "r", settled.status "r")) =
        some (some .cancelled, some .completed) := by decide +kernel

end Host
end PiDeck.Agents
