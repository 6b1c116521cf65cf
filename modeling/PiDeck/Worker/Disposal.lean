import Mathlib
import PiDeck.Worker.View

/-! What a disposed terminal leaves at the worker. `dispose` queues a command for the worker and then
releases the channel, which cancels the queue before the microtask that would serve it, so the
command never arrives and nothing but a replacement of the worker removes the runtime. -/
namespace PiDeck.Worker
open PiDeck.Collections PiDeck.Transition FairWorkerScheduler

variable {θ : Type*}

namespace View
variable {v v' : View θ}

/-- The worker has nothing of the terminal, and no command to create it. -/
structure Clear (v : View θ) : Prop where
  entry : v.entry = none
  creating : v.creating = []
  posted : ∀ command ∈ v.posted, ∀ settings, command.payload ≠ .create settings

/-- And nothing waits for it. -/
structure Released (v : View θ) : Prop extends Clear v where
  waiting : v.waiting = []

theorem Released.works (h : v.Released) (hw : Works v v') : v'.Released := by
  cases hw with
  | idle => exact h
  | serve command rest waiting =>
    rw [h.waiting] at waiting
    cases waiting
  | begin generation sequence settings rest posted =>
    have hfirst := h.posted ⟨generation, sequence, .create settings⟩ (posted ▸ List.mem_cons_self)
    exact absurd rfl (hfirst settings)
  | ignore command rest posted =>
    refine ⟨⟨h.entry, h.creating, fun c hc => ?_⟩, h.waiting⟩
    exact h.posted c (posted ▸ List.mem_cons_of_mem _ hc)
  | run command rest entry after kind posted later found =>
    rw [h.entry] at found
    cases found
  | created creation index after kinds under =>
    rw [h.creating] at under
    cases under

end View

namespace Slot
variable {slot s t : Slot θ} {id : String} {core old : WorkerTerminalCore θ} {payload : Payload θ}
  {a : SlotStep θ} {as : List (SlotStep θ)}

/-- Nothing is queued, in flight or on its way. -/
structure Quiescent (slot : Slot θ) : Prop where
  queued : ∀ id, slot.scheduler.waiting id = []
  inFlight : ∀ id, slot.scheduler.flight id = none
  inbox : slot.worker.inbox = []
  creating : ∀ id, slot.worker.creating id = []
  outbox : slot.worker.outbox = []

/-- The worker has no runtime of a terminal that is disposed. -/
def NoneLeft (slot : Slot θ) : Prop :=
  ∀ id core, slot.core id = some core → core.disposed = true → slot.worker.runtimes id = none

/-- A terminal is disposed only while the worker has nothing of it. -/
def DisposesClear (slot : Slot θ) : SlotStep θ → Prop
  | .initializationTimeout id | .call id (.dispose _) =>
    ∀ core, slot.core id = some core → core.disposed = false → (slot.view id).Clear
  | .deliver => ∀ id event rest core, slot.worker.outbox = (id, event) :: rest →
    event.kind.failed = true → slot.core id = some core → core.disposed = false →
    core.initializationReject = true → (slot.view id).Clear
  | _ => True

structure Tidy (slot : Slot θ) : Prop where
  keyed : slot.Keyed
  keys : (slot.cores.map Prod.fst).Nodup
  released : ∀ id core, slot.core id = some core → core.disposed = true →
    (slot.view id).Released

theorem Tidy.noneLeft (h : slot.Tidy) : slot.NoneLeft :=
  fun id core hcore hdisposed => (h.released id core hcore hdisposed).entry

theorem tidy_start : (start : Slot θ).Tidy := by
  refine ⟨keyedBy_empty, .nil, fun id core h => ?_⟩
  cases h

theorem clear_of_worker (h : t.worker = s.worker) (hc : (s.view id).Clear) : (t.view id).Clear := by
  obtain ⟨he, hcr, hp⟩ := hc
  have hentry : (t.view id).entry = (s.view id).entry := by
    unfold view
    rw [h]
  have hcreating : (t.view id).creating = (s.view id).creating := by
    unfold view
    rw [h]
  have hposted : (t.view id).posted = (s.view id).posted := by
    unfold view
    rw [h]
  refine ⟨hentry.trans he, hcreating.trans hcr, ?_⟩
  rw [hposted]
  exact hp

/-- A function of the main thread keeps what is disposed released, if what it disposes is clear. -/
theorem Tidy.framed (h : s.Tidy) (hf : Framed id s t)
    (hd : ∀ core, t.core id = some core → core.disposed = true →
      (s.view id).Clear ∧ (t.view id).waiting = []) : t.Tidy := by
  refine ⟨hf.keyed h.keyed, hf.keys ▸ h.keys, fun k core hcore hdisposed => ?_⟩
  by_cases hk : k = id
  · subst hk
    obtain ⟨hclear, hwaiting⟩ := hd core hcore hdisposed
    exact ⟨clear_of_worker hf.worker hclear, hwaiting⟩
  · have hview := hf.others k hk
    rw [hview]
    exact h.released k core ((core_of_view hview).symm.trans hcore) hdisposed

theorem Tidy.setCore (h : s.Tidy) (hcore : s.core id = some old)
    (hd : core.disposed = old.disposed) : (s.setCore id core).Tidy := by
  apply h.framed (framed_setCore s id core)
  intro new hnew hdisposed
  have hview := view_setCore core hcore
  obtain rfl := Option.some.inj ((core_of_view hview).symm.trans hnew)
  have hreleased := h.released id old hcore (hd.symm.trans hdisposed)
  exact ⟨hreleased.toClear, (congrArg View.waiting hview).trans hreleased.waiting⟩

theorem Tidy.send (h : s.Tidy) (hcore : s.core id = some old) (hd : core.disposed = false) :
    (s.send id core payload).1.Tidy := by
  apply h.framed (framed_send s id core payload)
  intro new hnew hdisposed
  obtain rfl := Option.some.inj ((core_of_view (send_view _ _ hcore)).symm.trans hnew)
  rw [hd] at hdisposed
  cases hdisposed

theorem Tidy.command (h : s.Tidy) (hcore : s.core id = some old)
    (hd : core.disposed = old.disposed) : (s.command id core payload).1.Tidy := by
  cases hidle : core.disposed || core.recovering with
  | true =>
    rw [command_idle hidle]
    exact h.setCore hcore hd
  | false =>
    rw [command_active hidle]
    exact h.send hcore (Bool.or_eq_false_iff.mp hidle).1

theorem Tidy.release (h : s.Tidy) (hcore : s.core id = some old) (hclear : (s.view id).Clear) :
    (s.release id core).Tidy := by
  apply h.framed (framed_release s id core)
  intro new _ _
  exact ⟨hclear, congrArg View.waiting (release_view core hcore)⟩

theorem Tidy.commands {payloads : List (Payload θ)} (h : s.Tidy) :
    (s.commands id payloads).1.Tidy := by
  induction payloads generalizing s with
  | nil => exact h
  | cons payload payloads ih =>
    unfold Slot.commands
    split
    · exact h
    · rename_i core hcore
      dsimp only
      split
      · exact ih (h.command hcore rfl)
      · exact h.command hcore rfl

theorem Tidy.dispose {updates : List ℕ} (h : s.Tidy) (hcore : s.core id = some core)
    (hclear : core.disposed = false → (s.view id).Clear) : (s.dispose id updates).1.Tidy := by
  rcases dispose_cases updates hcore with
    ⟨-, hd⟩ | ⟨hactive, sent, ok, new, hsent, hnew, -, ⟨-, hd⟩ | ⟨-, hd⟩⟩ <;> rw [hd]
  · exact h
  · have hframe := framed_commands s id (updates.map .other ++ [.dispose])
    have hkept : (s.commands id (updates.map .other ++ [.dispose])).1.Tidy := h.commands
    rw [hsent] at hframe hkept
    exact hkept.release hnew (clear_of_worker hframe.worker (hclear hactive))
  · have hkept : (s.commands id (updates.map .other ++ [.dispose])).1.Tidy := h.commands
    rw [hsent] at hkept
    exact hkept

theorem Tidy.call {call : SurfaceCall θ} (h : s.Tidy) (hcore : s.core id = some core)
    (hg : DisposesClear s (.call id call)) : (s.call id core call).1.Tidy := by
  cases call with
  | resize geometry => exact h.command hcore rfl
  | setTheme theme => exact h.command hcore rfl
  | setPresentationState presentation =>
    dsimp only [Slot.call]
    split
    · exact h.setCore hcore rfl
    · exact h.command hcore rfl
  | other bytes => exact h.command hcore rfl
  | dispose updates => exact h.dispose hcore (hg core hcore)

theorem Tidy.fail (h : s.Tidy) (hcore : s.core id = some old) (hd : core.disposed = old.disposed)
    (hclear : core.disposed = false → core.initializationReject = true → (s.view id).Clear) :
    (s.fail id core).1.Tidy := by
  rcases fail_cases s id core with ⟨-, hf⟩ | ⟨hactive, -, hreject, hf⟩ | ⟨hactive, -, -, hf⟩ <;> rw [hf]
  · exact h.setCore hcore hd
  · exact h.release hcore (hclear hactive hreject)
  · exact h.send hcore hactive

/-- Only `ready` is heard before the core looks at an event. -/
theorem heard_eq (core : WorkerTerminalCore θ) (event : Event) :
    (heard core event).disposed = core.disposed ∧
      (event.kind ≠ .ready → heard core event = core) := by
  unfold heard
  split
  · rename_i hready
    refine ⟨?_, fun h => absurd hready h⟩
    split
    · rfl
    · split <;> rfl
    · rfl
  · exact ⟨rfl, fun _ => rfl⟩

theorem Tidy.receive {event : Event} (h : s.Tidy) (hcore : s.core id = some core)
    (hclear : event.kind.failed = true → core.initializationReject = true → (s.view id).Clear) :
    (s.receive id core event).Tidy := by
  obtain ⟨hkept, hsame⟩ := heard_eq core event
  unfold Slot.receive
  dsimp only
  split
  · exact h.setCore hcore hkept
  · split
    · rename_i hfailed
      have hready : event.kind ≠ .ready := by
        intro he
        rw [he] at hfailed
        cases hfailed
      refine h.fail hcore hkept fun _ hreject => hclear hfailed ?_
      rw [hsame hready] at hreject
      exact hreject
    · exact h.setCore hcore hkept

theorem Tidy.opened {event : Event} (h : s.Tidy) (ho : Opened s t id event) : t.Tidy := by
  obtain ⟨outbox, hworker⟩ := ho.worker
  have hcores : ∀ k, t.core k = s.core k := fun _ => core_of_cores ho.cores
  refine ⟨ho.keyed h.keyed, ho.cores ▸ h.keys, fun k core hcore hdisposed => ?_⟩
  rw [hcores] at hcore
  have hreleased := h.released k core hcore hdisposed
  by_cases hk : k = id
  · subst hk
    rw [ho.view]
    exact ⟨⟨hreleased.entry, hreleased.creating, hreleased.posted⟩, hreleased.waiting⟩
  · rw [ho.others k hk]
    exact hreleased

theorem Tidy.deliver (h : s.Tidy) (hg : DisposesClear s .deliver) (hs : s.deliver = some t) :
    t.Tidy := by
  obtain ⟨id, event, rest, opened, houtbox, ho, ⟨-, rfl⟩ | ⟨core, hcore, hactive, rfl⟩⟩ :=
    deliver_cases hs
  · exact h.opened ho
  · have hopen : opened.core id = some core := (core_of_cores ho.cores).trans hcore
    apply (h.opened ho).receive hopen
    intro hfailed hreject
    have hclear := hg id event rest core houtbox hfailed hcore hactive hreject
    rw [ho.view]
    exact ⟨hclear.entry, hclear.creating, hclear.posted⟩

theorem Tidy.workerFailed (h : s.Tidy) : s.workerFailed.Tidy := by
  obtain ⟨hworker, hkeys, hkeyed⟩ := workerFailed_frame s
  refine ⟨hkeyed, hkeys.symm ▸ h.keys, fun k core hcore hdisposed => ?_⟩
  have hfresh : (s.replaced.view k).Released := ⟨⟨rfl, rfl, fun _ h => nomatch h⟩, rfl⟩
  refine ⟨clear_of_worker (s := s.replaced) hworker hfresh.toClear, ?_⟩
  rcases workerFailed_view h.keys k with ⟨hview, -⟩ | ⟨old, before, hold, hactive, hbefore, -, hview⟩
  · rw [hview]
    exact hfresh.waiting
  · have hbcore : before.core k = some old := (core_of_view hbefore).trans hold
    rw [hview]
    rcases fail_cases before k old with ⟨-, hf⟩ | ⟨-, -, -, hf⟩ | ⟨-, -, -, hf⟩
    · rw [hf, view_setCore _ hbcore, hbefore]
      rfl
    · rw [hf]
      exact congrArg View.waiting (release_view _ hbcore)
    · have hnew := core_of_view hview
      rw [hf, hcore] at hnew
      obtain rfl := Option.some.inj (hnew.trans (core_of_view (send_view _ _ hbcore)))
      rw [hactive] at hdisposed
      cases hdisposed

theorem Tidy.create {options : Settings θ} (h : s.Tidy) (fresh : s.core id = none) :
    (s.create id options).Tidy := by
  obtain ⟨hkeys, hkeyed, hothers, ok, -, hview⟩ := create_frame options fresh
  refine ⟨hkeyed h.keyed, ?_, fun k core hcore hdisposed => ?_⟩
  · rw [hkeys, List.nodup_append]
    refine ⟨h.keys, List.nodup_singleton _, ?_⟩
    rintro a ha b hb rfl
    obtain rfl := List.mem_singleton.mp hb
    obtain ⟨row, hrow, hid⟩ := List.mem_map.mp ha
    exact findRow_eq_none.mp (Option.map_eq_none_iff.mp fresh) row hrow hid
  · by_cases hk : k = id
    · subst hk
      obtain rfl := Option.some.inj ((core_of_view hview).symm.trans hcore)
      cases hdisposed
    · rw [hothers k hk]
      exact h.released k core ((core_of_view (hothers k hk)).symm.trans hcore) hdisposed

theorem Tidy.works (h : s.Tidy) (hkeyed : t.Keyed) (hcores : t.cores = s.cores)
    (hw : ∀ k, Works (s.view k) (t.view k)) : t.Tidy := by
  refine ⟨hkeyed, hcores ▸ h.keys, fun k core hcore hdisposed => ?_⟩
  have hsame : t.core k = s.core k := core_of_cores hcores
  exact (h.released k core (hsame.symm.trans hcore) hdisposed).works (hw k)

theorem tidy_step (h : s.Tidy) (hg : DisposesClear s a) (hs : machine.step s a = some t) :
    t.Tidy := by
  cases a with
  | create id options =>
    dsimp only [machine, step] at hs
    split at hs
    · rename_i fresh
      obtain rfl := Option.some.inj hs
      exact h.create fresh
    · cases hs
  | initializationTimeout id =>
    dsimp only [machine, step] at hs
    split at hs
    · rename_i core hcore
      split at hs
      · obtain rfl := Option.some.inj hs
        have hset := view_setCore { core with initializationReject := false } hcore
        have hkept : (s.setCore id { core with initializationReject := false }).Tidy :=
          h.setCore hcore rfl
        apply hkept.dispose (core_of_view hset)
        intro hactive
        exact clear_of_worker (framed_setCore s id _).worker (hg core hcore hactive)
      · cases hs
    · cases hs
  | call id call =>
    dsimp only [machine, step] at hs
    split at hs
    · rename_i core hcore
      split at hs
      · cases hs
      · obtain rfl := Option.some.inj hs
        exact h.call hcore hg
    · cases hs
  | microtask =>
    obtain ⟨hkeyed, hcores, hw⟩ := works_of_step h.keyed (.inl rfl) hs
    exact h.works hkeyed hcores hw
  | deliver => exact h.deliver hg hs
  | handle outcome =>
    obtain ⟨hkeyed, hcores, hw⟩ := works_of_step h.keyed (.inr (.inl ⟨_, rfl⟩)) hs
    exact h.works hkeyed hcores hw
  | created id index outcome =>
    obtain ⟨hkeyed, hcores, hw⟩ := works_of_step h.keyed (.inr (.inr ⟨_, _, _, rfl⟩)) hs
    exact h.works hkeyed hcores hw
  | workerFailed =>
    obtain rfl := Option.some.inj hs
    exact h.workerFailed

end Slot
end PiDeck.Worker
