import Mathlib
import PiDeck.Worker.Slot

/-! A slot as one of its terminals sees it. A step of the worker changes such a view in one of a few
ways, and a function of the main thread changes the view of its own terminal only. -/
namespace PiDeck.Worker
open PiDeck.Collections PiDeck.Transition FairWorkerScheduler

variable {θ : Type*}

@[ext] structure View (θ : Type*) where
  core : Option (WorkerTerminalCore θ)
  waiting : List (Command θ)
  flight : Option CommandKey
  posted : List (Command θ)
  creating : List (Creation θ)
  entry : Option (RuntimeEntry θ)
  events : List Event

/-- What is addressed to one terminal. -/
def addressed {α : Type*} (messages : List (String × α)) (id : String) : List α :=
  (messages.filter fun message => message.1 = id).map Prod.snd

section Addressed
variable {α : Type*} {messages : List (String × α)} {id k : String} {a : α}

theorem addressed_append (messages messages' : List (String × α)) (id : String) :
    addressed (messages ++ messages') id = addressed messages id ++ addressed messages' id := by
  simp [addressed]

theorem addressed_cons :
    addressed ((id, a) :: messages) k =
      if k = id then a :: addressed messages k else addressed messages k := by
  unfold addressed
  by_cases hk : k = id
  · simp [hk]
  · simp [hk, Ne.symm hk]

theorem addressed_map {β : Type*} (f : β → α) (values : List β) :
    addressed (values.map fun value => (id, f value)) k =
      if k = id then values.map f else [] := by
  induction values with
  | nil => simp [addressed]
  | cons value values ih =>
    rw [List.map_cons, addressed_cons, ih]
    split <;> rfl

end Addressed

namespace Slot
variable {slot t : Slot θ} {id k : String} {core old : WorkerTerminalCore θ} {payload : Payload θ}

def view (slot : Slot θ) (id : String) : View θ where
  core := slot.core id
  waiting := slot.scheduler.waiting id
  flight := slot.scheduler.flight id
  posted := addressed slot.worker.inbox id
  creating := slot.worker.creating id
  entry := slot.worker.runtimes id
  events := addressed slot.worker.outbox id

theorem core_setCore (slot : Slot θ) (id k : String) (core : WorkerTerminalCore θ) :
    (slot.setCore id core).core k =
    if k = id then (slot.core id).map fun _ => core else slot.core k := by
  unfold Slot.core setCore
  rw [findRow_modifyRow (by intro _ h; exact h)]
  split <;> simp [Function.comp_def]

theorem view_setCore (core : WorkerTerminalCore θ) (h : slot.core id = some old) :
    (slot.setCore id core).view id = { slot.view id with core := some core } := by
  have hcore : (slot.setCore id core).core id = some core := by
    rw [core_setCore, if_pos rfl, h]
    rfl
  ext1 <;> first | exact hcore | rfl

/-- The scheduler has room for a command. -/
def HasRoom (slot : Slot θ) (payload : Payload θ) : Prop :=
  slot.scheduler.bytes + max 1 payload.workerCommandBytes ≤ maxBytes ∧
    slot.scheduler.commands + 1 ≤ maxCommands

/-- Every command waits under its key. -/
def Keyed (slot : Slot θ) : Prop := slot.scheduler.KeyedBy Command.key

theorem view_scheduler (slot : Slot θ) {scheduler : FairWorkerScheduler CommandKey (Command θ)}
    {priorities : String → Option WorkerPriority}
    (hw : scheduler.waiting k = slot.scheduler.waiting k)
    (hf : scheduler.flight k = slot.scheduler.flight k) :
    ({ slot with scheduler, priorities } : Slot θ).view k = slot.view k := by
  ext1 <;> first | rfl | exact hw | exact hf

theorem prioritize_eq (slot : Slot θ) (id : String) (payload : Payload θ) :
    slot.prioritize id payload = slot ∨
      ∃ priority, slot.prioritize id payload = slot.setPriority id priority := by
  cases payload with
  | create settings => exact .inr ⟨_, rfl⟩
  | setPresentationState presentation => exact .inr ⟨_, rfl⟩
  | _ => exact .inl rfl

theorem prioritize_view (slot : Slot θ) (id k : String) (payload : Payload θ) :
    (slot.prioritize id payload).view k = slot.view k := by
  rcases prioritize_eq slot id payload with h | ⟨priority, h⟩
  · rw [h]
  · rw [h]
    exact view_scheduler slot setPriority_waiting.1 setPriority_flight

theorem Keyed.prioritize (h : slot.Keyed) : (slot.prioritize id payload).Keyed := by
  rcases prioritize_eq slot id payload with he | ⟨priority, he⟩ <;> rw [he]
  · exact h
  · exact KeyedBy.setPriority h

theorem prioritize_load (slot : Slot θ) (id : String) (payload : Payload θ) :
    (slot.prioritize id payload).scheduler.bytes = slot.scheduler.bytes ∧
    (slot.prioritize id payload).scheduler.commands = slot.scheduler.commands := by
  rcases prioritize_eq slot id payload with h | ⟨priority, h⟩ <;> rw [h]
  · exact ⟨rfl, rfl⟩
  · unfold setPriority FairWorkerScheduler.setPriority
    dsimp only
    split <;> exact ⟨rfl, rfl⟩

section Post
variable {command : Command θ}

/-- What a channel does with a command: the scheduler takes it, or is full. -/
theorem post_cases (slot : Slot θ) (id : String) (command : Command θ) :
    (∃ priority scheduler, (slot.prioritize id command.payload).scheduler.enqueue id command
        command.payload.workerCommandBytes priority command.key = some scheduler ∧
      slot.post id command = ({ slot.prioritize id command.payload with scheduler }, true)) ∨
    (∃ priority, (slot.prioritize id command.payload).scheduler.enqueue id command
        command.payload.workerCommandBytes priority command.key = none ∧
      slot.post id command = (slot.prioritize id command.payload, false)) := by
  unfold post
  dsimp only
  split
  · rename_i scheduler h
    exact .inl ⟨_, scheduler, h, rfl⟩
  · rename_i h
    exact .inr ⟨_, h, rfl⟩

theorem post_view (slot : Slot θ) (id k : String) (command : Command θ) :
    (slot.post id command).1.view k =
      if k = id ∧ (slot.post id command).2 = true then { slot.view k with waiting := (slot.view k).waiting ++ [command] }
      else slot.view k := by
  rcases post_cases slot id command with ⟨priority, scheduler, he, h⟩ | ⟨priority, he, h⟩ <;> rw [h]
  · obtain ⟨hw, -⟩ := enqueue_waiting he
    have hflight := enqueue_flight he k
    by_cases hk : k = id
    · subst hk
      rw [if_pos ⟨rfl, rfl⟩, ← prioritize_view slot k k command.payload]
      ext1 <;> first | rfl | exact hw | exact hflight
    · rw [if_neg fun h => hk h.1, ← prioritize_view slot id k command.payload]
      exact view_scheduler _ (waiting_congr (lane_enqueue he hk)) hflight
  · rw [if_neg (by simp)]
    exact prioritize_view slot id k command.payload

theorem Keyed.post (h : slot.Keyed) : (slot.post id command).1.Keyed := by
  rcases post_cases slot id command with ⟨priority, scheduler, he, hp⟩ | ⟨priority, he, hp⟩ <;> rw [hp]
  · exact KeyedBy.enqueue h.prioritize he
  · exact h.prioritize

theorem post_room (id : String) (command : Command θ) (h : slot.HasRoom command.payload) : (slot.post id command).2 = true := by
  rcases post_cases slot id command with ⟨priority, scheduler, he, hp⟩ | ⟨priority, he, hp⟩ <;> rw [hp]
  obtain ⟨hb, hc⟩ := prioritize_load slot id command.payload
  obtain ⟨hbytes, hcommands⟩ := h
  dsimp only [enqueue] at he
  split_ifs at he with hfull
  rw [hb, hc] at hfull
  push_cast at hfull hbytes
  omega

end Post

theorem core_of_cores (h : t.cores = slot.cores) : t.core k = slot.core k := by
  unfold Slot.core
  rw [h]

theorem mem_cores (h : slot.core id = some core) : (id, core) ∈ slot.cores := by
  obtain ⟨row, hrow, rfl⟩ := Option.map_eq_some_iff.mp h
  obtain rfl := findRow_key hrow
  exact findRow_mem hrow

theorem core_of_view {view : View θ} (h : slot.view id = view) : slot.core id = view.core :=
  congrArg View.core h

/-- A function of the main thread works on one terminal. -/
structure Framed (id : String) (s t : Slot θ) : Prop where
  worker : t.worker = s.worker
  keys : t.cores.map Prod.fst = s.cores.map Prod.fst
  others : ∀ k, k ≠ id → t.view k = s.view k
  keyed : s.Keyed → t.Keyed

theorem Framed.refl (id : String) (s : Slot θ) : Framed id s s :=
  ⟨rfl, rfl, fun _ _ => rfl, fun h => h⟩

theorem Framed.trans {s t u : Slot θ} (h : Framed id s t) (h' : Framed id t u) : Framed id s u :=
  ⟨h'.worker.trans h.worker, h'.keys.trans h.keys,
    fun k hk => (h'.others k hk).trans (h.others k hk), fun hs => h'.keyed (h.keyed hs)⟩

theorem framed_setCore (slot : Slot θ) (id : String) (core : WorkerTerminalCore θ) :
    Framed id slot (slot.setCore id core) := by
  refine ⟨rfl, map_key_modifyRow (by intro _ h; exact h), fun k hk => ?_, fun h => h⟩
  have hcore := core_setCore slot id k core
  rw [if_neg hk] at hcore
  ext1 <;> first | exact hcore | rfl

theorem framed_post (slot : Slot θ) (id : String) (command : Command θ) :
    Framed id slot (slot.post id command).1 := by
  have hview := fun k => post_view slot id k command
  have hprior : (slot.prioritize id command.payload).worker = slot.worker ∧
      (slot.prioritize id command.payload).cores = slot.cores := by
    rcases prioritize_eq slot id command.payload with h | ⟨priority, h⟩ <;> rw [h] <;>
      exact ⟨rfl, rfl⟩
  have hends : (slot.post id command).1.worker = slot.worker ∧
      (slot.post id command).1.cores = slot.cores := by
    rcases post_cases slot id command with ⟨priority, scheduler, -, h⟩ | ⟨priority, -, h⟩ <;>
      rw [h] <;> exact hprior
  refine ⟨hends.1, congrArg _ hends.2, fun k hk => ?_, fun h => h.post⟩
  rw [hview, if_neg fun h => hk h.1]

theorem framed_send (slot : Slot θ) (id : String) (core : WorkerTerminalCore θ)
    (payload : Payload θ) : Framed id slot (slot.send id core payload).1 :=
  (framed_setCore _ _ _).trans (framed_post _ _ _)

/-- A core after it has numbered a command, and whether the scheduler took it. -/
theorem send_view (core : WorkerTerminalCore θ) (payload : Payload θ)
    (h : slot.core id = some old) :
    (slot.send id core payload).1.view id =
      { slot.view id with
        core := some { core with sequence := core.sequence + 1 }
        waiting := (slot.view id).waiting ++
          if (slot.send id core payload).2 then
            [⟨core.generation, core.sequence + 1, payload⟩] else [] } := by
  have hset := view_setCore { core with sequence := core.sequence + 1 } h
  unfold send
  dsimp only
  rw [post_view, hset]
  cases (post (slot.setCore id { core with sequence := core.sequence + 1 }) id
    ⟨core.generation, core.sequence + 1, payload⟩).2 <;> simp

theorem send_room (id : String) (core : WorkerTerminalCore θ) (h : slot.HasRoom payload) :
    (slot.send id core payload).2 = true :=
  post_room id ⟨core.generation, core.sequence + 1, payload⟩ h

theorem command_idle (h : (core.disposed || core.recovering) = true) :
    slot.command id core payload = (slot.setCore id core, true) := if_pos h

theorem command_active (h : (core.disposed || core.recovering) = false) :
    slot.command id core payload = slot.send id core payload := by
  unfold command
  rw [h]
  rfl

theorem framed_command (slot : Slot θ) (id : String) (core : WorkerTerminalCore θ)
    (payload : Payload θ) : Framed id slot (slot.command id core payload).1 := by
  unfold command
  split
  · exact framed_setCore _ _ _
  · exact framed_send _ _ _ _

theorem framed_commands (slot : Slot θ) (id : String) (payloads : List (Payload θ)) :
    Framed id slot (slot.commands id payloads).1 := by
  induction payloads generalizing slot with
  | nil => exact .refl id slot
  | cons payload payloads ih =>
    unfold commands
    split
    · exact .refl id slot
    · dsimp only
      split
      · exact (framed_command _ _ _ _).trans (ih _)
      · exact framed_command _ _ _ _

theorem framed_release (slot : Slot θ) (id : String) (core : WorkerTerminalCore θ) :
    Framed id slot (slot.release id core) := by
  have hset := framed_setCore slot id { core with disposed := true }
  refine ⟨rfl, hset.keys, fun k hk => ?_, fun h => KeyedBy.cancel h⟩
  rw [← hset.others k hk]
  have hw := cancel_waiting slot.scheduler id k
  have hf := cancel_flight slot.scheduler id k
  rw [if_neg hk] at hw hf
  exact view_scheduler (slot.setCore id { core with disposed := true }) hw hf

theorem release_view (core : WorkerTerminalCore θ) (h : slot.core id = some old) :
    (slot.release id core).view id =
      { slot.view id with
        core := some { core with disposed := true }
        waiting := []
        flight := none } := by
  have hset := view_setCore { core with disposed := true } h
  have hw := cancel_waiting slot.scheduler id id
  have hf := cancel_flight slot.scheduler id id
  rw [if_pos rfl] at hw hf
  have hcore := congrArg View.core hset
  ext1
  case core => exact hcore
  case waiting => exact hw
  case flight => exact hf
  all_goals rfl

theorem framed_dispose (slot : Slot θ) (id : String) (updates : List ℕ) :
    Framed id slot (slot.dispose id updates).1 := by
  have hsent := framed_commands slot id (updates.map .other ++ [.dispose])
  unfold dispose
  split
  · exact .refl id slot
  · split
    · exact .refl id slot
    · dsimp only
      split
      · split
        · exact hsent
        · exact hsent.trans (framed_release _ _ _)
      · exact hsent

theorem framed_fail (slot : Slot θ) (id : String) (core : WorkerTerminalCore θ) :
    Framed id slot (slot.fail id core).1 := by
  unfold fail
  split
  · exact framed_setCore _ _ _
  · split
    · exact framed_release _ _ _
    · exact framed_send _ _ _ _

theorem framed_receive (slot : Slot θ) (id : String) (core : WorkerTerminalCore θ) (event : Event) :
    Framed id slot (slot.receive id core event) := by
  unfold receive
  dsimp only
  split
  · exact framed_setCore _ _ _
  · split
    · exact framed_fail _ _ _
    · exact framed_setCore _ _ _

/-- The cases of `fail`. -/
theorem fail_cases (slot : Slot θ) (id : String) (core : WorkerTerminalCore θ) :
    (core.disposed || core.recovering) = true ∧
        slot.fail id core = (slot.setCore id core, true) ∨
      core.disposed = false ∧ core.recovering = false ∧ core.initializationReject = true ∧
        slot.fail id core = (slot.release id
          { core with initializationReject := false, readyListener := none }, true) ∨
      core.disposed = false ∧ core.recovering = false ∧ core.initializationReject = false ∧
        slot.fail id core = slot.send id { core with
            recovering := true
            generation := core.generation + 1
            sequence := 0
            lastEventSequence := 0
            readyListener := some .recovery }
          (.create { core.options with presentation := core.presentation }) := by
  unfold fail
  cases hidle : core.disposed || core.recovering with
  | true => exact .inl ⟨rfl, if_pos rfl⟩
  | false =>
    obtain ⟨hd, hr⟩ := Bool.or_eq_false_iff.mp hidle
    cases hreject : core.initializationReject with
    | true => exact .inr (.inl ⟨hd, hr, rfl, rfl⟩)
    | false => exact .inr (.inr ⟨hd, hr, rfl, rfl⟩)

theorem command_core (core : WorkerTerminalCore θ) (payload : Payload θ)
    (h : slot.core id = some old) :
    ∃ new, (slot.command id core payload).1.core id = some new ∧ new.disposed = core.disposed := by
  cases hidle : core.disposed || core.recovering with
  | true =>
    rw [command_idle hidle]
    exact ⟨core, core_of_view (view_setCore _ h), rfl⟩
  | false =>
    rw [command_active hidle]
    exact ⟨_, core_of_view (send_view _ _ h), rfl⟩

theorem commands_core (payloads : List (Payload θ)) (h : slot.core id = some core) :
    ∃ new, (slot.commands id payloads).1.core id = some new ∧ new.disposed = core.disposed := by
  induction payloads generalizing slot core with
  | nil => exact ⟨core, h, rfl⟩
  | cons payload payloads ih =>
    obtain ⟨new, hnew, hdisposed⟩ := command_core core payload h
    unfold commands
    rw [h]
    dsimp only
    split
    · obtain ⟨last, hlast, hd⟩ := ih hnew
      exact ⟨last, hlast, hd.trans hdisposed⟩
    · exact ⟨new, hnew, hdisposed⟩

/-- A core that is not disposed gives back its updates and queues the command, and is released if no
exception stopped that. -/
theorem dispose_cases (updates : List ℕ) (h : slot.core id = some core) :
    core.disposed = true ∧ slot.dispose id updates = (slot, true) ∨
      core.disposed = false ∧ ∃ sent ok new, slot.commands id (updates.map .other ++ [.dispose]) =
        (sent, ok) ∧ sent.core id = some new ∧ new.disposed = false ∧
        (ok = true ∧ slot.dispose id updates = (sent.release id new, true) ∨
          ok = false ∧ slot.dispose id updates = (sent, false)) := by
  obtain ⟨new, hnew, hkept⟩ :=
    commands_core (updates.map .other ++ [.dispose]) h
  cases hd : core.disposed with
  | true => exact .inl ⟨rfl, by simp [dispose, h, hd]⟩
  | false =>
    refine .inr ⟨rfl, _, _, new, rfl, hnew, hkept.trans hd, ?_⟩
    cases hok : (slot.commands id (updates.map .other ++ [.dispose])).2 with
    | true => exact .inl ⟨rfl, by simp [dispose, h, hd, hok, hnew]⟩
    | false =>
      refine .inr ⟨rfl, ?_⟩
      have hend : slot.dispose id updates =
          slot.commands id (updates.map .other ++ [.dispose]) := by
        simp [dispose, h, hd, hok]
      rw [hend]
      exact Prod.ext rfl hok

/-- What the scheduler holds. -/
def Fits (slot : Slot θ) (n : ℕ) : Prop :=
  slot.scheduler.commands + n ≤ maxCommands ∧ slot.scheduler.bytes + 256 * n ≤ maxBytes

theorem Fits.room {n : ℕ} {settings : Settings θ} (h : slot.Fits (n + 1)) :
    slot.HasRoom (.create settings) := by
  obtain ⟨hc, hb⟩ := h
  have hcost : (Payload.create settings).workerCommandBytes = 256 := rfl
  constructor
  · rw [hcost]
    push_cast at hb ⊢
    omega
  · push_cast at hc
    omega

theorem Fits.post (slot : Slot θ) {n : ℕ} {generation sequence : ℕ} {settings : Settings θ}
    (h : slot.Fits (n + 1)) :
    (slot.post id ⟨generation, sequence, .create settings⟩).1.Fits n := by
  obtain ⟨hc, hb⟩ := h
  push_cast at hc hb
  obtain ⟨hbytes, hcommands⟩ :=
    prioritize_load slot id (.create settings)
  rcases post_cases slot id ⟨generation, sequence, .create settings⟩ with
    ⟨priority, scheduler, he, hp⟩ | ⟨priority, he, hp⟩ <;> rw [hp]
  · obtain ⟨found, old, hfound, rfl⟩ := enqueue_cases he
    have hload : found.bytes = slot.scheduler.bytes ∧ found.commands = slot.scheduler.commands := by
      rcases hfound with ⟨rfl, -⟩ | ⟨rfl, -, -⟩ <;> exact ⟨hbytes, hcommands⟩
    have hcost : (Payload.create settings).workerCommandBytes = 256 := rfl
    constructor
    · change found.commands + 1 + n ≤ _
      omega
    · change found.bytes + (max 1 (Payload.create settings).workerCommandBytes : ℕ) + 256 * n ≤ _
      rw [hcost]
      push_cast
      omega
  · constructor
    · rw [hcommands]
      omega
    · rw [hbytes]
      omega

theorem Fits.fail {n : ℕ} (h : slot.Fits (n + 1)) : (slot.fail id core).1.Fits n := by
  have hless : slot.Fits n := by
    obtain ⟨hc, hb⟩ := h
    push_cast at hc hb
    constructor <;> omega
  unfold Slot.fail
  split
  · exact hless
  · split
    · obtain ⟨hc, hb⟩ := hless
      cases hl : slot.scheduler.lane id with
      | none =>
        constructor
        · change (slot.scheduler.cancel id).commands + _ ≤ _
          rwa [cancel_of_none hl]
        · change (slot.scheduler.cancel id).bytes + _ ≤ _
          rwa [cancel_of_none hl]
      | some lane =>
        constructor
        · change (slot.scheduler.cancel id).commands + _ ≤ _
          rw [cancel_of_lane hl]
          change slot.scheduler.commands - lane.queue.length + n ≤ _
          omega
        · change (slot.scheduler.cancel id).bytes + _ ≤ _
          rw [cancel_of_lane hl]
          change slot.scheduler.bytes - lane.bytes + 256 * n ≤ _
          omega
    · exact Fits.post (slot.setCore id _) h

/-- What the listeners leave as it was. -/
theorem failAll_frame (slot : Slot θ) (ids : List String) :
    (slot.failAll ids).worker = slot.worker ∧
      (slot.failAll ids).cores.map Prod.fst = slot.cores.map Prod.fst ∧
      (slot.Keyed → (slot.failAll ids).Keyed) ∧
      ∀ k, k ∉ ids → (slot.failAll ids).view k = slot.view k := by
  induction ids generalizing slot with
  | nil => exact ⟨rfl, rfl, fun h => h, fun _ _ => rfl⟩
  | cons id ids ih =>
    unfold failAll
    split
    · obtain ⟨hw, hkeys, hkeyed, hview⟩ := ih slot
      exact ⟨hw, hkeys, hkeyed, fun k hk => hview k fun h => hk (List.mem_cons_of_mem _ h)⟩
    · rename_i core hcore
      have hframe := framed_fail slot id core
      have hothers : ∀ k, k ∉ id :: ids → (slot.fail id core).1.view k = slot.view k :=
        fun k hk => hframe.others k fun h => hk (h ▸ List.mem_cons_self)
      dsimp only
      split
      · obtain ⟨hw, hkeys, hkeyed, hview⟩ := ih (slot.fail id core).1
        refine ⟨hw.trans hframe.worker, hkeys.trans hframe.keys,
          fun h => hkeyed (hframe.keyed h), fun k hk => ?_⟩
        exact (hview k fun h => hk (List.mem_cons_of_mem _ h)).trans (hothers k hk)
      · exact ⟨hframe.worker, hframe.keys, hframe.keyed, hothers⟩

theorem Fits.mono {n m : ℕ} (h : slot.Fits n) (hle : m ≤ n) : slot.Fits m := by
  obtain ⟨hc, hb⟩ := h
  have hle' : (m : ℤ) ≤ n := by exact_mod_cast hle
  constructor <;> omega

theorem Fits.told {n : ℕ} (h : slot.Fits (n + 1)) : (slot.fail id core).2 = true := by
  unfold Slot.fail
  split
  · rfl
  · split
    · rfl
    · exact send_room _ _ h.room

/-- Each of the cores is told, unless an exception stops the listeners before it, which a scheduler
that takes all the commands does not raise. -/
theorem failAll_told {ids : List String} (nodup : ids.Nodup) (hk : k ∈ ids)
    (hcore : slot.core k = some core) :
    (¬ slot.Fits ids.length ∧ (slot.failAll ids).view k = slot.view k) ∨
      ∃ before : Slot θ, before.view k = slot.view k ∧ (slot.Fits ids.length → before.Fits 1) ∧
        (slot.failAll ids).view k = (before.fail k core).1.view k := by
  induction ids generalizing slot with
  | nil => cases hk
  | cons id ids ih =>
    obtain ⟨hnew, hrest⟩ := List.nodup_cons.mp nodup
    unfold failAll
    rcases List.mem_cons.mp hk with rfl | hmem
    · have hone : slot.Fits (k :: ids).length → slot.Fits 1 := fun h => h.mono (by simp)
      rw [hcore]
      dsimp only
      split
      · exact .inr ⟨slot, rfl, hone, (failAll_frame _ _).2.2.2 k hnew⟩
      · exact .inr ⟨slot, rfl, hone, rfl⟩
    · have hne : k ≠ id := fun h => hnew (h ▸ hmem)
      have hless : slot.Fits (id :: ids).length → slot.Fits ids.length := fun h => h.mono (by simp)
      split
      · rcases ih hrest hmem hcore with ⟨hn, h⟩ | ⟨before, hb, hfits, h⟩
        · exact .inl ⟨fun h => hn (hless h), h⟩
        · exact .inr ⟨before, hb, fun h => hfits (hless h), h⟩
      · rename_i other hother
        have hframe : (slot.fail id other).1.view k = slot.view k := (framed_fail _ _ _).others k hne
        dsimp only
        split
        · rcases ih hrest hmem ((core_of_view hframe).trans hcore) with
            ⟨hn, h⟩ | ⟨before, hb, hfits, h⟩
          · exact .inl ⟨fun h => hn (Fits.fail h), h.trans hframe⟩
          · exact .inr ⟨before, hb.trans hframe, fun h => hfits (Fits.fail h), h⟩
        · rename_i hstop
          exact .inl ⟨fun h => hstop (Fits.told h), hframe⟩

end Slot

/-- What a step of the scheduler's microtask or of the worker does to the view of a terminal. -/
inductive Works (v : View θ) : View θ → Prop
  | idle : Works v v
  | serve (command : Command θ) (rest : List (Command θ)) (waiting : v.waiting = command :: rest)
      (free : v.flight = none) :
      Works v { v with
        waiting := rest, posted := v.posted ++ [command], flight := some command.key }
  | begin (generation sequence : ℕ) (settings : Settings θ) (rest : List (Command θ))
      (posted : v.posted = ⟨generation, sequence, .create settings⟩ :: rest) :
      Works v { v with
        posted := rest, creating := v.creating ++ [⟨generation, sequence, settings⟩] }
  | ignore (command : Command θ) (rest : List (Command θ)) (posted : v.posted = command :: rest)
      (later : ∀ settings, command.payload ≠ .create settings)
      (other : ∀ entry, v.entry = some entry → entry.generation ≠ command.generation) :
      Works v { v with posted := rest }
  | run (command : Command θ) (rest : List (Command θ)) (entry : RuntimeEntry θ)
      (after : Option (RuntimeEntry θ)) (kind : EventKind) (posted : v.posted = command :: rest)
      (later : ∀ settings, command.payload ≠ .create settings) (found : v.entry = some entry)
      (own : entry.generation = command.generation)
      (ends : kind = .completed ∧ after = command.payload.process entry ∨
        kind = .recoverableError ∧ (after = command.payload.process entry ∨ after = some entry)) :
      Works v { v with
        posted := rest
        entry := after
        events := v.events ++ [⟨command.generation, command.sequence, kind⟩] }
  | created (creation : Creation θ) (index : ℕ) (after : Option (RuntimeEntry θ))
      (kinds : List EventKind) (under : v.creating[index]? = some creation)
      (ends : after = some ⟨creation.generation, creation.settings⟩ ∧
          (kinds = [.ready] ∨ kinds = [.ready, .fatalError]) ∨
        after = v.entry ∧ kinds = [.fatalError]) :
      Works v { v with
        creating := v.creating.eraseIdx index
        entry := after
        events := v.events ++ kinds.map fun kind => ⟨creation.generation, creation.sequence, kind⟩ }

namespace Slot
variable {slot t : Slot θ} {id k : String} {core old : WorkerTerminalCore θ} {payload : Payload θ}

theorem microtask_works (hkeyed : slot.Keyed) (h : slot.microtask = some t) :
    t.Keyed ∧ ∀ k, Works (slot.view k) (t.view k) := by
  unfold Slot.microtask at h
  split at h
  · obtain rfl := Option.some.inj h
    obtain ⟨hk, hserves⟩ := microtask_serves hkeyed
    refine ⟨hk, fun k => ?_⟩
    have hposted : addressed (slot.worker.inbox ++ slot.scheduler.microtask.2) k =
        addressed slot.worker.inbox k ++ sentFor slot.scheduler.microtask.2 k :=
      addressed_append _ _ _
    cases hserves k with
    | keeps none waiting flight =>
      rw [none, List.append_nil] at hposted
      have hsame : ({ slot with
          scheduler := slot.scheduler.microtask.1
          worker := { slot.worker with
            inbox := slot.worker.inbox ++ slot.scheduler.microtask.2 } } : Slot θ).view k =
          slot.view k := by
        ext1 <;> first | rfl | exact waiting | exact flight | exact hposted
      rw [hsame]
      exact .idle
    | sends value one idle waiting flight =>
      rw [one] at hposted
      have hsent : ({ slot with
          scheduler := slot.scheduler.microtask.1
          worker := { slot.worker with
            inbox := slot.worker.inbox ++ slot.scheduler.microtask.2 } } : Slot θ).view k =
          { slot.view k with
            waiting := slot.scheduler.microtask.1.waiting k
            posted := (slot.view k).posted ++ [value]
            flight := some value.key } := by
        ext1 <;> first | rfl | exact flight | exact hposted
      rw [hsent]
      exact .serve value _ waiting idle
  · cases h

theorem core_worker (slot : Slot θ) (worker : TerminalWorker θ) (k : String) :
    ({ slot with worker } : Slot θ).core k = slot.core k := rfl

theorem view_worker (slot : Slot θ) (worker : TerminalWorker θ) (k : String) :
    ({ slot with worker } : Slot θ).view k =
      { slot.view k with
        posted := addressed worker.inbox k
        creating := worker.creating k
        entry := worker.runtimes k
        events := addressed worker.outbox k } := rfl

theorem addressed_post (w : TerminalWorker θ) (id k : String) (generation sequence : ℕ)
    (kinds : List EventKind) :
    addressed (w.post id generation sequence kinds).outbox k =
      addressed w.outbox k ++ if k = id then
        kinds.map fun kind => ⟨generation, sequence, kind⟩ else [] := by
  unfold TerminalWorker.post
  rw [addressed_append, addressed_map]

theorem handle_works {outcome : Outcome} {worker : TerminalWorker θ}
    (h : slot.worker.handle outcome = some worker) (k : String) :
    Works (slot.view k) (({ slot with worker } : Slot θ).view k) := by
  rw [view_worker slot worker k]
  unfold TerminalWorker.handle at h
  split at h
  · cases h
  · rename_i id command inbox hinbox
    have hposted : addressed slot.worker.inbox k =
        if k = id then command :: addressed inbox k else addressed inbox k := by
      rw [hinbox, addressed_cons]
    dsimp only at h
    split at h
    · rename_i settings hcreate
      obtain rfl := Option.some.inj h
      by_cases hk : k = id
      · subst hk
        rw [if_pos rfl] at hposted
        have hbegin := Works.begin (v := slot.view k) command.generation command.sequence settings
          (addressed inbox k) (hposted.trans (by rw [← hcreate]))
        simpa [view, core_worker] using hbegin
      · rw [if_neg hk] at hposted
        have hidle := Works.idle (v := slot.view k)
        simpa [view, core_worker, hk, hposted] using hidle
    · rename_i payload hlater
      split at h
      · rename_i hentry
        obtain rfl := Option.some.inj h
        by_cases hk : k = id
        · subst hk
          rw [if_pos rfl] at hposted
          refine Works.ignore command (addressed inbox k) hposted hlater ?_
          intro entry he
          exact absurd (hentry.symm.trans he) (by simp)
        · rw [if_neg hk] at hposted
          have hidle := Works.idle (v := slot.view k)
          simpa [view, core_worker, hposted] using hidle
      · rename_i entry hentry
        split at h
        · rename_i hgen
          obtain rfl := Option.some.inj h
          by_cases hk : k = id
          · subst hk
            rw [if_pos rfl] at hposted
            refine Works.ignore command (addressed inbox k) hposted hlater ?_
            intro other he
            obtain rfl := Option.some.inj (hentry.symm.trans he)
            exact hgen
          · rw [if_neg hk] at hposted
            have hidle := Works.idle (v := slot.view k)
            simpa [view, core_worker, hposted] using hidle
        · rename_i hgen
          have hown : entry.generation = command.generation := not_not.mp hgen
          by_cases hk : k = id
          · subst hk
            rw [if_pos rfl] at hposted
            cases outcome with
            | completed =>
              obtain rfl := Option.some.inj h
              rw [addressed_post, if_pos rfl]
              have hrun := Works.run (v := slot.view k) command (addressed inbox k) entry
                (command.payload.process entry) .completed hposted hlater hentry hown
                (.inl ⟨rfl, rfl⟩)
              simpa [view, core_worker, TerminalWorker.post] using hrun
            | threw changed =>
              obtain rfl := Option.some.inj h
              rw [addressed_post, if_pos rfl]
              cases changed with
              | true =>
                have hrun := Works.run (v := slot.view k) command (addressed inbox k) entry
                  (command.payload.process entry) .recoverableError hposted hlater hentry hown
                  (.inr ⟨rfl, .inl rfl⟩)
                simpa [view, core_worker, TerminalWorker.post] using hrun
              | false =>
                have hrun := Works.run (v := slot.view k) command (addressed inbox k) entry
                  (some entry) .recoverableError hposted hlater hentry hown
                  (.inr ⟨rfl, .inr rfl⟩)
                simpa [view, core_worker, TerminalWorker.post, hentry] using hrun
          · rw [if_neg hk] at hposted
            have hidle := Works.idle (v := slot.view k)
            cases outcome with
            | completed =>
              obtain rfl := Option.some.inj h
              rw [addressed_post, if_neg hk]
              simpa [view, core_worker, TerminalWorker.post, hk, hposted] using hidle
            | threw changed =>
              obtain rfl := Option.some.inj h
              rw [addressed_post, if_neg hk]
              cases changed <;> simpa [view, core_worker, TerminalWorker.post, hk, hposted] using hidle

theorem created_works {index : ℕ} {outcome : CreateOutcome} {worker : TerminalWorker θ}
    (h : slot.worker.created id index outcome = some worker) (k : String) :
    Works (slot.view k) (({ slot with worker } : Slot θ).view k) := by
  rw [view_worker slot worker k]
  unfold TerminalWorker.created at h
  split at h
  · cases h
  · rename_i creation hunder
    by_cases hk : k = id
    · subst hk
      cases outcome with
      | ready =>
        obtain rfl := Option.some.inj h
        rw [addressed_post, if_pos rfl]
        have hready := Works.created (v := slot.view k) creation index _ [.ready] hunder
          (.inl ⟨rfl, .inl rfl⟩)
        simpa [view, core_worker, TerminalWorker.post] using hready
      | readyThenFatal =>
        obtain rfl := Option.some.inj h
        rw [addressed_post, if_pos rfl]
        have hready := Works.created (v := slot.view k) creation index _ [.ready, .fatalError] hunder
          (.inl ⟨rfl, .inr rfl⟩)
        simpa [view, core_worker, TerminalWorker.post] using hready
      | fatal =>
        obtain rfl := Option.some.inj h
        rw [addressed_post, if_pos rfl]
        have hfatal := Works.created (v := slot.view k) creation index _ [.fatalError] hunder
          (.inr ⟨rfl, rfl⟩)
        simpa [view, core_worker, TerminalWorker.post] using hfatal
    · have hidle := Works.idle (v := slot.view k)
      cases outcome with
      | ready =>
        obtain rfl := Option.some.inj h
        rw [addressed_post, if_neg hk]
        simpa [view, core_worker, TerminalWorker.post, hk] using hidle
      | readyThenFatal =>
        obtain rfl := Option.some.inj h
        rw [addressed_post, if_neg hk]
        simpa [view, core_worker, TerminalWorker.post, hk] using hidle
      | fatal =>
        obtain rfl := Option.some.inj h
        rw [addressed_post, if_neg hk]
        simpa [view, core_worker, TerminalWorker.post, hk] using hidle

theorem complete_load (scheduler : FairWorkerScheduler CommandKey (Command θ)) (id : String)
    (key : CommandKey) : (scheduler.complete id key).bytes = scheduler.bytes ∧
      (scheduler.complete id key).commands = scheduler.commands := by
  rcases complete_cases scheduler id key with ⟨h, -⟩ | ⟨lane, -, -, h⟩ <;> rw [h]
  · exact ⟨rfl, rfl⟩
  · unfold schedule cleanup
    split <;> exact ⟨rfl, rfl⟩

/-- The slot once a message of the worker has been taken and the scheduler has heard of it. -/
structure Opened (slot opened : Slot θ) (id : String) (event : Event) : Prop where
  cores : opened.cores = slot.cores
  worker : ∃ outbox, opened.worker = { slot.worker with outbox }
  keyed : slot.Keyed → opened.Keyed
  room : ∀ payload, slot.HasRoom payload → opened.HasRoom payload
  first : (slot.view id).events = event :: (opened.view id).events
  view : opened.view id = { slot.view id with
    events := (opened.view id).events
    flight := if (slot.view id).flight = some event.key then none else (slot.view id).flight }
  others : ∀ k, k ≠ id → opened.view k = slot.view k

theorem deliver_cases (h : slot.deliver = some t) :
    ∃ id event rest opened, slot.worker.outbox = (id, event) :: rest ∧
      Opened slot opened id event ∧
      ((∀ core, slot.core id = some core → core.disposed = true) ∧ t = opened ∨
        ∃ core, slot.core id = some core ∧ core.disposed = false ∧
          t = opened.receive id core event) := by
  unfold deliver at h
  split at h
  · cases h
  · rename_i id event rest houtbox
    dsimp only at h
    have hevents : ∀ k, addressed slot.worker.outbox k =
        if k = id then event :: addressed rest k else addressed rest k := by
      intro k
      rw [houtbox, addressed_cons]
    have hflight := fun k => complete_lane slot.scheduler id k event.key
    have hwaiting := fun k => (complete_waiting slot.scheduler id k event.key).1
    have hload := complete_load slot.scheduler id event.key
    have hopened : Opened slot { slot with
        worker := { slot.worker with outbox := rest }
        scheduler := slot.scheduler.complete id event.key } id event := by
      refine ⟨rfl, ⟨rest, rfl⟩, fun h => KeyedBy.complete h, ?_, ?_, ?_, ?_⟩
      · rintro payload ⟨hb, hc⟩
        exact ⟨hload.1.symm ▸ hb, hload.2.symm ▸ hc⟩
      · exact (hevents id).trans (if_pos rfl)
      · have hf := hflight id
        simp only [true_and] at hf
        ext1 <;> first | rfl | exact hwaiting id | exact hf
      · intro k hk
        have hf := (hflight k).trans (if_neg fun h => hk h.1)
        have he := (hevents k).trans (if_neg hk)
        ext1 <;> first | rfl | exact hwaiting k | exact hf | exact he.symm
    refine ⟨id, event, rest, _, houtbox, hopened, ?_⟩
    have hsame : ∀ k, ({ slot with
        worker := { slot.worker with outbox := rest }
        scheduler := slot.scheduler.complete id event.key } : Slot θ).core k = slot.core k :=
      fun _ => rfl
    rw [hsame] at h
    cases hcore : slot.core id with
    | none =>
      rw [hcore] at h
      exact .inl ⟨by simp, (Option.some.inj h).symm⟩
    | some core =>
      rw [hcore] at h
      dsimp only at h
      cases hdisposed : core.disposed with
      | true =>
        rw [hdisposed, if_pos rfl] at h
        refine .inl ⟨?_, (Option.some.inj h).symm⟩
        rintro _ ⟨⟩
        exact hdisposed
      | false =>
        rw [hdisposed] at h
        exact .inr ⟨core, rfl, hdisposed, (Option.some.inj h).symm⟩

/-- A step of the microtask or of the worker. -/
theorem works_of_step {a : SlotStep θ} (hkeyed : slot.Keyed)
    (ha : a = .microtask ∨ (∃ outcome, a = .handle outcome) ∨
      ∃ id index outcome, a = .created id index outcome) (h : slot.step a = some t) :
    t.Keyed ∧ t.cores = slot.cores ∧ ∀ k, Works (slot.view k) (t.view k) := by
  rcases ha with rfl | ⟨outcome, rfl⟩ | ⟨id, index, outcome, rfl⟩
  · obtain ⟨hk, hw⟩ := microtask_works hkeyed h
    refine ⟨hk, ?_, hw⟩
    dsimp only [step, Slot.microtask] at h
    split at h
    · obtain rfl := Option.some.inj h
      rfl
    · cases h
  · obtain ⟨worker, hworker, rfl⟩ := Option.map_eq_some_iff.mp h
    exact ⟨hkeyed, rfl, handle_works hworker⟩
  · obtain ⟨worker, hworker, rfl⟩ := Option.map_eq_some_iff.mp h
    exact ⟨hkeyed, rfl, created_works hworker⟩

theorem mem_terminals (keys : (slot.cores.map Prod.fst).Nodup) (h : slot.core id = some core) :
    id ∈ slot.terminals ↔ core.disposed = false := by
  unfold Slot.core at h
  obtain ⟨row, hrow, rfl⟩ := Option.map_eq_some_iff.mp h
  have hmem : row ∈ slot.cores := findRow_mem hrow
  have hid : row.1 = id := findRow_key hrow
  unfold terminals
  constructor
  · intro ht
    obtain ⟨other, hother, hkey⟩ := List.mem_map.mp ht
    obtain ⟨hin, hd⟩ := List.mem_filter.mp hother
    have hfound : findRow Prod.fst slot.cores other.1 = some other := findRow_of_mem keys hin
    rw [hkey, hrow] at hfound
    obtain rfl := Option.some.inj hfound
    simpa using hd
  · intro hd
    exact List.mem_map.mpr ⟨row, List.mem_filter.mpr ⟨hmem, by simpa using hd⟩, hid⟩

theorem not_mem_terminals (h : slot.core id = none) : id ∉ slot.terminals := by
  intro ht
  obtain ⟨row, hrow, rfl⟩ := List.mem_map.mp ht
  have hnone : findRow Prod.fst slot.cores row.1 = none := Option.map_eq_none_iff.mp h
  exact findRow_eq_none.mp hnone row (List.mem_filter.mp hrow).1 rfl

/-- The slot with a new worker. -/
def replaced (slot : Slot θ) : Slot θ :=
  { slot with scheduler := slot.scheduler.reset, worker := .fresh }

/-- A failure of the worker, as a terminal sees it: it is told, or its listener is not reached. -/
theorem workerFailed_view (keys : (slot.cores.map Prod.fst).Nodup) (k : String) :
    slot.workerFailed.view k = slot.replaced.view k ∧
        (∀ core, slot.core k = some core → core.disposed = false →
          ¬ slot.replaced.Fits slot.terminals.length) ∨
      ∃ (core : WorkerTerminalCore θ) (before : Slot θ), slot.core k = some core ∧
        core.disposed = false ∧
        before.view k = slot.replaced.view k ∧
        (slot.replaced.Fits slot.terminals.length → before.Fits 1) ∧
        slot.workerFailed.view k = (before.fail k core).1.view k := by
  have hframe := (failAll_frame slot.replaced slot.terminals).2.2.2 k
  cases hcore : slot.core k with
  | none => exact .inl ⟨hframe (not_mem_terminals hcore), by simp⟩
  | some core =>
    have hmem := mem_terminals keys hcore
    cases hd : core.disposed with
    | true =>
      have hout : k ∉ slot.terminals := by simp [hmem, hd]
      refine .inl ⟨hframe hout, ?_⟩
      rintro _ ⟨⟩ hactive
      rw [hd] at hactive
      cases hactive
    | false =>
      have hnodup : slot.terminals.Nodup := keys.sublist (List.filter_sublist.map _)
      have hreset : slot.replaced.core k = some core := hcore
      rcases failAll_told hnodup (hmem.mpr hd) hreset with ⟨hfits, hsame⟩ | ⟨before, hb, hfits, htold⟩
      · exact .inl ⟨hsame, fun _ _ _ => hfits⟩
      · exact .inr ⟨core, before, rfl, hd, hb, hfits, htold⟩

theorem workerFailed_frame (slot : Slot θ) :
    slot.workerFailed.worker = .fresh ∧
      slot.workerFailed.cores.map Prod.fst = slot.cores.map Prod.fst ∧ slot.workerFailed.Keyed := by
  obtain ⟨hworker, hkeys, hkeyed, -⟩ := failAll_frame slot.replaced slot.terminals
  refine ⟨hworker, hkeys, hkeyed ?_⟩
  intro id lane h
  cases h

/-- A new terminal. -/
theorem create_frame (options : Settings θ) (fresh : slot.core id = none) :
    (slot.create id options).cores.map Prod.fst = slot.cores.map Prod.fst ++ [id] ∧
      (slot.Keyed → (slot.create id options).Keyed) ∧
      (∀ k, k ≠ id → (slot.create id options).view k = slot.view k) ∧
      ∃ ok : Bool, (slot.HasRoom (.create options) → ok = true) ∧
        (slot.create id options).view id =
          { slot.view id with
            core := some { WorkerTerminalCore.new options with sequence := 1 }
            waiting := (slot.view id).waiting ++ if ok then [⟨1, 1, .create options⟩] else [] } := by
  have hnone : findRow Prod.fst slot.cores id = none := Option.map_eq_none_iff.mp fresh
  have hcore : ∀ k, (slot.acquire id (.new options)).core k =
      if k = id then some (.new options) else slot.core k := by
    intro k
    unfold Slot.core acquire
    dsimp only
    rw [findRow_push hnone]
    split <;> rfl
  have hframe := framed_send (slot.acquire id (.new options)) id (.new options) (.create options)
  refine ⟨?_, hframe.keyed, fun k hk => ?_,
    ((slot.acquire id (.new options)).send id (.new options) (.create options)).2, fun h => ?_, ?_⟩
  · exact hframe.keys.trans (List.map_append ..)
  · refine (hframe.others k hk).trans ?_
    have hk' := (hcore k).trans (if_neg hk)
    ext1 <;> first | rfl | exact hk'
  · exact send_room id (.new options) h
  · exact send_view _ _ ((hcore id).trans (if_pos rfl))

end Slot
end PiDeck.Worker
