import Mathlib
import PiDeck.Worker.Bookkeeping

/-! What a terminal sees of the scheduler: the commands that wait for it, in order, and the key of
the one that is with the worker. -/
namespace PiDeck.Worker
open PiDeck.Collections PiDeck.Transition

variable {κ α : Type*}

namespace FairWorkerScheduler
variable {s t u : FairWorkerScheduler κ α} {id k : String} {lane : Lane κ α} {f : α → κ}

/-- The key of the command of the terminal that is with the worker. -/
def flight (s : FairWorkerScheduler κ α) (id : String) : Option κ :=
  (s.lane id).bind Lane.inFlightKey

theorem flight_of_lane (h : s.lane id = some lane) : s.flight id = lane.inFlightKey := by
  simp [flight, h]

theorem flight_of_none (h : s.lane id = none) : s.flight id = none := by simp [flight, h]

theorem flight_congr (h : t.lane k = s.lane k) : t.flight k = s.flight k := by
  unfold flight
  rw [h]

/-- Every command waits under the key that `f` reads off it. -/
def KeyedBy (f : α → κ) (s : FairWorkerScheduler κ α) : Prop :=
  ∀ id lane, s.lane id = some lane → ∀ pending ∈ lane.queue, pending.key = f pending.value

theorem keyedBy_empty : (empty : FairWorkerScheduler κ α).KeyedBy f := by
  intro id lane h
  cases h

theorem keyedBy_of_lanes (h : ∀ k lane, t.lane k = some lane →
    ∃ k' old, s.lane k' = some old ∧ ∀ pending ∈ lane.queue, pending ∈ old.queue)
    (hs : s.KeyedBy f) : t.KeyedBy f := by
  intro k lane hl pending hp
  obtain ⟨k', old, hold, hsub⟩ := h k lane hl
  exact hs k' old hold pending (hsub pending hp)

section Enqueue
variable {value : α} {bytes : ℕ} {priority : WorkerPriority} {key : κ}

theorem enqueue_flight (h : s.enqueue id value bytes priority key = some t) (k : String) :
    t.flight k = s.flight k := by
  by_cases hk : k = id
  · subst hk
    obtain ⟨found, old, hfound, rfl⟩ := enqueue_cases h
    have hfl : found.lane k = some old := by
      rcases hfound with ⟨rfl, hl⟩ | ⟨rfl, hl, rfl⟩
      · exact hl
      · rw [lane_addLane hl, if_pos rfl]
    have hold : s.flight k = old.inFlightKey := by
      rcases hfound with ⟨rfl, hl⟩ | ⟨rfl, hl, rfl⟩
      · exact flight_of_lane hl
      · exact flight_of_none hl
    have hnew := lane_setLane found k k
      { old with priority, queue := old.queue ++ [⟨value, max 1 bytes, key⟩] }
    rw [if_pos rfl, hfl] at hnew
    rw [hold]
    exact (flight_of_lane hnew).trans rfl
  · exact flight_congr (lane_enqueue h hk)

theorem KeyedBy.enqueue (hs : s.KeyedBy f)
    (h : s.enqueue id value bytes priority (f value) = some t) : t.KeyedBy f := by
  intro k lane hl pending hp
  by_cases hk : k = id
  · subst hk
    obtain ⟨found, old, hfound, rfl⟩ := enqueue_cases h
    have hfl : found.lane k = some old := by
      rcases hfound with ⟨rfl, hold⟩ | ⟨rfl, hold, rfl⟩
      · exact hold
      · rw [lane_addLane hold, if_pos rfl]
    have hnew := lane_setLane found k k
      { old with priority, queue := old.queue ++ [⟨value, max 1 bytes, f value⟩] }
    rw [if_pos rfl, hfl] at hnew
    obtain rfl := Option.some.inj (hnew.symm.trans hl)
    rcases List.mem_append.mp hp with hp | hp
    · rcases hfound with ⟨rfl, hold⟩ | ⟨rfl, hold, rfl⟩
      · exact hs k old hold pending hp
      · cases hp
    · obtain rfl := List.mem_singleton.mp hp
      rfl
  · exact hs k lane ((lane_enqueue h hk).symm.trans hl) pending hp

end Enqueue

theorem setPriority_flight {priority : WorkerPriority} :
    (s.setPriority id priority).flight k = s.flight k := by
  by_cases hk : k = id
  · subst hk
    have hnew : (s.setPriority k priority).lane k =
        (s.lane k).map fun lane => { lane with priority } := lane_setPriority.trans (if_pos rfl)
    unfold flight
    rw [hnew]
    cases s.lane k <;> rfl
  · exact flight_congr (lane_setPriority.trans (if_neg hk))

theorem KeyedBy.setPriority {priority : WorkerPriority} (hs : s.KeyedBy f) :
    (s.setPriority id priority).KeyedBy f := by
  apply keyedBy_of_lanes _ hs
  intro k lane hl
  rw [lane_setPriority] at hl
  split at hl
  · obtain ⟨old, hold, rfl⟩ := Option.map_eq_some_iff.mp hl
    exact ⟨id, old, hold, fun _ h => h⟩
  · exact ⟨k, lane, hl, fun _ h => h⟩

theorem cancel_flight (s : FairWorkerScheduler κ α) (id k : String) :
    (s.cancel id).flight k = if k = id then none else s.flight k := by
  have h := lane_cancel s id k
  split
  · rename_i hk
    rw [if_pos hk] at h
    exact flight_of_none h
  · rename_i hk
    rw [if_neg hk] at h
    exact flight_congr h

theorem cancel_waiting (s : FairWorkerScheduler κ α) (id k : String) :
    (s.cancel id).waiting k = if k = id then [] else s.waiting k := by
  have h := lane_cancel s id k
  split
  · rename_i hk
    rw [if_pos hk] at h
    exact waiting_of_none h
  · rename_i hk
    rw [if_neg hk] at h
    exact waiting_congr h

theorem KeyedBy.cancel (hs : s.KeyedBy f) : (s.cancel id).KeyedBy f := by
  apply keyedBy_of_lanes _ hs
  intro k lane hl
  rw [lane_cancel] at hl
  split at hl
  · cases hl
  · exact ⟨k, lane, hl, fun _ h => h⟩

/-- A completion takes the command out of flight that it names, and leaves every other. -/
theorem complete_lane [DecidableEq κ] (s : FairWorkerScheduler κ α) (id k : String) (key : κ) :
    (s.complete id key).flight k =
      if k = id ∧ s.flight id = some key then none else s.flight k := by
  rcases complete_cases s id key with ⟨h, hno⟩ | ⟨lane, hl, hkey, h⟩
  · rw [h]
    split
    · rename_i hk
      obtain ⟨lane, hl, hf⟩ := Option.bind_eq_some_iff.mp hk.2
      exact absurd hf (hno lane hl)
    · rfl
  · have hlane := lane_setLane s id k { lane with inFlightKey := none }
    rw [hl] at hlane
    have hnew : (s.complete id key).lane k = if k = id ∧ lane.queue = [] then none
        else if k = id then some { lane with inFlightKey := none } else s.lane k := by
      rw [h]
      refine lane_cleanup.trans ?_
      simp only [true_and]
      split
      · rfl
      · exact hlane
    have hflight : s.flight id = some key := (flight_of_lane hl).trans hkey
    by_cases hk : k = id
    · rw [if_pos ⟨hk, hflight⟩]
      by_cases hq : lane.queue = []
      · exact flight_of_none (hnew.trans (if_pos ⟨hk, hq⟩))
      · exact flight_of_lane (hnew.trans ((if_neg fun h => hq h.2).trans (if_pos hk)))
    · rw [if_neg fun h => hk h.1]
      exact flight_congr (hnew.trans ((if_neg fun h => hk h.1).trans (if_neg hk)))

theorem KeyedBy.complete [DecidableEq κ] {key : κ} (hs : s.KeyedBy f) :
    (s.complete id key).KeyedBy f := by
  rcases complete_cases s id key with ⟨h, -⟩ | ⟨lane, hl, -, h⟩
  · rwa [h]
  · apply keyedBy_of_lanes _ hs
    intro k new hnew
    have hlane := lane_setLane s id k { lane with inFlightKey := none }
    rw [h] at hnew
    have hclean := lane_cleanup.symm.trans hnew
    split at hclean
    · cases hclean
    · have hset := hlane.symm.trans hclean
      split at hset
      · obtain ⟨old, hold, rfl⟩ := Option.map_eq_some_iff.mp hset
        obtain rfl := Option.some.inj (hold.symm.trans hl)
        exact ⟨id, old, hold, fun _ h => h⟩
      · exact ⟨k, new, hset, fun _ h => h⟩

/-- What was sent to a terminal. -/
def sentFor (sent : List (String × α)) (id : String) : List α :=
  (sent.filter fun c => c.1 = id).map Prod.snd

/-- A pump leaves a terminal alone, or sends it the first command that waits, if none is with the
worker. -/
inductive Serves (f : α → κ) (s t : FairWorkerScheduler κ α) (sent : List (String × α))
    (k : String) : Prop
  | keeps (none : sentFor sent k = []) (waiting : t.waiting k = s.waiting k)
      (flight : t.flight k = s.flight k)
  | sends (value : α) (one : sentFor sent k = [value]) (idle : s.flight k = none)
      (waiting : s.waiting k = value :: t.waiting k) (flight : t.flight k = some (f value))

theorem Serves.trans {sent sent' : List (String × α)} (h : Serves f s t sent k)
    (h' : Serves f t u sent' k) : Serves f s u (sent ++ sent') k := by
  have happ : sentFor (sent ++ sent') k = sentFor sent k ++ sentFor sent' k := by
    simp [sentFor]
  cases h with
  | keeps hn hw hf =>
    cases h' with
    | keeps hn' hw' hf' =>
      exact .keeps (by rw [happ, hn, hn']; rfl) (hw'.trans hw) (hf'.trans hf)
    | sends value ho hi hw' hf' =>
      exact .sends value (by rw [happ, hn, ho]; rfl) (hf.symm.trans hi) (hw.symm.trans hw') hf'
  | sends value ho hi hw hf =>
    cases h' with
    | keeps hn' hw' hf' =>
      exact .sends value (by rw [happ, ho, hn']; rfl) hi (by rw [hw, hw']) (hf'.trans hf)
    | sends value' ho' hi' hw' hf' =>
      rw [hf] at hi'
      cases hi'

theorem attempt_serves (hs : s.KeyedBy f) :
    s.attempt.1.KeyedBy f ∧ ∀ k, Serves f s s.attempt.1 s.attempt.2 k := by
  rcases attempt_cases s with h | ⟨id, lane, pending, rest, hl, hf, hq, ⟨deficit, h⟩ | ⟨deficit, h⟩⟩
  · rw [h]
    exact ⟨hs, fun k => .keeps rfl rfl rfl⟩
  · have hset : ∀ k, s.attempt.1.lane k =
        if k = id then some { lane with deficit } else s.lane k := by
      intro k
      rw [h]
      refine (lane_setLane _ _ _ _).trans ?_
      change (if k = id then (s.lane id).map _ else s.lane k) = _
      rw [hl]
      rfl
    have hsent : s.attempt.2 = [] := by rw [h]
    constructor
    · apply keyedBy_of_lanes _ hs
      intro k new hnew
      rw [hset] at hnew
      split at hnew
      · obtain rfl := Option.some.inj hnew
        exact ⟨id, lane, hl, fun _ h => h⟩
      · exact ⟨k, new, hnew, fun _ h => h⟩
    · intro k
      rw [hsent]
      by_cases hk : k = id
      · subst hk
        have hnew := (hset k).trans (if_pos rfl)
        apply Serves.keeps rfl
        · rw [waiting_of_lane hl, waiting_of_lane hnew]
        · rw [flight_of_lane hl, flight_of_lane hnew]
      · have hnew := (hset k).trans (if_neg hk)
        exact .keeps rfl (waiting_congr hnew) (flight_congr hnew)
  · have hset : ∀ k, s.attempt.1.lane k = if k = id then some { lane with
        queue := rest, deficit, inFlightKey := some pending.key } else s.lane k := by
      intro k
      rw [h]
      refine (lane_setLane _ _ _ _).trans ?_
      rw [hl]
      rfl
    have hsent : s.attempt.2 = [(id, pending.value)] := by rw [h]
    constructor
    · apply keyedBy_of_lanes _ hs
      intro k new hnew
      rw [hset] at hnew
      split at hnew
      · obtain rfl := Option.some.inj hnew
        exact ⟨id, lane, hl, fun p hp => hq ▸ List.mem_cons_of_mem _ hp⟩
      · exact ⟨k, new, hnew, fun _ h => h⟩
    · intro k
      rw [hsent]
      by_cases hk : k = id
      · subst hk
        have hnew := (hset k).trans (if_pos rfl)
        apply Serves.sends pending.value
        · simp [sentFor]
        · rw [flight_of_lane hl, hf]
        · rw [waiting_of_lane hl, waiting_of_lane hnew, hq]
          rfl
        · rw [flight_of_lane hnew, hs k lane hl pending (hq ▸ List.mem_cons_self)]
      · have hnew := (hset k).trans (if_neg hk)
        exact .keeps (by simp [sentFor, Ne.symm hk]) (waiting_congr hnew) (flight_congr hnew)

theorem attempts_serves (n : ℕ) (hs : s.KeyedBy f) :
    (attempts n s).1.KeyedBy f ∧ ∀ k, Serves f s (attempts n s).1 (attempts n s).2 k := by
  induction n generalizing s with
  | zero => exact ⟨hs, fun k => .keeps rfl rfl rfl⟩
  | succ n ih =>
    unfold attempts
    split
    · obtain ⟨hkeyed, hserves⟩ := attempt_serves hs
      obtain ⟨hkeyed', hserves'⟩ := ih hkeyed
      exact ⟨hkeyed', fun k => (hserves k).trans (hserves' k)⟩
    · exact ⟨hs, fun k => .keeps rfl rfl rfl⟩

/-- What the microtask does for each terminal. -/
theorem microtask_serves (hs : s.KeyedBy f) :
    s.microtask.1.KeyedBy f ∧ ∀ k, Serves f s s.microtask.1 s.microtask.2 k := by
  have hsame : ({ s with scheduled := false } : FairWorkerScheduler κ α).KeyedBy f := hs
  unfold microtask
  rcases pump_cases { s with scheduled := false } with
    ⟨-, h⟩ | ⟨-, served, rfl, ⟨-, h⟩ | ⟨-, h⟩⟩ <;> rw [h]
  · exact ⟨hsame, fun k => .keeps rfl rfl rfl⟩
  · obtain ⟨hkeyed, hserves⟩ := attempts_serves _ hsame
    refine ⟨hkeyed, fun k => ?_⟩
    cases hserves k with
    | keeps hn hw hf => exact .keeps hn hw hf
    | sends value ho hi hw hf => exact .sends value ho hi hw hf
  · obtain ⟨hkeyed, hserves⟩ := attempts_serves _ hsame
    refine ⟨hkeyed, fun k => ?_⟩
    cases hserves k with
    | keeps hn hw hf => exact .keeps hn hw hf
    | sends value ho hi hw hf => exact .sends value ho hi hw hf

end FairWorkerScheduler
end PiDeck.Worker
