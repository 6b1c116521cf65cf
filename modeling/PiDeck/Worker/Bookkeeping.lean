import Mathlib
import PiDeck.Worker.Scheduler

/-! The books of the scheduler: its counters are sums over its lanes, and each operation says what
it does to the commands that wait for a terminal and to the one in flight. -/
namespace PiDeck.Worker
open PiDeck.Collections PiDeck.Transition

variable {κ α : Type*}

namespace FairWorkerScheduler
variable {s : FairWorkerScheduler κ α} {id k : String} {lane old : Lane κ α} {g : Lane κ α → ℕ}

/-- A quantity summed over the lanes. -/
def total (s : FairWorkerScheduler κ α) (g : Lane κ α → ℕ) : ℕ :=
  (s.lanes.map fun entry => g entry.2).sum

theorem lane_setLane (s : FairWorkerScheduler κ α) (id k : String) (lane : Lane κ α) :
    (s.setLane id lane).lane k = if k = id then (s.lane id).map (fun _ => lane) else s.lane k := by
  unfold FairWorkerScheduler.lane setLane
  rw [findRow_modifyRow (by intro _ h; exact h)]
  split <;> simp [Function.comp_def]

theorem lane_addLane (fresh : s.lane id = none) :
    (s.addLane id lane).lane k = if k = id then some lane else s.lane k := by
  have hfree : findRow Prod.fst s.lanes id = none := Option.map_eq_none_iff.mp fresh
  unfold FairWorkerScheduler.lane addLane
  rw [findRow_push hfree]
  split <;> rfl

theorem lane_deleteLane :
    (s.deleteLane id).lane k = if k = id then none else s.lane k := by
  unfold FairWorkerScheduler.lane deleteLane
  rw [findRow_filter_ne]
  split <;> rfl

theorem total_setLane (g : Lane κ α → ℕ) (lane : Lane κ α) (h : s.lane id = some old) :
    (s.setLane id lane).total g + g old = s.total g + g lane := by
  obtain ⟨entry, hentry, rfl⟩ := Option.map_eq_some_iff.mp h
  exact sum_map_modifyRow (g := fun entry => g entry.2) hentry

theorem total_addLane : (s.addLane id lane).total g = s.total g + g lane := by
  simp [total, addLane]

theorem total_deleteLane (nodup : (s.lanes.map Prod.fst).Nodup) (h : s.lane id = some old) :
    (s.deleteLane id).total g + g old = s.total g := by
  obtain ⟨entry, hentry, rfl⟩ := Option.map_eq_some_iff.mp h
  exact sum_map_filter_ne (g := fun entry => g entry.2) nodup hentry

theorem mem_lanes_of_lane (h : s.lane id = some lane) : (id, lane) ∈ s.lanes := by
  obtain ⟨entry, hentry, rfl⟩ := Option.map_eq_some_iff.mp h
  obtain rfl := findRow_key hentry
  exact findRow_mem hentry

/-- The counters are the sums over the lanes, and the array of terminals is the map's. -/
structure Consistent (s : FairWorkerScheduler κ α) : Prop where
  order : s.order = s.lanes.map Prod.fst
  nodup : s.order.Nodup
  cursor : s.cursor < max 1 s.order.length
  bytes : s.bytes = s.total Lane.bytes
  commands : s.commands = s.total fun lane => lane.queue.length
  inFlight : s.inFlight = s.total Lane.flying
  capacity : s.inFlight ≤ maxInFlight

theorem consistent_empty : (empty : FairWorkerScheduler κ α).Consistent :=
  ⟨rfl, .nil, Nat.one_pos, rfl, rfl, rfl, by simp [empty]⟩

/-- A lane that can be served while nothing is about to serve it. -/
def Stalled (s : FairWorkerScheduler κ α) : Prop :=
  s.inFlight < maxInFlight ∧ s.scheduled = false ∧
    ∃ id lane, s.lane id = some lane ∧ lane.dispatchable = true

namespace Consistent

theorem keys (h : s.Consistent) : (s.lanes.map Prod.fst).Nodup := h.order ▸ h.nodup

theorem lane_of_mem (h : s.Consistent) {entry : String × Lane κ α} (hmem : entry ∈ s.lanes) :
    s.lane entry.1 = some entry.2 := by
  unfold FairWorkerScheduler.lane
  rw [findRow_of_mem h.keys hmem]
  rfl

/-- The lane at the cursor exists. -/
theorem lane_at (h : s.Consistent) {i : ℕ} (hi : s.order[i]? = some id) :
    ∃ lane, s.lane id = some lane := by
  have hmem : id ∈ s.order := List.mem_of_getElem? hi
  rw [h.order] at hmem
  obtain ⟨entry, hentry, rfl⟩ := List.mem_map.mp hmem
  exact ⟨entry.2, h.lane_of_mem hentry⟩

/-- Changes of a lane in place. -/
theorem setLane (h : s.Consistent) (lane : Lane κ α) (hl : s.lane id = some old) {bytes commands inFlight : ℤ}
    {scheduled : Bool} {cursor : ℕ} (hc : cursor < max 1 s.order.length)
    (hb : bytes + old.bytes = s.bytes + lane.bytes)
    (hcom : commands + old.queue.length = s.commands + lane.queue.length)
    (hf : inFlight + old.flying = s.inFlight + lane.flying) (hcap : inFlight ≤ maxInFlight) :
    ({ s.setLane id lane with bytes, commands, inFlight, scheduled, cursor } :
      FairWorkerScheduler κ α).Consistent := by
  have hkeys : (s.setLane id lane).lanes.map Prod.fst = s.lanes.map Prod.fst :=
    map_key_modifyRow (by intro _ h; exact h)
  have tb := total_setLane Lane.bytes lane hl
  have tc := total_setLane (fun lane => lane.queue.length) lane hl
  have tf := total_setLane Lane.flying lane hl
  have eb := h.bytes
  have ec := h.commands
  have ef := h.inFlight
  refine ⟨h.order.trans hkeys.symm, h.nodup, hc, ?_, ?_, ?_, hcap⟩
  · change bytes = ((s.setLane id lane).total Lane.bytes : ℕ)
    omega
  · change commands = ((s.setLane id lane).total fun lane => lane.queue.length : ℕ)
    omega
  · change inFlight = ((s.setLane id lane).total Lane.flying : ℕ)
    omega

/-- A lane is dropped with what it holds. -/
theorem deleteLane (h : s.Consistent) (hl : s.lane id = some old) {bytes commands inFlight : ℤ}
    (hb : bytes + old.bytes = s.bytes) (hcom : commands + old.queue.length = s.commands)
    (hf : inFlight + old.flying = s.inFlight) :
    ({ s with bytes, commands, inFlight }.deleteLane id : FairWorkerScheduler κ α).Consistent := by
  have tb := total_deleteLane (g := Lane.bytes) h.keys hl
  have tc := total_deleteLane (g := fun lane => lane.queue.length) h.keys hl
  have tf := total_deleteLane (g := Lane.flying) h.keys hl
  have eb := h.bytes
  have ec := h.commands
  have ef := h.inFlight
  have hcap := h.capacity
  constructor
  · change s.order.filter (· ≠ id) = (s.lanes.filter fun entry => entry.1 ≠ id).map Prod.fst
    rw [h.order, List.filter_map]
    rfl
  · exact h.nodup.filter _
  · exact Nat.mod_lt _ (by omega)
  · change bytes = ((s.deleteLane id).total Lane.bytes : ℕ)
    omega
  · change commands = ((s.deleteLane id).total fun lane => lane.queue.length : ℕ)
    omega
  · change inFlight = ((s.deleteLane id).total Lane.flying : ℕ)
    omega
  · change inFlight ≤ maxInFlight
    omega

theorem addLane (h : s.Consistent) (fresh : s.lane id = none) {priority : WorkerPriority} :
    (s.addLane id ⟨[], priority, 0, none⟩).Consistent := by
  have hnew : id ∉ s.order := by
    intro hmem
    obtain ⟨lane, hl⟩ := h.lane_at (List.getElem?_of_mem hmem).choose_spec
    simp [fresh] at hl
  constructor
  · simp [FairWorkerScheduler.addLane, h.order]
  · refine List.nodup_append.mpr ⟨h.nodup, List.nodup_singleton _, ?_⟩
    rintro a ha b hb rfl
    obtain rfl := List.mem_singleton.mp hb
    exact hnew ha
  · have := h.cursor
    simp only [FairWorkerScheduler.addLane, List.length_append, List.length_singleton]
    omega
  · rw [total_addLane]
    exact h.bytes
  · rw [total_addLane]
    exact h.commands
  · rw [total_addLane]
    exact h.inFlight
  · exact h.capacity

end Consistent

/-- The values that wait for a terminal. -/
def waiting (s : FairWorkerScheduler κ α) (id : String) : List α :=
  match s.lane id with
  | some lane => lane.queue.map Pending.value
  | none => []

/-- Whether a command of the terminal is with the worker, as a number. -/
def flying (s : FairWorkerScheduler κ α) (id : String) : ℕ :=
  match s.lane id with
  | some lane => lane.flying
  | none => 0

theorem waiting_of_lane (h : s.lane id = some lane) :
    s.waiting id = lane.queue.map Pending.value := by simp [waiting, h]

theorem flying_of_lane (h : s.lane id = some lane) : s.flying id = lane.flying := by
  simp [flying, h]

theorem waiting_of_none (h : s.lane id = none) : s.waiting id = [] := by simp [waiting, h]

theorem flying_of_none (h : s.lane id = none) : s.flying id = 0 := by simp [flying, h]

theorem waiting_congr {t : FairWorkerScheduler κ α} (h : t.lane k = s.lane k) :
    t.waiting k = s.waiting k := by
  unfold waiting
  rw [h]

theorem flying_congr {t : FairWorkerScheduler κ α} (h : t.lane k = s.lane k) :
    t.flying k = s.flying k := by
  unfold flying
  rw [h]

section Enqueue
variable {t : FairWorkerScheduler κ α} {value : α} {bytes : ℕ} {priority : WorkerPriority} {key : κ}

/-- What an accepted command does: it joins the lane of its terminal, which may be new. -/
theorem enqueue_cases (h : s.enqueue id value bytes priority key = some t) :
    ∃ found old, (found = s ∧ s.lane id = some old ∨
        found = s.addLane id ⟨[], priority, 0, none⟩ ∧ s.lane id = none ∧
          old = ⟨[], priority, 0, none⟩) ∧
      t = { found.setLane id
          { old with priority, queue := old.queue ++ [⟨value, max 1 bytes, key⟩] } with
        bytes := found.bytes + max 1 bytes, commands := found.commands + 1, scheduled := true } := by
  dsimp only [enqueue] at h
  split_ifs at h with hfull
  cases hl : s.lane id with
  | some lane =>
    rw [hl] at h
    exact ⟨s, lane, .inl ⟨rfl, rfl⟩, (Option.some.inj h).symm⟩
  | none =>
    rw [hl] at h
    exact ⟨_, _, .inr ⟨rfl, rfl, rfl⟩, (Option.some.inj h).symm⟩

theorem enqueue_scheduled (h : s.enqueue id value bytes priority key = some t) :
    t.scheduled = true := by
  obtain ⟨found, old, -, rfl⟩ := enqueue_cases h
  rfl

theorem Consistent.enqueue (hs : s.Consistent)
    (h : s.enqueue id value bytes priority key = some t) : t.Consistent := by
  obtain ⟨found, old, hfound, rfl⟩ := enqueue_cases h
  have hc : found.Consistent ∧ found.lane id = some old := by
    rcases hfound with ⟨rfl, hl⟩ | ⟨rfl, hl, rfl⟩
    · exact ⟨hs, hl⟩
    · refine ⟨hs.addLane hl, ?_⟩
      rw [lane_addLane hl, if_pos rfl]
  obtain ⟨hc, hl⟩ := hc
  apply hc.setLane _ hl hc.cursor
  · simp [Lane.bytes]
    ring
  · simp
    ring
  · rfl
  · exact hc.capacity

theorem lane_enqueue (h : s.enqueue id value bytes priority key = some t) (hk : k ≠ id) :
    t.lane k = s.lane k := by
  obtain ⟨found, old, hfound, rfl⟩ := enqueue_cases h
  have hf : found.lane k = s.lane k := by
    rcases hfound with ⟨rfl, -⟩ | ⟨rfl, hl, -⟩
    · rfl
    · rw [lane_addLane hl, if_neg hk]
  exact ((lane_setLane _ _ _ _).trans (if_neg hk)).trans hf

theorem enqueue_waiting (h : s.enqueue id value bytes priority key = some t) :
    t.waiting id = s.waiting id ++ [value] ∧ t.flying id = s.flying id := by
  obtain ⟨found, old, hfound, rfl⟩ := enqueue_cases h
  have hfl : found.lane id = some old := by
    rcases hfound with ⟨rfl, hl⟩ | ⟨rfl, hl, rfl⟩
    · exact hl
    · rw [lane_addLane hl, if_pos rfl]
  have hold : s.waiting id = old.queue.map Pending.value ∧ s.flying id = old.flying := by
    rcases hfound with ⟨rfl, hl⟩ | ⟨rfl, hl, rfl⟩
    · exact ⟨waiting_of_lane hl, flying_of_lane hl⟩
    · exact ⟨waiting_of_none hl, flying_of_none hl⟩
  have hnew := lane_setLane found id id
    { old with priority, queue := old.queue ++ [⟨value, max 1 bytes, key⟩] }
  rw [if_pos rfl, hfl] at hnew
  constructor
  · rw [hold.1]
    exact (waiting_of_lane hnew).trans (by simp)
  · rw [hold.2]
    exact (flying_of_lane hnew).trans rfl

end Enqueue

section SetPriority
variable {priority : WorkerPriority}

theorem lane_setPriority :
    (s.setPriority id priority).lane k =
      if k = id then (s.lane id).map (fun lane => { lane with priority }) else s.lane k := by
  cases hl : s.lane id with
  | none =>
    simp only [setPriority, hl]
    by_cases hk : k = id
    · simp [hk, hl]
    · simp [hk]
  | some lane =>
    simp only [setPriority, hl]
    rw [lane_setLane, hl]
    rfl

theorem Consistent.setPriority (hs : s.Consistent) : (s.setPriority id priority).Consistent := by
  unfold FairWorkerScheduler.setPriority
  cases hl : s.lane id with
  | none => exact hs
  | some lane =>
    exact hs.setLane { lane with priority } hl hs.cursor rfl rfl rfl hs.capacity

theorem setPriority_waiting :
    (s.setPriority id priority).waiting k = s.waiting k ∧
      (s.setPriority id priority).flying k = s.flying k := by
  by_cases hk : k = id
  · subst hk
    cases hl : s.lane k with
    | none =>
      have hn : (s.setPriority k priority).lane k = none := by rw [lane_setPriority, if_pos rfl, hl]; rfl
      simp [waiting, flying, hl, hn]
    | some lane =>
      have hn : (s.setPriority k priority).lane k = some { lane with priority } := by
        rw [lane_setPriority, if_pos rfl, hl]
        rfl
      simp [waiting, flying, hl, hn, Lane.flying]
  · have hn : (s.setPriority id priority).lane k = s.lane k := by rw [lane_setPriority, if_neg hk]
    exact ⟨waiting_congr hn, flying_congr hn⟩

theorem stalled_setPriority (h : (s.setPriority id priority).Stalled) : s.Stalled := by
  obtain ⟨hroom, hsch, k, lane, hk, hd⟩ := h
  have hflags : (s.setPriority id priority).inFlight = s.inFlight ∧
      (s.setPriority id priority).scheduled = s.scheduled := by
    unfold setPriority
    split <;> exact ⟨rfl, rfl⟩
  rw [hflags.1] at hroom
  rw [hflags.2] at hsch
  rw [lane_setPriority] at hk
  by_cases hkid : k = id
  · rw [if_pos hkid] at hk
    obtain ⟨old, hold, rfl⟩ := Option.map_eq_some_iff.mp hk
    exact ⟨hroom, hsch, id, old, hold, hd⟩
  · rw [if_neg hkid] at hk
    exact ⟨hroom, hsch, k, lane, hk, hd⟩

end SetPriority

section Cancel

theorem cancel_of_lane (h : s.lane id = some lane) :
    s.cancel id = { s with
      bytes := s.bytes - lane.bytes
      commands := s.commands - lane.queue.length
      inFlight := s.inFlight - lane.flying }.deleteLane id := by
  simp [cancel, h]

theorem cancel_of_none (h : s.lane id = none) : s.cancel id = s := by simp [cancel, h]

theorem Consistent.cancel (hs : s.Consistent) : (s.cancel id).Consistent := by
  cases hl : s.lane id with
  | none => rwa [cancel_of_none hl]
  | some lane =>
    rw [cancel_of_lane hl]
    exact hs.deleteLane hl (by omega) (by omega) (by omega)

theorem lane_cancel (s : FairWorkerScheduler κ α) (id k : String) : (s.cancel id).lane k = if k = id then none else s.lane k := by
  cases hl : s.lane id with
  | none =>
    rw [cancel_of_none hl]
    split
    · rename_i hk
      rw [hk, hl]
    · rfl
  | some lane =>
    rw [cancel_of_lane hl]
    exact lane_deleteLane

theorem inFlight_cancel : (s.cancel id).inFlight = s.inFlight - s.flying id := by
  cases hl : s.lane id with
  | none => simp [cancel_of_none hl, flying_of_none hl]
  | some lane => simp [cancel_of_lane hl, flying_of_lane hl, FairWorkerScheduler.deleteLane]

theorem scheduled_cancel : (s.cancel id).scheduled = s.scheduled := by
  cases hl : s.lane id with
  | none => rw [cancel_of_none hl]
  | some lane => rw [cancel_of_lane hl]; rfl

end Cancel

theorem lane_cleanup : (s.cleanup id lane).lane k =
    if k = id ∧ lane.inFlightKey = none ∧ lane.queue = [] then none else s.lane k := by
  unfold cleanup
  by_cases hkeep : (lane.inFlightKey.isSome || !lane.queue.isEmpty) = true
  · have hnot : ¬ (k = id ∧ lane.inFlightKey = none ∧ lane.queue = []) := by
      rintro ⟨-, hf, hq⟩
      simp [hf, hq] at hkeep
    rw [if_pos hkeep, if_neg hnot]
  · have hempty : lane.inFlightKey = none ∧ lane.queue = [] := by simpa using hkeep
    rw [if_neg hkeep, lane_deleteLane]
    by_cases hk : k = id
    · rw [if_pos hk, if_pos ⟨hk, hempty⟩]
    · rw [if_neg hk, if_neg fun h => hk h.1]

/-- A lane that holds nothing is dropped. -/
theorem Consistent.cleanup (hs : s.Consistent) (hl : s.lane id = some lane) :
    (s.cleanup id lane).Consistent := by
  unfold FairWorkerScheduler.cleanup
  split
  · exact hs
  · rename_i hempty
    obtain ⟨hf, hq⟩ : lane.inFlightKey = none ∧ lane.queue = [] := by simpa using hempty
    exact hs.deleteLane hl (by simp [Lane.bytes, hq]) (by simp [hq]) (by simp [Lane.flying, hf])

section Complete
variable [DecidableEq κ] {key : κ}

/-- A completion that names the command in flight frees the lane; any other is ignored. -/
theorem complete_cases (s : FairWorkerScheduler κ α) (id : String) (key : κ) :
    (s.complete id key = s ∧ ∀ lane, s.lane id = some lane → lane.inFlightKey ≠ some key) ∨
      ∃ lane, s.lane id = some lane ∧ lane.inFlightKey = some key ∧
        s.complete id key = ({ s.setLane id { lane with inFlightKey := none } with
          inFlight := s.inFlight - 1 }.cleanup id { lane with inFlightKey := none }).schedule := by
  unfold complete
  cases hl : s.lane id with
  | none => exact .inl ⟨rfl, fun _ h => nomatch h⟩
  | some lane =>
    by_cases hk : lane.inFlightKey = some key
    · exact .inr ⟨lane, rfl, hk, by simp only [hk, if_true]; rfl⟩
    · refine .inl ⟨by simp only [hk, if_false], ?_⟩
      rintro _ ⟨⟩
      exact hk

theorem complete_scheduled {lane : Lane κ α} (hl : s.lane id = some lane)
    (hkey : lane.inFlightKey = some key) : (s.complete id key).scheduled = true := by
  rcases complete_cases s id key with ⟨-, hno⟩ | ⟨lane, -, -, h⟩
  · exact absurd hkey (hno lane hl)
  · rw [h]
    rfl

theorem Consistent.complete (hs : s.Consistent) : (s.complete id key).Consistent := by
  rcases complete_cases s id key with ⟨h, -⟩ | ⟨lane, hl, hkey, h⟩
  · rwa [h]
  · have hset : ({ s.setLane id { lane with inFlightKey := none } with
        inFlight := s.inFlight - 1 } : FairWorkerScheduler κ α).Consistent := by
      apply hs.setLane { lane with inFlightKey := none } hl hs.cursor rfl rfl
      · simp [Lane.flying, hkey]
      · have := hs.capacity
        omega
    have hlane : ({ s.setLane id { lane with inFlightKey := none } with
        inFlight := s.inFlight - 1 } : FairWorkerScheduler κ α).lane id =
          some { lane with inFlightKey := none } :=
      (lane_setLane _ _ _ _).trans (by rw [if_pos rfl, hl]; rfl)
    have hclean := hset.cleanup hlane
    rw [h]
    exact ⟨hclean.order, hclean.nodup, hclean.cursor, hclean.bytes, hclean.commands,
      hclean.inFlight, hclean.capacity⟩

/-- A completion leaves what waits, and takes back the command in flight if it names it. -/
theorem complete_waiting (s : FairWorkerScheduler κ α) (id k : String) (key : κ) :
    (s.complete id key).waiting k = s.waiting k ∧
    (s.complete id key).flying k + (if k = id ∧ (s.lane id).any
      (fun lane => decide (lane.inFlightKey = some key)) = true then 1 else 0) = s.flying k := by
  rcases complete_cases s id key with ⟨h, hno⟩ | ⟨lane, hl, hkey, h⟩
  · have hany : (s.lane id).any (fun lane => decide (lane.inFlightKey = some key)) = false := by
      cases hl : s.lane id with
      | none => rfl
      | some lane => simpa using hno lane hl
    simp [h, hany]
  · have hlane : (s.complete id key).lane k =
        if k = id ∧ lane.queue = [] then none
        else if k = id then some { lane with inFlightKey := none } else s.lane k := by
      rw [h]
      refine lane_cleanup.trans ?_
      have hset := lane_setLane s id k { lane with inFlightKey := none }
      rw [hl] at hset
      simp only [true_and]
      split
      · rfl
      · exact hset
    by_cases hk : k = id
    · subst hk
      by_cases hq : lane.queue = []
      · rw [if_pos ⟨rfl, hq⟩] at hlane
        rw [waiting_of_none hlane, flying_of_none hlane, waiting_of_lane hl, flying_of_lane hl]
        simp [hq, hl, hkey, Lane.flying]
      · rw [if_neg fun h => hq h.2, if_pos rfl] at hlane
        rw [waiting_of_lane hlane, flying_of_lane hlane, waiting_of_lane hl, flying_of_lane hl]
        simp [hl, hkey, Lane.flying]
    · rw [if_neg fun h => hk h.1, if_neg hk] at hlane
      rw [waiting_congr hlane, flying_congr hlane]
      simp [hk]

end Complete

section Pump

/-- What one attempt does: it moves the cursor, and it may credit a lane or serve it. -/
theorem attempt_cases (s : FairWorkerScheduler κ α) :
    s.attempt = ({ s with cursor := (s.cursor + 1) % s.order.length }, []) ∨
      ∃ id lane pending rest, s.lane id = some lane ∧ lane.inFlightKey = none ∧
        lane.queue = pending :: rest ∧
        ((∃ deficit, s.attempt =
            ({ s with cursor := (s.cursor + 1) % s.order.length }.setLane id { lane with deficit },
              [])) ∨
          ∃ deficit, s.attempt =
            ({ s.setLane id { lane with
                queue := rest
                deficit
                inFlightKey := some pending.key } with
              cursor := (s.cursor + 1) % s.order.length
              bytes := s.bytes - pending.bytes
              commands := s.commands - 1
              inFlight := s.inFlight + 1 }, [(id, pending.value)])) := by
  have hlane : ∀ k, ({ s with cursor := (s.cursor + 1) % s.order.length } :
      FairWorkerScheduler κ α).lane k = s.lane k := fun _ => rfl
  dsimp only [attempt]
  cases s.order[s.cursor]? with
  | none => exact .inl rfl
  | some id =>
    simp only [hlane]
    cases hl : s.lane id with
    | none => exact .inl rfl
    | some lane =>
      cases hf : lane.inFlightKey with
      | some key => exact .inl (by simp only [hf])
      | none =>
        cases hq : lane.queue with
        | nil => exact .inl (by simp only [hf, hq])
        | cons pending rest =>
          refine .inr ⟨id, lane, pending, rest, hl, hf, hq, ?_⟩
          simp only [hf, hq]
          split
          · exact .inl ⟨_, rfl⟩
          · exact .inr ⟨_, rfl⟩

/-- What an attempt sends leaves the head of its lane. -/
structure Served (s t : FairWorkerScheduler κ α) (sent : List (String × α)) : Prop where
  waiting : ∀ k, s.waiting k = (sent.filter fun c => c.1 = k).map Prod.snd ++ t.waiting k
  flying : ∀ k, t.flying k = s.flying k + (sent.filter fun c => c.1 = k).length
  scheduled : t.scheduled = s.scheduled
  order : t.order = s.order

theorem Served.refl : Served s s [] := ⟨fun _ => rfl, fun _ => rfl, rfl, rfl⟩

theorem Served.trans {t u : FairWorkerScheduler κ α} {sent sent' : List (String × α)}
    (h : Served s t sent) (h' : Served t u sent') : Served s u (sent ++ sent') := by
  constructor
  · intro k
    rw [h.waiting k, h'.waiting k, List.filter_append, List.map_append, List.append_assoc]
  · intro k
    rw [h'.flying k, h.flying k, List.filter_append, List.length_append, Nat.add_assoc]
  · exact h'.scheduled.trans h.scheduled
  · exact h'.order.trans h.order

theorem attempt_served (s : FairWorkerScheduler κ α) : Served s s.attempt.1 s.attempt.2 := by
  rcases attempt_cases s with h | ⟨id, lane, pending, rest, hl, hf, hq, ⟨deficit, h⟩ | ⟨deficit, h⟩⟩
  · rw [h]
    exact ⟨fun _ => rfl, fun _ => rfl, rfl, rfl⟩
  · have hset : ∀ k, s.attempt.1.lane k = if k = id then some { lane with deficit } else s.lane k := by
      intro k
      rw [h]
      refine (lane_setLane _ _ _ _).trans ?_
      change (if k = id then (s.lane id).map _ else s.lane k) = _
      rw [hl]
      rfl
    have hsent : s.attempt.2 = [] := by rw [h]
    rw [hsent]
    refine ⟨fun k => ?_, fun k => ?_, by rw [h]; rfl, by rw [h]; rfl⟩
    · by_cases hk : k = id
      · subst hk
        have hnew := (hset k).trans (if_pos rfl)
        rw [waiting_of_lane hl, waiting_of_lane hnew]
        rfl
      · exact (waiting_congr ((hset k).trans (if_neg hk))).symm
    · by_cases hk : k = id
      · subst hk
        have hnew := (hset k).trans (if_pos rfl)
        rw [flying_of_lane hl, flying_of_lane hnew]
        rfl
      · exact flying_congr ((hset k).trans (if_neg hk))
  · have hset : ∀ k, s.attempt.1.lane k = if k = id then some { lane with
        queue := rest, deficit, inFlightKey := some pending.key } else s.lane k := by
      intro k
      rw [h]
      refine (lane_setLane _ _ _ _).trans ?_
      rw [hl]
      rfl
    have hsent : s.attempt.2 = [(id, pending.value)] := by rw [h]
    rw [hsent]
    refine ⟨fun k => ?_, fun k => ?_, by rw [h]; rfl, by rw [h]; rfl⟩
    · by_cases hk : k = id
      · subst hk
        have hnew := (hset k).trans (if_pos rfl)
        rw [waiting_of_lane hl, waiting_of_lane hnew, hq]
        simp
      · simpa [Ne.symm hk] using (waiting_congr ((hset k).trans (if_neg hk))).symm
    · by_cases hk : k = id
      · subst hk
        have hnew := (hset k).trans (if_pos rfl)
        rw [flying_of_lane hl, flying_of_lane hnew]
        simp [Lane.flying, hf]
      · simpa [Ne.symm hk] using flying_congr ((hset k).trans (if_neg hk))

theorem Consistent.attempt (hs : s.Consistent) (hsome : 0 < s.order.length)
    (hroom : s.inFlight < maxInFlight) : s.attempt.1.Consistent := by
  have hc : (s.cursor + 1) % s.order.length < max 1 s.order.length := by
    have := Nat.mod_lt (s.cursor + 1) hsome
    omega
  rcases attempt_cases s with h | ⟨id, lane, pending, rest, hl, hf, hq, ⟨deficit, h⟩ | ⟨deficit, h⟩⟩
  · rw [h]
    exact ⟨hs.order, hs.nodup, hc, hs.bytes, hs.commands, hs.inFlight, hs.capacity⟩
  · rw [h]
    exact hs.setLane { lane with deficit } hl hc rfl rfl rfl hs.capacity
  · rw [h]
    apply hs.setLane _ hl hc
    · simp [Lane.bytes, hq]
      ring
    · simp [hq]
    · simp [Lane.flying, hf]
    · omega

/-- The attempts of one pump. -/
theorem attempts_served (n : ℕ) (s : FairWorkerScheduler κ α) :
    Served s (attempts n s).1 (attempts n s).2 := by
  induction n generalizing s with
  | zero => exact Served.refl
  | succ n ih =>
    unfold attempts
    split
    · exact (attempt_served s).trans (ih s.attempt.1)
    · exact Served.refl

theorem Consistent.attempts (n : ℕ) (hs : s.Consistent) (hsome : 0 < s.order.length) :
    (attempts n s).1.Consistent := by
  induction n generalizing s with
  | zero => exact hs
  | succ n ih =>
    unfold FairWorkerScheduler.attempts
    split
    · rename_i hroom
      exact ih (hs.attempt hsome hroom) (by rw [(attempt_served s).order]; exact hsome)
    · exact hs

/-- A pump does nothing, or its attempts, after which it queues another pump exactly if there is
a lane to serve and room to serve it. -/
theorem pump_cases (s : FairWorkerScheduler κ α) :
    (s.order.length = 0 ∨ s.inFlight ≥ maxInFlight) ∧ s.pump = (s, []) ∨
      0 < s.order.length ∧ ∃ served, attempts (s.order.length * 32) s = served ∧
        ((served.1.inFlight < maxInFlight ∧
            served.1.lanes.any (fun entry => entry.2.dispatchable) = true) ∧
            s.pump = (served.1.schedule, served.2) ∨
          ¬ (served.1.inFlight < maxInFlight ∧
            served.1.lanes.any (fun entry => entry.2.dispatchable) = true) ∧
            s.pump = served) := by
  dsimp only [pump]
  split
  · rename_i hidle
    exact .inl ⟨hidle, rfl⟩
  · rename_i hrun
    refine .inr ⟨by omega, _, rfl, ?_⟩
    split
    · rename_i hmore
      exact .inl ⟨hmore, rfl⟩
    · rename_i hdone
      exact .inr ⟨hdone, rfl⟩

theorem pump_served (s : FairWorkerScheduler κ α) :
    ∃ t, Served s t s.pump.2 ∧ (s.pump.1 = t ∨ s.pump.1 = t.schedule) := by
  rcases pump_cases s with ⟨-, h⟩ | ⟨-, served, rfl, ⟨-, h⟩ | ⟨-, h⟩⟩ <;> rw [h]
  · exact ⟨s, Served.refl, .inl rfl⟩
  · exact ⟨_, attempts_served _ s, .inr rfl⟩
  · exact ⟨_, attempts_served _ s, .inl rfl⟩

theorem Consistent.schedule (hs : s.Consistent) : s.schedule.Consistent :=
  ⟨hs.order, hs.nodup, hs.cursor, hs.bytes, hs.commands, hs.inFlight, hs.capacity⟩

theorem Consistent.pump (hs : s.Consistent) : s.pump.1.Consistent := by
  rcases pump_cases s with ⟨-, h⟩ | ⟨hsome, served, rfl, ⟨-, h⟩ | ⟨-, h⟩⟩ <;> rw [h]
  · exact hs
  · exact (hs.attempts _ hsome).schedule
  · exact hs.attempts _ hsome

/-- A pump that leaves a lane to serve and room to serve it queues another pump. -/
theorem not_stalled_pump (hs : s.Consistent) : ¬ s.pump.1.Stalled := by
  rcases pump_cases s with ⟨hidle, h⟩ | ⟨-, served, rfl, ⟨-, h⟩ | ⟨hdone, h⟩⟩ <;> rw [h]
  · rintro ⟨hroom, -, id, lane, hl, -⟩
    rcases hidle with hempty | hfull
    · have hmem := mem_lanes_of_lane hl
      have hnone : s.lanes = [] := by
        rw [hs.order, List.length_map] at hempty
        exact List.eq_nil_of_length_eq_zero hempty
      simp [hnone] at hmem
    · exact absurd hroom (not_lt.mpr hfull)
  · rintro ⟨-, hsch, -⟩
    cases hsch
  · rintro ⟨hroom, -, id, lane, hl, hd⟩
    exact hdone ⟨hroom, List.any_eq_true.mpr ⟨(id, lane), mem_lanes_of_lane hl, hd⟩⟩

end Pump
end FairWorkerScheduler
end PiDeck.Worker
