import Mathlib
import PiDeck.Worker.Bookkeeping

/-! What the scheduler owes its terminals, over whole runs. A ledger for each terminal records what
was accepted and what was sent since the terminal was last cancelled, and every lane is the part of
the ledger that is still to come. -/
namespace PiDeck.Worker
open PiDeck.Collections PiDeck.Transition

variable {κ α : Type*}

/-- What a terminal has been promised and given since it was last cancelled. -/
structure Ledger (α : Type*) where
  accepted : List α
  sent : List α
  completed : ℕ
  deriving DecidableEq

def Ledger.blank : Ledger α := ⟨[], [], 0⟩

/-- The scheduler with the ledgers of its terminals. -/
structure Service (κ α : Type*) where
  scheduler : FairWorkerScheduler κ α
  ledger : String → Ledger α

inductive ServiceStep (κ α : Type*)
  | enqueue (terminalId : String) (value : α) (bytes : ℕ) (priority : WorkerPriority) (key : κ)
  | setPriority (terminalId : String) (priority : WorkerPriority)
  | complete (terminalId : String) (key : κ)
  | cancel (terminalId : String)
  | reset
  | pump

namespace Service

def start : Service κ α := ⟨.empty, fun _ => .blank⟩

def setLedger (s : Service κ α) (scheduler : FairWorkerScheduler κ α) (id : String)
    (ledger : Ledger α) : Service κ α := ⟨scheduler, Function.update s.ledger id ledger⟩

/-- The commands for one terminal, of those a pump sends. -/
def sentTo (sent : List (String × α)) (id : String) : List α :=
  (sent.filter fun c => c.1 = id).map Prod.snd

/-- An exception of `enqueue` reaches its caller and changes nothing. -/
def step [DecidableEq κ] (s : Service κ α) : ServiceStep κ α → Option (Service κ α)
  | .enqueue id value bytes priority key =>
    match s.scheduler.enqueue id value bytes priority key with
    | none => some s
    | some scheduler =>
      some (s.setLedger scheduler id
        { s.ledger id with accepted := (s.ledger id).accepted ++ [value] })
  | .setPriority id priority => some { s with scheduler := s.scheduler.setPriority id priority }
  | .complete id key =>
    let done := (s.scheduler.lane id).any fun lane => decide (lane.inFlightKey = some key)
    some (s.setLedger (s.scheduler.complete id key) id
      { s.ledger id with completed := (s.ledger id).completed + if done then 1 else 0 })
  | .cancel id => some (s.setLedger (s.scheduler.cancel id) id .blank)
  | .reset => some ⟨s.scheduler.reset, fun _ => .blank⟩
  | .pump =>
    if s.scheduler.scheduled then
      let pumped := s.scheduler.microtask
      some ⟨pumped.1, fun id =>
        { s.ledger id with sent := (s.ledger id).sent ++ sentTo pumped.2 id }⟩
    else none

def machine [DecidableEq κ] : Machine (Service κ α) (ServiceStep κ α) := ⟨step⟩

/-- The scheduler keeps its books: its counters are its lanes', and what was sent to a terminal and
what waits for it are what was accepted for it, in that order, with at most the last command sent
not completed. -/
structure Sound (s : Service κ α) : Prop where
  consistent : s.scheduler.Consistent
  inOrder : ∀ id, (s.ledger id).accepted = (s.ledger id).sent ++ s.scheduler.waiting id
  oneFlying : ∀ id, (s.ledger id).sent.length = (s.ledger id).completed + s.scheduler.flying id

variable {s t : Service κ α} {a : ServiceStep κ α} {as : List (ServiceStep κ α)} {id : String}

theorem sound_start : (start : Service κ α).Sound :=
  ⟨FairWorkerScheduler.consistent_empty, fun _ => rfl, fun _ => rfl⟩

/-- A step that changes the books of one terminal. -/
theorem Sound.setLedger (h : s.Sound) {scheduler : FairWorkerScheduler κ α} {ledger : Ledger α}
    (hc : scheduler.Consistent)
    (hw : ∀ k, k ≠ id → scheduler.waiting k = s.scheduler.waiting k)
    (hf : ∀ k, k ≠ id → scheduler.flying k = s.scheduler.flying k)
    (hin : ledger.accepted = ledger.sent ++ scheduler.waiting id)
    (hone : ledger.sent.length = ledger.completed + scheduler.flying id) :
    (s.setLedger scheduler id ledger).Sound := by
  refine ⟨hc, fun k => ?_, fun k => ?_⟩
  · by_cases hk : k = id
    · subst hk
      simpa [Service.setLedger] using hin
    · simpa [Service.setLedger, hk, hw k hk] using h.inOrder k
  · by_cases hk : k = id
    · subst hk
      simpa [Service.setLedger] using hone
    · simpa [Service.setLedger, hk, hf k hk] using h.oneFlying k

theorem not_stalled_start : ¬ (start : Service κ α).scheduler.Stalled := by
  rintro ⟨-, -, id, lane, hl, -⟩
  cases hl

/-- A cancel does not take the eighth command out of flight while another lane waits for room and
no pump is due. -/
def Wakes (s : Service κ α) : ServiceStep κ α → Prop
  | .cancel id =>
    ¬ (s.scheduler.inFlight = maxInFlight ∧ s.scheduler.scheduled = false ∧
      s.scheduler.flying id = 1 ∧
      ∃ k lane, k ≠ id ∧ s.scheduler.lane k = some lane ∧ lane.dispatchable = true)
  | _ => True

theorem stalled_cancel (hc : s.scheduler.Consistent) (hs : ¬ s.scheduler.Stalled) :
    (s.scheduler.cancel id).Stalled ↔ ¬ s.Wakes (.cancel id) := by
  have hl := FairWorkerScheduler.lane_cancel s.scheduler id
  have hf : s.scheduler.flying id = 0 ∨ s.scheduler.flying id = 1 := by
    unfold FairWorkerScheduler.flying
    split
    · unfold Lane.flying
      split <;> simp
    · exact .inl rfl
  simp only [Wakes, not_not]
  constructor
  · rintro ⟨hroom, hsch, k, lane, hk, hd⟩
    rw [FairWorkerScheduler.scheduled_cancel] at hsch
    rw [FairWorkerScheduler.inFlight_cancel] at hroom
    have hne : k ≠ id := by
      rintro rfl
      rw [hl, if_pos rfl] at hk
      cases hk
    rw [hl, if_neg hne] at hk
    have hfull : ¬ s.scheduler.inFlight < maxInFlight :=
      fun hroom => hs ⟨hroom, hsch, k, lane, hk, hd⟩
    have hcap := hc.capacity
    exact ⟨by omega, hsch, by omega, k, lane, hne, hk, hd⟩
  · rintro ⟨hfull, hsch, hfly, k, lane, hne, hk, hd⟩
    refine ⟨?_, ?_, k, lane, ?_, hd⟩
    · rw [FairWorkerScheduler.inFlight_cancel]
      omega
    · rw [FairWorkerScheduler.scheduled_cancel]
      exact hsch
    · rw [hl, if_neg hne]
      exact hk

variable [DecidableEq κ]

theorem sound_step (h : s.Sound) (hs : machine.step s a = some t) : t.Sound := by
  cases a with
  | enqueue id value bytes priority key =>
    cases he : s.scheduler.enqueue id value bytes priority key with
    | none =>
      obtain rfl : s = t := by simpa [machine, step, he] using hs
      exact h
    | some scheduler =>
      obtain rfl : s.setLedger scheduler id
          { s.ledger id with accepted := (s.ledger id).accepted ++ [value] } = t := by
        simpa [machine, step, he] using hs
      obtain ⟨hw, hf⟩ := FairWorkerScheduler.enqueue_waiting he
      have hk := fun k (hk : k ≠ id) => FairWorkerScheduler.lane_enqueue he hk
      apply h.setLedger (h.consistent.enqueue he)
      · exact fun k hne => FairWorkerScheduler.waiting_congr (hk k hne)
      · exact fun k hne => FairWorkerScheduler.flying_congr (hk k hne)
      · simp [h.inOrder id, hw]
      · simp [h.oneFlying id, hf]
  | setPriority id priority =>
    obtain rfl : { s with scheduler := s.scheduler.setPriority id priority } = t := by
      simpa [machine, step] using hs
    refine ⟨h.consistent.setPriority, fun k => ?_, fun k => ?_⟩
    · rw [FairWorkerScheduler.setPriority_waiting.1]
      exact h.inOrder k
    · rw [FairWorkerScheduler.setPriority_waiting.2]
      exact h.oneFlying k
  | complete id key =>
    obtain rfl : s.setLedger (s.scheduler.complete id key) id
        { s.ledger id with completed := (s.ledger id).completed +
          if (s.scheduler.lane id).any (fun lane => decide (lane.inFlightKey = some key)) then 1
          else 0 } = t := by
      simpa [machine, step] using hs
    have hc := fun k => FairWorkerScheduler.complete_waiting s.scheduler id k key
    apply h.setLedger h.consistent.complete
    · exact fun k _ => (hc k).1
    · intro k hk
      have hf := (hc k).2
      rwa [if_neg fun h => hk h.1, Nat.add_zero] at hf
    · rw [(hc id).1]
      exact h.inOrder id
    · have hf := (hc id).2
      have hone := h.oneFlying id
      simp only [true_and] at hf ⊢
      omega
  | cancel id =>
    obtain rfl : s.setLedger (s.scheduler.cancel id) id .blank = t := by
      simpa [machine, step] using hs
    have hl := FairWorkerScheduler.lane_cancel s.scheduler id
    have hid := (hl id).trans (if_pos rfl)
    apply h.setLedger h.consistent.cancel
    · exact fun k hk => FairWorkerScheduler.waiting_congr ((hl k).trans (if_neg hk))
    · exact fun k hk => FairWorkerScheduler.flying_congr ((hl k).trans (if_neg hk))
    · rw [FairWorkerScheduler.waiting_of_none hid]
      rfl
    · rw [FairWorkerScheduler.flying_of_none hid]
      rfl
  | reset =>
    obtain rfl : (⟨s.scheduler.reset, fun _ => .blank⟩ : Service κ α) = t := by
      simpa [machine, step] using hs
    refine ⟨?_, fun k => rfl, fun k => rfl⟩
    exact ⟨rfl, .nil, Nat.one_pos, rfl, rfl, rfl, by simp [FairWorkerScheduler.reset]⟩
  | pump =>
    by_cases hsch : s.scheduler.scheduled = true
    · obtain rfl : (⟨s.scheduler.microtask.1, fun id => { s.ledger id with
          sent := (s.ledger id).sent ++ sentTo s.scheduler.microtask.2 id }⟩ : Service κ α) = t := by
        simpa [machine, step, hsch] using hs
      have hc := h.consistent
      have hrun : ({ s.scheduler with scheduled := false } : FairWorkerScheduler κ α).Consistent :=
        ⟨hc.order, hc.nodup, hc.cursor, hc.bytes, hc.commands, hc.inFlight, hc.capacity⟩
      obtain ⟨u, hserved, hu⟩ :=
        FairWorkerScheduler.pump_served { s.scheduler with scheduled := false }
      have hlane : ∀ k, s.scheduler.microtask.1.lane k = u.lane k := by
        intro k
        rcases hu with hu | hu
        · exact congrArg (fun s => FairWorkerScheduler.lane s k) hu
        · exact (congrArg (fun s => FairWorkerScheduler.lane s k) hu).trans rfl
      refine ⟨hrun.pump, fun k => ?_, fun k => ?_⟩
      · have hw : s.scheduler.waiting k = sentTo s.scheduler.microtask.2 k ++ u.waiting k :=
          hserved.waiting k
        have hin := h.inOrder k
        rw [hw] at hin
        rw [FairWorkerScheduler.waiting_congr (hlane k), List.append_assoc]
        exact hin
      · have hf : u.flying k = s.scheduler.flying k + (sentTo s.scheduler.microtask.2 k).length := by
          rw [sentTo, List.length_map]
          exact hserved.flying k
        have hone := h.oneFlying k
        rw [FairWorkerScheduler.flying_congr (hlane k), List.length_append]
        change _ = (s.ledger k).completed + _
        omega
    · simp [machine, step, hsch] at hs

theorem sound_run {C : Service κ α → ServiceStep κ α → Prop} (h : machine.Path C s as t)
    (hs : s.Sound) : t.Sound :=
  h.invariant (fun _ _ _ hi _ h => sound_step hi h) hs

/-- From a scheduler that has not stalled, a step stalls it exactly if it is such a cancel. -/
theorem not_stalled_step (h : s.Sound) (hns : ¬ s.scheduler.Stalled)
    (hs : machine.step s a = some t) : ¬ t.scheduler.Stalled ↔ s.Wakes a := by
  cases a with
  | enqueue id value bytes priority key =>
    refine iff_of_true ?_ trivial
    cases he : s.scheduler.enqueue id value bytes priority key with
    | none =>
      obtain rfl : s = t := by simpa [machine, step, he] using hs
      exact hns
    | some scheduler =>
      obtain rfl : s.setLedger scheduler id
          { s.ledger id with accepted := (s.ledger id).accepted ++ [value] } = t := by
        simpa [machine, step, he] using hs
      rintro ⟨-, hsch, -⟩
      rw [Service.setLedger, FairWorkerScheduler.enqueue_scheduled he] at hsch
      cases hsch
  | setPriority id priority =>
    obtain rfl : { s with scheduler := s.scheduler.setPriority id priority } = t := by
      simpa [machine, step] using hs
    exact iff_of_true (fun hst => hns (FairWorkerScheduler.stalled_setPriority hst)) trivial
  | complete id key =>
    obtain rfl : s.setLedger (s.scheduler.complete id key) id
        { s.ledger id with completed := (s.ledger id).completed +
          if (s.scheduler.lane id).any (fun lane => decide (lane.inFlightKey = some key)) then 1
          else 0 } = t := by
      simpa [machine, step] using hs
    refine iff_of_true ?_ trivial
    rcases FairWorkerScheduler.complete_cases s.scheduler id key with ⟨h, -⟩ | ⟨lane, hl, hkey, -⟩
    · rw [Service.setLedger, h]
      exact hns
    · rintro ⟨-, hsch, -⟩
      rw [Service.setLedger, FairWorkerScheduler.complete_scheduled hl hkey] at hsch
      cases hsch
  | cancel id =>
    obtain rfl : s.setLedger (s.scheduler.cancel id) id .blank = t := by
      simpa [machine, step] using hs
    exact (not_congr (stalled_cancel h.consistent hns)).trans not_not
  | reset =>
    obtain rfl : (⟨s.scheduler.reset, fun _ => .blank⟩ : Service κ α) = t := by
      simpa [machine, step] using hs
    refine iff_of_true ?_ trivial
    rintro ⟨-, -, id, lane, hl, -⟩
    cases hl
  | pump =>
    refine iff_of_true ?_ trivial
    by_cases hsch : s.scheduler.scheduled = true
    · obtain rfl : (⟨s.scheduler.microtask.1, fun id => { s.ledger id with
          sent := (s.ledger id).sent ++ sentTo s.scheduler.microtask.2 id }⟩ : Service κ α) = t := by
        simpa [machine, step, hsch] using hs
      have hc := h.consistent
      have hrun : ({ s.scheduler with scheduled := false } : FairWorkerScheduler κ α).Consistent :=
        ⟨hc.order, hc.nodup, hc.cursor, hc.bytes, hc.commands, hc.inFlight, hc.capacity⟩
      exact FairWorkerScheduler.not_stalled_pump hrun
    · simp [machine, step, hsch] at hs

theorem not_stalled_run (h : machine.Path Wakes s as t) (hs : s.Sound)
    (hns : ¬ s.scheduler.Stalled) : t.Sound ∧ ¬ t.scheduler.Stalled :=
  h.invariant (I := fun s => s.Sound ∧ ¬ s.scheduler.Stalled)
    (fun _ _ _ hi hg h => ⟨sound_step hi.1 h, (not_stalled_step hi.1 hi.2 h).mpr hg⟩) ⟨hs, hns⟩

/-- In every run the books are kept, at most eight commands fly and each lane is served in order;
the scheduler stalls in no run whose cancels all wake it, and in such a run a step stalls it exactly
if it is a cancel that does not. -/
theorem scheduler_sound_and_awake (κ α : Type) [DecidableEq κ] :
    (∀ (as : List (ServiceStep κ α)) (t : Service κ α), machine.Run start as t → t.Sound) ∧
    (∀ (as : List (ServiceStep κ α)) (t : Service κ α), machine.Path Wakes start as t →
      ¬ t.scheduler.Stalled) ∧
    ∀ (as : List (ServiceStep κ α)) (t : Service κ α) (a : ServiceStep κ α) (u : Service κ α),
      machine.Path Wakes start as t → machine.step t a = some u →
        (¬ u.scheduler.Stalled ↔ t.Wakes a) := by
  refine ⟨fun as t h => sound_run h sound_start, fun as t h => ?_, fun as t a u h hstep => ?_⟩
  · exact (not_stalled_run h sound_start not_stalled_start).2
  · obtain ⟨hsound, hns⟩ := not_stalled_run h sound_start not_stalled_start
    exact not_stalled_step hsound hns hstep

/-- Nine terminals with a command each: eight are sent, and when one of the eight is cancelled the
ninth waits although a place is free. -/
def nineTerminals : List (ServiceStep ℕ ℕ) :=
  ["1", "2", "3", "4", "5", "6", "7", "8", "9"].map
    (fun id => .enqueue id 0 1 ⟨true, false⟩ 0) ++ [.pump, .cancel "1"]

theorem ninth_terminal_stalls :
    (machine.exec (fun _ _ => True) start nineTerminals).any (fun s =>
      decide (s.scheduler.inFlight = 7) && !s.scheduler.scheduled &&
        (s.scheduler.lane "9").any Lane.dispatchable) = true := by decide +kernel

end Service
end PiDeck.Worker
