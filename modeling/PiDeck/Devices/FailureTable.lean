import Mathlib
import PiDeck.Devices.Service
import PiDeck.Transition.Sharing

/-! The tables in memory and the queues that say which of their keys is the oldest. Whatever calls
are under way, every key of a table is in its queue, so the loops that evict come to an end. -/
namespace PiDeck.Devices
open PiDeck.Collections PiDeck.Server PiDeck.Transition

/-! ### The loop that evicts failures -/

namespace Ephemeral

/-- One turn of the loop: the oldest key goes. With an empty queue a turn does nothing. -/
def evictFailure (ephemeral : Ephemeral) : Ephemeral :=
  match ephemeral.failureOrder with
  | [] => ephemeral
  | oldest :: order =>
    { ephemeral with failures := ephemeral.failures.shiftRemove oldest, failureOrder := order }

/-- The loop as it is written. It gives nothing when the turns do not suffice. -/
def evictionLoop : ℕ → Ephemeral → Option Ephemeral
  | 0, ephemeral => if maxFailureKeys < ephemeral.failures.length then none else some ephemeral
  | turns + 1, ephemeral =>
    if maxFailureKeys < ephemeral.failures.length then evictionLoop turns ephemeral.evictFailure
    else some ephemeral

/-- The state in which the loop of `recordFailure` begins. -/
def pushFailure (ephemeral : Ephemeral) (key : String) (now : ℕ) : Ephemeral :=
  { ephemeral with
    failures := ephemeral.failures.insert key ((ephemeral.failures.get? key).getD [] ++ [now])
    failureOrder := ephemeral.failureOrder ++ [key] }

end Ephemeral

/-! ### Keys and their queues -/

section Covered
variable {ν : Type} {map : IndexMap String ν} {order : List String} {limit : ℕ} {key : String}
  {value : ν}

/-- Every key is in the queue. -/
def Covered (map : IndexMap String ν) (order : List String) : Prop := ∀ key ∈ map.keys, key ∈ order

theorem covered_empty : Covered (IndexMap.empty : IndexMap String ν) [] := fun _ h => h

theorem Covered.insert (h : Covered map order) : Covered (map.insert key value) (order ++ [key]) := by
  intro other hother
  obtain ⟨v, hv⟩ := IndexMap.mem_keys.mp hother
  rcases IndexMap.mem_of_mem_insert hv with hold | hnew
  · exact List.mem_append_left _ (h other (IndexMap.mem_keys.mpr ⟨v, hold⟩))
  · obtain ⟨rfl, -⟩ := Prod.mk.inj hnew
    simp

theorem Covered.retain (h : Covered map order) (p : String → ν → Bool) :
    Covered (map.retain p) order := by
  intro other hother
  obtain ⟨v, hv⟩ := IndexMap.mem_keys.mp hother
  exact h other (IndexMap.mem_keys.mpr ⟨v, (IndexMap.mem_retain.mp hv).1⟩)

theorem Covered.shiftRemove (h : Covered map order) (key : String) :
    Covered (map.shiftRemove key) order := h.retain _

theorem Covered.mapValues (h : Covered map order) (f : ν → ν) : Covered (map.mapValues f) order := by
  intro other hother
  refine h other ?_
  simpa only [IndexMap.keys, IndexMap.mapValues, List.map_map, Function.comp_def] using hother

/-- The key that leaves the queue leaves the map as well. -/
theorem Covered.tail {oldest : String} (h : Covered map (oldest :: order)) :
    Covered (map.shiftRemove oldest) order := by
  intro other hother
  obtain ⟨v, hv⟩ := IndexMap.mem_keys.mp hother
  obtain ⟨hmem, hne⟩ := IndexMap.mem_shiftRemove.mp hv
  exact (List.mem_cons.mp (h other (IndexMap.mem_keys.mpr ⟨v, hmem⟩))).resolve_left hne

theorem Covered.evict (h : Covered map order) :
    Covered (Devices.evict limit map order).1 (Devices.evict limit map order).2 := by
  induction order generalizing map with
  | nil => exact h
  | cons oldest order ih =>
    rw [Devices.evict]
    split
    · exact ih h.tail
    · exact h

/-- A map whose queue is empty is empty. -/
theorem Covered.length_eq_zero (h : Covered map []) : map.length = 0 := by
  rw [IndexMap.length, List.length_eq_zero_iff]
  refine List.eq_nil_iff_forall_not_mem.mpr fun e he => ?_
  exact absurd (h e.1 (IndexMap.mem_keys.mpr ⟨e.2, he⟩)) List.not_mem_nil

theorem Covered.length_evict (h : Covered map order) :
    (Devices.evict limit map order).1.length ≤ limit := by
  induction order generalizing map with
  | nil =>
    rw [Devices.evict, h.length_eq_zero]
    exact Nat.zero_le limit
  | cons oldest order ih =>
    rw [Devices.evict]
    split
    next => exact ih h.tail
    next hroom => exact Nat.le_of_not_lt hroom

end Covered

namespace Ephemeral
variable {ephemeral : Ephemeral}

theorem addFailure_eq (key : String) (now : ℕ) :
    ephemeral.addFailure key now = (ephemeral.pushFailure key now).evictFailures := rfl

/-- Where every key is in the queue, the loop ends after at most as many turns as the queue is long,
with the map within its bound. -/
theorem evictionLoop_ends (h : Covered ephemeral.failures ephemeral.failureOrder) :
    evictionLoop ephemeral.failureOrder.length ephemeral = some ephemeral.evictFailures := by
  obtain ⟨challenges, challengeOrder, sessions, sessionOrder, failures, order⟩ := ephemeral
  induction order generalizing failures with
  | nil =>
    have hlength := h.length_eq_zero
    simp [evictionLoop, evictFailures, evict, hlength]
  | cons oldest order ih =>
    rw [List.length_cons, evictionLoop]
    split
    next hfull =>
      have hrest := ih (failures.shiftRemove oldest) h.tail
      simp only [evictFailures] at hrest ⊢
      rw [evict, if_pos hfull]
      exact hrest
    next hroom => simp [evictFailures, evict, hroom]

/-- Every table has all its keys in its queue. -/
structure Queued (ephemeral : Ephemeral) : Prop where
  challenges : Covered ephemeral.challenges ephemeral.challengeOrder
  sessions : Covered ephemeral.sessions ephemeral.sessionOrder
  failures : Covered ephemeral.failures ephemeral.failureOrder

theorem Queued.cleanup (h : ephemeral.Queued) (now : ℕ) : (ephemeral.cleanup now).Queued :=
  ⟨h.challenges.retain _, h.sessions.retain _, (h.failures.mapValues _).retain _⟩

theorem Queued.insertChallenge (h : ephemeral.Queued) (nonce : String) (challenge : PendingChallenge) :
    (ephemeral.insertChallenge nonce challenge).Queued :=
  ⟨h.challenges.insert.evict, h.sessions, h.failures⟩

theorem Queued.insertSession (h : ephemeral.Queued) (token : String) (session : Session) :
    (ephemeral.insertSession token session).Queued :=
  ⟨h.challenges, h.sessions.insert.evict, h.failures⟩

theorem Queued.pushFailure (h : ephemeral.Queued) (key : String) (now : ℕ) :
    (ephemeral.pushFailure key now).Queued :=
  ⟨h.challenges, h.sessions, h.failures.insert⟩

theorem Queued.addFailure (h : ephemeral.Queued) (key : String) (now : ℕ) :
    (ephemeral.addFailure key now).Queued :=
  ⟨h.challenges, h.sessions, (h.pushFailure key now).failures.evict⟩

end Ephemeral

/-! ### The calls -/

/-- A request to the service. -/
inductive Invocation
  | createPairingCode
  | pair (input : PairDevice)
  | list
  | revoke (deviceId : String)
  | challenge (deviceId : String)
  | authenticate (input : AuthenticateDevice)
  | session (token : String)
  | rotate (token : String)

/-- The call that a request makes. Its result goes to the client only. -/
def Invocation.call (lib : Library) : Invocation → DeviceCall Unit
  | createPairingCode => Devices.createPairingCode lib >>= fun _ => pure ()
  | pair input => Devices.pair lib input >>= fun _ => pure ()
  | list => Devices.list >>= fun _ => pure ()
  | revoke deviceId => Devices.revoke deviceId >>= fun _ => pure ()
  | challenge deviceId => Devices.challenge lib deviceId >>= fun _ => pure ()
  | authenticate input => Devices.authenticate lib input >>= fun _ => pure ()
  | session token => Devices.session token >>= fun _ => pure ()
  | rotate token => Devices.rotate lib token >>= fun _ => pure ()

/-- The service: its state and the calls under way. -/
abbrev service (lib : Library) : Machine (Shared DeviceAuth Surroundings DeviceAuthError Unit)
    (Turn Invocation Surroundings) := sharing (Invocation.call lib)

/-- The state of a service that starts on a database. -/
def DeviceAuth.started (database : Database) : DeviceAuth :=
  ⟨database, ⟨IndexMap.empty, [], IndexMap.empty, [], IndexMap.empty, []⟩⟩

def KeepsQueued (s t : DeviceAuth) : Prop := s.ephemeral.Queued → t.ephemeral.Queued

section Steps
variable {α : Type} {lib : Library}

theorem locked_keepsQueued {f : Surroundings → Ephemeral → α × Ephemeral}
    (h : ∀ e ephemeral, ephemeral.Queued → (f e ephemeral).2.Queued) :
    (locked f).Moves KeepsQueued := Call.moves_atomic fun e s => h e s.ephemeral

theorem cleaned_keepsQueued {f : Surroundings → Ephemeral → α × Ephemeral}
    (h : ∀ e ephemeral, ephemeral.Queued → (f e ephemeral).2.Queued) :
    (cleaned f).Moves KeepsQueued :=
  locked_keepsQueued fun e _ hqueued => h e _ (hqueued.cleanup e.instant)

theorem withConnection_keepsQueued
    (f : Surroundings → Database → Except DatabaseError α × Database) :
    (withConnection f).Moves KeepsQueued := by
  refine Call.moves_atomic fun e s hqueued => ?_
  cases e.database with
  | error text => exact hqueued
  | ok =>
    cases hf : f e s.database with
    | mk result db => cases result <;> simpa only [hf] using hqueued

theorem observe_keepsQueued (f : Surroundings → α) :
    (Call.observe f : DeviceCall α).Moves KeepsQueued := Call.moves_atomic fun _ _ h => h

theorem randomBytes_keepsQueued (n : ℕ) : (randomBytes n).Moves KeepsQueued := by
  refine Call.moves_atomic fun e s hqueued => ?_
  cases e.random n <;> exact hqueued

theorem recordFailure_keepsQueued (key : String) : (recordFailure key).Moves KeepsQueued :=
  cleaned_keepsQueued fun e _ hqueued => hqueued.addFailure key e.instant

theorem failed_keepsQueued (key : String) (error : DeviceAuthError) :
    (failed key error : DeviceCall α).Moves KeepsQueued :=
  Call.moves_bind (recordFailure_keepsQueued key) fun _ => Call.moves_fail error

theorem assertNotRateLimited_keepsQueued (key : String) :
    (assertNotRateLimited key).Moves KeepsQueued := by
  unfold assertNotRateLimited
  refine Call.moves_bind (cleaned_keepsQueued fun _ _ h => h) fun limited => ?_
  cases limited
  · exact Call.moves_pure ()
  · exact Call.moves_fail _

end Steps

section Calls
variable {lib : Library}

theorem createPairingCode_keepsQueued : (createPairingCode lib).Moves KeepsQueued := by
  unfold createPairingCode
  refine Call.moves_bind (randomBytes_keepsQueued _) fun code => ?_
  refine Call.moves_bind (observe_keepsQueued _) fun expiresAt => ?_
  exact Call.moves_bind (withConnection_keepsQueued _) fun _ => Call.moves_pure _

theorem findPairing_keepsQueued (input : PairDevice) :
    (findPairing lib input).Moves KeepsQueued := by
  unfold findPairing
  refine Call.moves_bind (assertNotRateLimited_keepsQueued _) fun _ => ?_
  refine Call.moves_ite (failed_keepsQueued _ _) (Call.moves_bind ?_ fun _ => ?_)
  · exact Call.moves_ite (Call.moves_pure ()) (Call.moves_fail _)
  · refine Call.moves_ite (Call.moves_fail _) ?_
    refine Call.moves_bind (observe_keepsQueued _) fun now => ?_
    refine Call.moves_bind (withConnection_keepsQueued _) fun pairingId => ?_
    cases pairingId with
    | none => exact failed_keepsQueued _ _
    | some pairingId => exact Call.moves_ite (Call.moves_fail _) (Call.moves_pure _)

theorem pair_keepsQueued (input : PairDevice) : (pair lib input).Moves KeepsQueued := by
  unfold pair
  refine Call.moves_bind (findPairing_keepsQueued input) fun found => ?_
  refine Call.moves_bind ?_ fun _ => ?_
  · refine Call.moves_bind (withConnection_keepsQueued _) fun consumed => ?_
    exact Call.moves_ite (failed_keepsQueued _ _) (Call.moves_pure ())
  · refine Call.moves_bind (observe_keepsQueued _) fun fresh => ?_
    refine Call.moves_bind (observe_keepsQueued _) fun createdAt => ?_
    refine Call.moves_bind (withConnection_keepsQueued _) fun _ => ?_
    exact Call.moves_bind (withConnection_keepsQueued _) fun _ => Call.moves_pure _

theorem revoke_keepsQueued (deviceId : String) : (revoke deviceId).Moves KeepsQueued := by
  unfold revoke
  refine Call.moves_bind (withConnection_keepsQueued _) fun changed => ?_
  refine Call.moves_bind (locked_keepsQueued fun _ _ h => ?_) fun _ => ?_
  · exact ⟨h.challenges, h.sessions.retain _, h.failures⟩
  · refine Call.moves_ite ?_ (Call.moves_pure _)
    exact Call.moves_bind (withConnection_keepsQueued _) fun _ => Call.moves_pure _

theorem challenge_keepsQueued (deviceId : String) : (challenge lib deviceId).Moves KeepsQueued := by
  unfold challenge
  refine Call.moves_ite (Call.moves_fail _) ?_
  refine Call.moves_bind (withConnection_keepsQueued _) fun row => ?_
  cases row with
  | none => exact Call.moves_fail _
  | some row =>
    refine Call.moves_ite (Call.moves_fail _) ?_
    refine Call.moves_bind (randomBytes_keepsQueued _) fun bytes => ?_
    refine Call.moves_bind (observe_keepsQueued _) fun now => ?_
    refine Call.moves_bind (cleaned_keepsQueued fun _ _ h => h.insertChallenge _ _) fun _ => ?_
    exact Call.moves_bind (observe_keepsQueued _) fun _ => Call.moves_pure _

/-- The failures of a device that has signed in are forgotten; its entry in the queue stays. -/
theorem authenticate_keepsQueued (input : AuthenticateDevice) :
    (authenticate lib input).Moves KeepsQueued := by
  unfold authenticate
  refine Call.moves_ite (failed_keepsQueued _ _) ?_
  refine Call.moves_bind (assertNotRateLimited_keepsQueued _) fun _ => ?_
  refine Call.moves_bind (cleaned_keepsQueued fun _ _ h => ?_) fun found => ?_
  · exact ⟨h.challenges.shiftRemove _, h.sessions, h.failures⟩
  refine Call.moves_bind (observe_keepsQueued _) fun now => ?_
  cases found.filter _ with
  | none => exact failed_keepsQueued _ _
  | some _ =>
    refine Call.moves_bind (withConnection_keepsQueued _) fun row => ?_
    cases row with
    | none => exact failed_keepsQueued _ _
    | some row =>
      refine Call.moves_ite (failed_keepsQueued _ _) ?_
      refine Call.moves_bind (randomBytes_keepsQueued _) fun bytes => ?_
      refine Call.moves_bind (observe_keepsQueued _) fun started => ?_
      refine Call.moves_bind (locked_keepsQueued fun _ _ h => ?_) fun _ => ?_
      · refine Ephemeral.Queued.insertSession ?_ _ _
        exact ⟨h.challenges, h.sessions, h.failures.shiftRemove _⟩
      · refine Call.moves_bind (withConnection_keepsQueued _) fun _ => ?_
        exact Call.moves_bind (observe_keepsQueued _) fun _ => Call.moves_pure _

theorem session_keepsQueued (token : String) : (session token).Moves KeepsQueued := by
  unfold session
  refine Call.moves_bind (cleaned_keepsQueued fun _ _ h => h) fun found => ?_
  cases found with
  | none => exact Call.moves_pure _
  | some found =>
    refine Call.moves_bind (withConnection_keepsQueued _) fun row => ?_
    cases row with
    | none => exact Call.moves_pure _
    | some row =>
      refine Call.moves_ite (Call.moves_pure _) ?_
      exact Call.moves_bind (withConnection_keepsQueued _) fun _ => Call.moves_pure _

theorem rotate_keepsQueued (token : String) : (rotate lib token).Moves KeepsQueued := by
  unfold rotate
  refine Call.moves_bind (cleaned_keepsQueued fun _ _ h => ?_) fun current => ?_
  · exact ⟨h.challenges, h.sessions.shiftRemove _, h.failures⟩
  cases current with
  | none => exact Call.moves_fail _
  | some current =>
    refine Call.moves_bind (withConnection_keepsQueued _) fun row => ?_
    cases row with
    | none => exact Call.moves_fail _
    | some row =>
      refine Call.moves_ite (Call.moves_fail _) ?_
      refine Call.moves_bind (randomBytes_keepsQueued _) fun bytes => ?_
      refine Call.moves_bind (locked_keepsQueued fun _ _ h => h.insertSession _ _) fun _ => ?_
      refine Call.moves_bind (withConnection_keepsQueued _) fun _ => ?_
      refine Call.moves_bind (withConnection_keepsQueued _) fun _ => ?_
      exact Call.moves_bind (observe_keepsQueued _) fun _ => Call.moves_pure _

theorem call_keepsQueued (request : Invocation) : (request.call lib).Moves KeepsQueued := by
  cases request with
  | createPairingCode => exact Call.moves_bind createPairingCode_keepsQueued fun _ => Call.moves_pure ()
  | pair input => exact Call.moves_bind (pair_keepsQueued input) fun _ => Call.moves_pure ()
  | list => exact Call.moves_bind (withConnection_keepsQueued _) fun _ => Call.moves_pure ()
  | revoke deviceId => exact Call.moves_bind (revoke_keepsQueued deviceId) fun _ => Call.moves_pure ()
  | challenge deviceId => exact Call.moves_bind (challenge_keepsQueued deviceId) fun _ => Call.moves_pure ()
  | authenticate input => exact Call.moves_bind (authenticate_keepsQueued input) fun _ => Call.moves_pure ()
  | session token => exact Call.moves_bind (session_keepsQueued token) fun _ => Call.moves_pure ()
  | rotate token => exact Call.moves_bind (rotate_keepsQueued token) fun _ => Call.moves_pure ()

end Calls

/-! ### Every reachable state -/

variable {lib : Library} {database : Database}
  {s : Shared DeviceAuth Surroundings DeviceAuthError Unit} {turns : List (Turn Invocation Surroundings)}

theorem queued_of_run (h : (service lib).Run ⟨.started database, []⟩ turns s) :
    s.state.ephemeral.Queued :=
  sharing_invariant (I := fun s => s.ephemeral.Queued) call_keepsQueued
    ⟨covered_empty, covered_empty, covered_empty⟩ h

/-- In every state that the calls reach together each key of the failures is in their queue, and the
loop of a recorded failure, for whatever key and at whatever time, ends in the state that
`recordFailure` leaves, with the map within its bound. -/
theorem recordFailure_terminates (h : (service lib).Run ⟨.started database, []⟩ turns s) :
    Covered s.state.ephemeral.failures s.state.ephemeral.failureOrder ∧
      ∀ key now, ∃ n, ∃ result : Ephemeral,
        Ephemeral.evictionLoop n ((s.state.ephemeral.cleanup now).pushFailure key now) =
            some result ∧
          result = (s.state.ephemeral.cleanup now).addFailure key now ∧
          result.failures.length ≤ maxFailureKeys := by
  have hqueued := queued_of_run h
  refine ⟨hqueued.failures, fun key now => ?_⟩
  have hpushed := ((hqueued.cleanup now).pushFailure key now).failures
  refine ⟨_, _, Ephemeral.evictionLoop_ends hpushed, ?_, hpushed.length_evict⟩
  rw [Ephemeral.addFailure_eq]

/-- The failure of an invalid payload is recorded, and the next recorded failure ends. -/
theorem recordFailure_terminates_invalid : ∃ (s : Shared DeviceAuth Surroundings DeviceAuthError Unit),
    s.state.ephemeral.failureOrder = ["invalid-device"] ∧
      ∃ n, ∃ result : Ephemeral,
        Ephemeral.evictionLoop n ((s.state.ephemeral.cleanup 1).pushFailure "pair" 1) = some result ∧
          result.failures.length ≤ maxFailureKeys := by
  have hrun : (service ⟨id, fun _ => "", fun _ => none, fun _ => "", fun _ => none,
      fun _ _ _ => false⟩).Run ⟨.started ⟨IndexMap.empty, IndexMap.empty, []⟩, []⟩
      [.begin (.authenticate ⟨"", "", ""⟩),
        .take 0 ⟨"", fun _ => "", 0, fun _ => none, "", .ok ()⟩] _ :=
    .cons trivial rfl (.cons trivial rfl (.nil _))
  obtain ⟨-, hends⟩ := recordFailure_terminates hrun
  obtain ⟨n, result, hloop, -, hlength⟩ := hends "pair" 1
  exact ⟨_, by decide, n, result, hloop, hlength⟩

end PiDeck.Devices
