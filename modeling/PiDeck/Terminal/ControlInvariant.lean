import Mathlib
import PiDeck.Terminal.Control
import PiDeck.Transition.Machine

/-! The invariant of the lease registry. It is proved for the few edits the operations are composed
of (expire, extend, admit, drop, promote), then for each operation, then for every run of calls. -/
namespace PiDeck.Terminal
open PiDeck.Collections PiDeck.Transition

/-- Each lease is filed under its own identifier, and a holder has at most one. -/
structure WellHeld (leases : LeaseMap) : Prop where
  key : ∀ e ∈ leases.entries, e.2.leaseId = e.1
  unique : ∀ e ∈ leases.entries, ∀ e' ∈ leases.entries, e.2.principalId = e'.2.principalId →
    e.2.connectionId = e'.2.connectionId → e = e'

/-- The primary writer is chosen among the writers, and there is one as soon as there are any. -/
structure Elected (primary : Option String) (writers : LeaseMap) : Prop where
  none_iff : primary = none ↔ writers.entries = []
  mem : ∀ id, primary = some id → id ∈ writers.keys

structure LeaseInvariant (state : TerminalControlState) : Prop where
  elected : Elected state.primaryWriterId state.writers
  writers : WellHeld state.writers
  observers : WellHeld state.observers
  generation : ∀ e ∈ state.writers.entries, e.2.leaseGeneration = state.leaseGeneration
  disjoint : ∀ id ∈ state.writers.keys, id ∉ state.observers.keys

theorem heldLeaseId_eq_none {leases : LeaseMap} {p c : String} :
    heldLeaseId leases p c = none ↔ ∀ e ∈ leases.entries, e.2.heldBy p c = false := by
  simp [heldLeaseId, IndexMap.values]

/-- Extending a lease changes its expiry only. -/
theorem exists_of_mem_extend {leases : LeaseMap} {id : String} {t : ℤ}
    {e : String × RuntimeTerminalLease} (he : e ∈ (leases.modify id (·.extendTo t)).entries) :
    ∃ lease, (e.1, lease) ∈ leases.entries ∧ e.2.leaseId = lease.leaseId ∧
      e.2.principalId = lease.principalId ∧ e.2.connectionId = lease.connectionId ∧
      e.2.leaseGeneration = lease.leaseGeneration ∧
      e.2 = if e.1 = id then lease.extendTo t else lease := by
  obtain ⟨lease, hl, heq⟩ := IndexMap.mem_modify.mp he
  refine ⟨lease, hl, ?_, ?_, ?_, ?_, heq⟩ <;> rw [heq] <;> split <;> rfl

theorem keys_subset {m n : LeaseMap} (h : ∀ e ∈ n.entries, e ∈ m.entries) {id : String}
    (hid : id ∈ n.keys) : id ∈ m.keys := by
  obtain ⟨lease, hl⟩ := IndexMap.mem_keys.mp hid
  exact IndexMap.mem_keys.mpr ⟨lease, h _ hl⟩

namespace WellHeld
variable {leases m n : LeaseMap}

theorem empty : WellHeld .empty := ⟨by simp, by simp⟩

theorem subset (hw : WellHeld m) (h : ∀ e ∈ n.entries, e ∈ m.entries) : WellHeld n where
  key e he := hw.key e (h e he)
  unique e he e' he' := hw.unique e (h e he) e' (h e' he')

/-- A lease may be added under a new identifier for a holder that has none. -/
theorem insert (hw : WellHeld leases) {lease : RuntimeTerminalLease}
    (hfresh : lease.leaseId ∉ leases.keys)
    (hnone : heldLeaseId leases lease.principalId lease.connectionId = none) :
    WellHeld (leases.insert lease.leaseId lease) where
  key e he := by
    rcases (IndexMap.mem_insert_of_notMem hfresh).mp he with he | rfl
    · exact hw.key e he
    · rfl
  unique e he e' he' hp hc := by
    have apart : ∀ e ∈ leases.entries, e.2.principalId = lease.principalId →
        e.2.connectionId ≠ lease.connectionId := by
      intro e he hp hc
      have := heldLeaseId_eq_none.mp hnone e he
      simp [RuntimeTerminalLease.heldBy, hp, hc] at this
    rcases (IndexMap.mem_insert_of_notMem hfresh).mp he with he | rfl <;>
      rcases (IndexMap.mem_insert_of_notMem hfresh).mp he' with he' | rfl
    · exact hw.unique e he e' he' hp hc
    · exact absurd hc (apart e he hp)
    · exact absurd hc.symm (apart e' he' hp.symm)
    · rfl

theorem extend (hw : WellHeld leases) (id : String) (t : ℤ) :
    WellHeld (leases.modify id (·.extendTo t)) where
  key e he := by
    obtain ⟨lease, hl, hid, -⟩ := exists_of_mem_extend he
    rw [hid]
    exact hw.key _ hl
  unique e he e' he' hp hc := by
    obtain ⟨lease, hl, -, hp₁, hc₁, -, heq⟩ := exists_of_mem_extend he
    obtain ⟨lease', hl', -, hp₂, hc₂, -, heq'⟩ := exists_of_mem_extend he'
    have same : (e.1, lease) = (e'.1, lease') :=
      hw.unique _ hl _ hl' (by rw [← hp₁, ← hp₂, hp]) (by rw [← hc₁, ← hc₂, hc])
    obtain ⟨hk, hv⟩ := Prod.mk.injEq .. ▸ same
    refine Prod.ext hk ?_
    rw [heq, heq', hk, hv]

end WellHeld

namespace Elected
variable {primary : Option String} {writers m n : LeaseMap}

theorem empty : Elected none .empty := ⟨by simp, by simp⟩

theorem firstId (writers : LeaseMap) : Elected (firstId writers) writers where
  none_iff := by simp [Terminal.firstId, IndexMap.first?_eq_none]
  mem id h := by
    obtain ⟨e, he, rfl⟩ := Option.map_eq_some_iff.mp h
    exact List.mem_map_of_mem (IndexMap.first?_mem he)

/-- Only the keys of the writers matter. -/
theorem congr (h : Elected primary m) (hk : n.keys = m.keys) : Elected primary n where
  none_iff := by
    rw [h.none_iff, ← List.map_eq_nil_iff (f := Prod.fst), ← List.map_eq_nil_iff (f := Prod.fst)]
    exact (congrArg (· = []) hk).to_iff.symm
  mem id hid := hk ▸ h.mem id hid

/-- The primary writer stays elected while it stays a writer. -/
theorem subset (h : Elected primary m) (hs : ∀ e ∈ n.entries, e ∈ m.entries)
    (hp : ∀ id, primary = some id → id ∈ n.keys) : Elected primary n where
  none_iff := by
    refine ⟨fun hnone => List.eq_nil_iff_forall_not_mem.mpr fun e he => ?_, fun hn => ?_⟩
    · have := hs e he
      simp [h.none_iff.mp hnone] at this
    · cases primary with
      | none => rfl
      | some id => simpa [IndexMap.keys, hn] using hp id rfl
  mem := hp

theorem insert (h : Elected primary writers) {id : String} {lease : RuntimeTerminalLease}
    (hfresh : id ∉ writers.keys) :
    Elected (primary.or (some id)) (writers.insert id lease) where
  none_iff := by simp [IndexMap.entries_insert_of_notMem hfresh]
  mem k hk := by
    have sub : ∀ e ∈ writers.entries, e ∈ (writers.insert id lease).entries := fun e he =>
      (IndexMap.mem_insert_of_notMem hfresh).mpr (.inl he)
    cases hp : primary with
    | none =>
      obtain rfl : id = k := by simpa [hp] using hk
      exact IndexMap.mem_keys.mpr ⟨lease, (IndexMap.mem_insert_of_notMem hfresh).mpr (.inr rfl)⟩
    | some p =>
      obtain rfl : p = k := by simpa [hp] using hk
      exact keys_subset sub (h.mem p hp)

/-- An absent primary writer, or one that is gone, is replaced by the oldest writer. -/
theorem restore (primary : Option String) (writers : LeaseMap) :
    Elected (if primary.all fun id => !writers.contains id then Terminal.firstId writers
      else primary) writers := by
  split
  · exact firstId writers
  · rename_i hall
    obtain ⟨id, rfl, hid⟩ : ∃ id, primary = some id ∧ id ∈ writers.keys := by
      simpa [Option.all_eq_false, IndexMap.contains_iff] using hall
    refine ⟨⟨by simp, fun hn => ?_⟩, fun k hk => ?_⟩
    · simp [IndexMap.keys, hn] at hid
    · exact Option.some.inj hk ▸ hid

theorem orFirst (hp : ∀ id, primary = some id → id ∈ writers.keys) :
    Elected (if primary.isNone then Terminal.firstId writers else primary) writers := by
  cases primary with
  | none => exact firstId writers
  | some id =>
    refine ⟨⟨by simp, fun hn => ?_⟩, by simpa using hp⟩
    simpa [IndexMap.keys, hn] using hp id rfl

end Elected

namespace TerminalControlState
variable {state : TerminalControlState}

/-- The identifier drawn for a new lease is not in use. -/
def FreshId (state : TerminalControlState) (id : String) : Prop :=
  "lease-" ++ id ∉ state.writers.keys ∧ "lease-" ++ id ∉ state.observers.keys

theorem purge_writers_subset (state : TerminalControlState) (now : ℤ) :
    ∀ e ∈ (state.purge now).writers.entries, e ∈ state.writers.entries :=
  fun _ he => (IndexMap.mem_retain.mp he).1

theorem purge_observers_subset (state : TerminalControlState) (now : ℤ) :
    ∀ e ∈ (state.purge now).observers.entries, e ∈ state.observers.entries :=
  fun _ he => (IndexMap.mem_retain.mp he).1

theorem FreshId.purge {id : String} (h : state.FreshId id) (now : ℤ) :
    (state.purge now).FreshId id :=
  ⟨fun hw => h.1 (keys_subset (state.purge_writers_subset now) hw),
    fun ho => h.2 (keys_subset (state.purge_observers_subset now) ho)⟩

theorem purge_invariant (h : LeaseInvariant state) (now : ℤ) :
    LeaseInvariant (state.purge now) where
  elected := Elected.restore _ _
  writers := h.writers.subset (state.purge_writers_subset now)
  observers := h.observers.subset (state.purge_observers_subset now)
  generation e he := h.generation e (state.purge_writers_subset now e he)
  disjoint id hw ho := h.disjoint id (keys_subset (state.purge_writers_subset now) hw)
    (keys_subset (state.purge_observers_subset now) ho)

theorem renewLease_invariant (h : LeaseInvariant state) (id : String) (now ttl : ℤ) :
    LeaseInvariant (state.renewLease id now ttl).1 := by
  rw [renewLease]
  split
  · refine ⟨h.elected.congr (IndexMap.keys_modify ..), h.writers.extend _ _, h.observers, ?_, ?_⟩
    · intro e he
      obtain ⟨lease, hl, -, -, -, hg, -⟩ := exists_of_mem_extend he
      rw [hg]
      exact h.generation _ hl
    · simpa only [IndexMap.keys_modify] using h.disjoint
  · split
    · refine ⟨h.elected, h.writers, h.observers.extend _ _, h.generation, ?_⟩
      simpa only [IndexMap.keys_modify] using h.disjoint
    · exact h

theorem recordCommand_invariant (h : LeaseInvariant state) (commandId : String) (now : ℤ) :
    LeaseInvariant (state.recordCommand commandId now) := by
  unfold recordCommand
  exact ⟨h.elected, h.writers, h.observers, h.generation, h.disjoint⟩

/-- Removing the observer lease of a holder leaves it without one. -/
theorem heldLeaseId_removed (leases : LeaseMap) (p c : String) :
    ∀ e ∈ (match heldLeaseId leases p c with
      | some id => leases.shiftRemove id
      | none => leases).entries, e ∈ leases.entries := by
  split
  · exact fun e he => (IndexMap.mem_shiftRemove.mp he).1
  · exact fun e he => he

/-- A writer lease of the current generation may be added under a new identifier. -/
theorem addWriter_invariant (h : LeaseInvariant state) {lease : RuntimeTerminalLease}
    (hgen : lease.leaseGeneration = state.leaseGeneration)
    (hw : lease.leaseId ∉ state.writers.keys) (ho : lease.leaseId ∉ state.observers.keys)
    (hnone : heldLeaseId state.writers lease.principalId lease.connectionId = none) :
    LeaseInvariant (state.addWriter lease) where
  elected := h.elected.insert hw
  writers := h.writers.insert hw hnone
  observers := h.observers
  generation e he := by
    rcases (IndexMap.mem_insert_of_notMem hw).mp he with he | rfl
    · exact h.generation e he
    · exact hgen
  disjoint id hid := by
    obtain ⟨l, hl⟩ := IndexMap.mem_keys.mp hid
    rcases (IndexMap.mem_insert_of_notMem hw).mp hl with hl | hl
    · exact h.disjoint id (IndexMap.mem_keys.mpr ⟨l, hl⟩)
    · exact (Prod.mk.inj hl).1 ▸ ho

/-- With no writers the generation may change and observers may go. -/
theorem regenerate (h : LeaseInvariant state) (g : ℕ) {observers : LeaseMap}
    (hg : g = state.leaseGeneration ∨ state.writers.entries = [])
    (ho : ∀ e ∈ observers.entries, e ∈ state.observers.entries) :
    LeaseInvariant { state with observers := observers, leaseGeneration := g } where
  elected := h.elected
  writers := h.writers
  observers := h.observers.subset ho
  generation e he := by
    rcases hg with rfl | hnil
    · exact h.generation e he
    · simp [hnil] at he
  disjoint id hw hid := h.disjoint id hw (keys_subset ho hid)

theorem admitWriter_invariant (h : LeaseInvariant state) {request : TerminalLeaseRequest}
    {now ttl : ℤ} {id : String} (hid : state.FreshId id)
    (hnone : heldLeaseId state.writers request.principalId request.connectionId = none) :
    LeaseInvariant (state.admitWriter request now ttl id).1 := by
  have sub := heldLeaseId_removed state.observers request.principalId request.connectionId
  have hgen : (if state.primaryWriterId.isNone then saturatingSucc state.leaseGeneration
      else state.leaseGeneration) = state.leaseGeneration ∨ state.writers.entries = [] := by
    cases hp : state.primaryWriterId with
    | none => exact .inr (h.elected.none_iff.mp hp)
    | some p => exact .inl (by simp)
  refine addWriter_invariant (regenerate h _ hgen sub) rfl hid.1 ?_ hnone
  exact fun hk => hid.2 (keys_subset sub hk)

theorem admitObserver_invariant (h : LeaseInvariant state) {request : TerminalLeaseRequest}
    {now ttl : ℤ} {id : String} (hid : state.FreshId id)
    (hnone : heldLeaseId state.observers request.principalId request.connectionId = none) :
    LeaseInvariant (state.admitObserver request now ttl id).1 where
  elected := h.elected
  writers := h.writers
  observers := h.observers.insert hid.2 hnone
  generation := h.generation
  disjoint k hw ho := by
    obtain ⟨l, hl⟩ := IndexMap.mem_keys.mp ho
    rcases (IndexMap.mem_insert_of_notMem hid.2).mp hl with hl | hl
    · exact h.disjoint k hw (IndexMap.mem_keys.mpr ⟨l, hl⟩)
    · exact hid.1 ((Prod.mk.inj hl).1 ▸ hw)

theorem acquire_invariant (h : LeaseInvariant state) {request : TerminalLeaseRequest}
    {now ttl : ℤ} {id : String} (hid : state.FreshId id) :
    LeaseInvariant (state.acquire request now ttl id).1 := by
  have hp := purge_invariant h now
  unfold acquire
  dsimp only
  split
  · split
    · exact renewLease_invariant hp _ _ _
    · rename_i hnone
      exact admitWriter_invariant hp (hid.purge now) hnone
  · split
    · exact renewLease_invariant hp _ _ _
    · rename_i hnone
      exact admitObserver_invariant hp (hid.purge now) hnone

theorem renew_invariant (h : LeaseInvariant state) (terminalId leaseId p c : String)
    (now ttl : ℤ) : LeaseInvariant (state.renew terminalId leaseId p c now ttl).1 := by
  have hp := purge_invariant h now
  unfold renew
  dsimp only
  split
  · exact hp
  · split
    · exact renewLease_invariant hp _ _ _
    · exact hp

theorem dropLease_invariant (h : LeaseInvariant state) (leaseId : String) :
    LeaseInvariant (state.dropLease leaseId) := by
  have subW : ∀ e ∈ (state.writers.shiftRemove leaseId).entries, e ∈ state.writers.entries :=
    fun e he => (IndexMap.mem_shiftRemove.mp he).1
  have subO : ∀ e ∈ (state.observers.shiftRemove leaseId).entries, e ∈ state.observers.entries :=
    fun e he => (IndexMap.mem_shiftRemove.mp he).1
  refine ⟨?_, h.writers.subset subW, h.observers.subset subO, fun e he => h.generation e (subW e he),
    fun id hw ho => h.disjoint id (keys_subset subW hw) (keys_subset subO ho)⟩
  simp only [dropLease]
  split
  · exact Elected.firstId _
  · rename_i hkeep
    refine h.elected.subset subW fun id hid => ?_
    have hmem := h.elected.mem id hid
    have hne : id ≠ leaseId := by
      rintro rfl
      exact hkeep (by simp [hid, IndexMap.contains_iff.mpr hmem])
    obtain ⟨lease, hl⟩ := IndexMap.mem_keys.mp hmem
    exact IndexMap.mem_keys.mpr ⟨lease, IndexMap.mem_shiftRemove.mpr ⟨hl, hne⟩⟩

theorem release_invariant (h : LeaseInvariant state) (terminalId leaseId p c : String) :
    LeaseInvariant (state.release terminalId leaseId p c).1 := by
  unfold release
  split
  · exact h
  · split
    · exact dropLease_invariant h leaseId
    · exact h

theorem dropConnection_invariant (h : LeaseInvariant state) (connectionId : String) :
    LeaseInvariant (state.dropConnection connectionId) := by
  have subW : ∀ e ∈ (state.dropConnection connectionId).writers.entries, e ∈ state.writers.entries :=
    fun e he => (IndexMap.mem_retain.mp he).1
  have subO : ∀ e ∈ (state.dropConnection connectionId).observers.entries,
      e ∈ state.observers.entries := fun e he => (IndexMap.mem_retain.mp he).1
  refine ⟨?_, h.writers.subset subW, h.observers.subset subO, fun e he => h.generation e (subW e he),
    fun id hw ho => h.disjoint id (keys_subset subW hw) (keys_subset subO ho)⟩
  refine Elected.orFirst fun id hid => ?_
  split at hid
  · simp at hid
  · rename_i hkeep
    have hmem := IndexMap.contains_iff.mpr (h.elected.mem id hid)
    refine IndexMap.contains_iff.mp ?_
    simpa [hid, hmem] using hkeep

theorem promoteObserver_invariant (h : LeaseInvariant state) (hw : state.writers.entries = [])
    {id : String} (hid : state.FreshId id) (now ttl : ℤ) :
    LeaseInvariant (state.promoteObserver now ttl id) := by
  unfold promoteObserver
  split
  · exact h
  · have hdrop : ∀ e ∈ (state.observers.dropOldest 1).entries, e ∈ state.observers.entries :=
      fun _ he => IndexMap.mem_dropOldest he
    have hr := regenerate h (saturatingSucc state.leaseGeneration) (.inr hw) hdrop
    have hnone : state.primaryWriterId = none := h.elected.none_iff.mpr hw
    rename_i observer _
    let promoted := newLease { state with
        observers := state.observers.dropOldest 1
        leaseGeneration := saturatingSucc state.leaseGeneration }
      ⟨observer.terminalId, observer.terminalEpoch, observer.principalId, observer.connectionId,
        .writer⟩ (saturatingSucc state.leaseGeneration) now ttl id
    have hgeneration : promoted.leaseGeneration = saturatingSucc state.leaseGeneration := rfl
    have := addWriter_invariant hr hgeneration hid.1 (fun hk => hid.2 (keys_subset hdrop hk))
      (heldLeaseId_eq_none.mpr (by simp [hw]))
    simpa [addWriter, hnone, promoted] using this

theorem releaseConnection_invariant (h : LeaseInvariant state) {id : String}
    (hid : state.FreshId id) (connectionId : String) (now ttl : ℤ) :
    LeaseInvariant (state.releaseConnection connectionId now ttl id) := by
  have hd := dropConnection_invariant (purge_invariant h now) connectionId
  unfold releaseConnection
  dsimp only
  split
  · rename_i hempty
    rw [Bool.and_eq_true, IndexMap.isEmpty_iff] at hempty
    refine promoteObserver_invariant hd hempty.2 ?_ now ttl
    exact ⟨fun hk => (hid.purge now).1 (keys_subset (fun _ he => (IndexMap.mem_retain.mp he).1) hk),
      fun hk => (hid.purge now).2 (keys_subset (fun _ he => (IndexMap.mem_retain.mp he).1) hk)⟩
  · exact hd

theorem forceTakeover_invariant (h : LeaseInvariant state) {id : String}
    (hid : state.FreshId id) (request : TerminalLeaseRequest) (now ttl : ℤ) :
    LeaseInvariant (state.forceTakeover request now ttl id).1 := by
  have sub : ∀ e ∈ (state.observers.retain fun _ lease =>
      !lease.heldBy request.principalId request.connectionId).entries,
      e ∈ state.observers.entries := fun e he => (IndexMap.mem_retain.mp he).1
  have hcleared : LeaseInvariant
      { state with
        primaryWriterId := none
        writers := .empty
        observers := state.observers.retain fun _ lease =>
          !lease.heldBy request.principalId request.connectionId
        leaseGeneration := saturatingSucc state.leaseGeneration } :=
    ⟨.empty, .empty, h.observers.subset sub, by simp, by simp [IndexMap.keys]⟩
  refine addWriter_invariant hcleared rfl (by simp [IndexMap.keys]) ?_
    (heldLeaseId_eq_none.mpr (by simp))
  exact fun hk => hid.2 (keys_subset sub hk)

theorem transfer_invariant (h : LeaseInvariant state) {id : String} (hid : state.FreshId id)
    (terminalId leaseId p c : String) (target : TerminalLeaseRequest) (now later ttl : ℤ) :
    LeaseInvariant (state.transfer terminalId leaseId p c target now later ttl id).1 := by
  have hp := purge_invariant h now
  unfold transfer
  dsimp only
  split
  · exact hp
  · exact forceTakeover_invariant hp (hid.purge now) target later ttl

theorem authorizeMutation_invariant (h : LeaseInvariant state) (fence : TerminalMutationFence)
    (now ttl : ℤ) : LeaseInvariant (state.authorizeMutation fence now ttl).1 := by
  have hp := purge_invariant h now
  unfold authorizeMutation
  dsimp only
  split
  · exact hp
  · split
    · exact hp
    · split
      · exact hp
      · exact renewLease_invariant (recordCommand_invariant hp _ _) _ _ _

theorem le_saturatingSucc (n : ℕ) : n ≤ saturatingSucc n := by
  unfold saturatingSucc
  split <;> omega

@[simp] theorem purge_generation (state : TerminalControlState) (now : ℤ) :
    (state.purge now).leaseGeneration = state.leaseGeneration := rfl

@[simp] theorem renewLease_generation (state : TerminalControlState) (id : String) (now ttl : ℤ) :
    (state.renewLease id now ttl).1.leaseGeneration = state.leaseGeneration := by
  unfold renewLease
  split
  · rfl
  · split <;> rfl

theorem admitWriter_generation (state : TerminalControlState) (request : TerminalLeaseRequest)
    (now ttl : ℤ) (id : String) :
    state.leaseGeneration ≤ (state.admitWriter request now ttl id).1.leaseGeneration := by
  show _ ≤ if _ then _ else _
  split
  · exact le_saturatingSucc _
  · exact le_refl _

theorem acquire_generation (state : TerminalControlState) (request : TerminalLeaseRequest)
    (now ttl : ℤ) (id : String) :
    state.leaseGeneration ≤ (state.acquire request now ttl id).1.leaseGeneration := by
  unfold acquire
  dsimp only
  split
  · split
    · simp
    · exact admitWriter_generation (state.purge now) request now ttl id
  · split
    · simp
    · exact le_refl _

theorem renew_generation (state : TerminalControlState) (terminalId leaseId p c : String)
    (now ttl : ℤ) :
    (state.renew terminalId leaseId p c now ttl).1.leaseGeneration = state.leaseGeneration := by
  unfold renew
  dsimp only
  split
  · rfl
  · split <;> simp

theorem release_generation (state : TerminalControlState) (terminalId leaseId p c : String) :
    (state.release terminalId leaseId p c).1.leaseGeneration = state.leaseGeneration := by
  unfold release
  split
  · rfl
  · split <;> rfl

theorem promoteObserver_generation (state : TerminalControlState) (now ttl : ℤ) (id : String) :
    state.leaseGeneration ≤ (state.promoteObserver now ttl id).leaseGeneration := by
  unfold promoteObserver
  split
  · exact le_refl _
  · exact le_saturatingSucc _

theorem releaseConnection_generation (state : TerminalControlState) (connectionId : String)
    (now ttl : ℤ) (id : String) :
    state.leaseGeneration ≤ (state.releaseConnection connectionId now ttl id).leaseGeneration := by
  unfold releaseConnection
  dsimp only
  split
  · exact promoteObserver_generation ((state.purge now).dropConnection connectionId) now ttl id
  · exact le_refl _

theorem transfer_generation (state : TerminalControlState) (terminalId leaseId p c : String)
    (target : TerminalLeaseRequest) (now later ttl : ℤ) (id : String) :
    state.leaseGeneration ≤
      (state.transfer terminalId leaseId p c target now later ttl id).1.leaseGeneration := by
  unfold transfer
  dsimp only
  split
  · exact le_refl _
  · exact le_saturatingSucc _

theorem authorizeMutation_generation (state : TerminalControlState) (fence : TerminalMutationFence)
    (now ttl : ℤ) :
    (state.authorizeMutation fence now ttl).1.leaseGeneration = state.leaseGeneration := by
  unfold authorizeMutation
  dsimp only
  split
  · rfl
  · split
    · rfl
    · split
      · rfl
      · rw [renewLease_generation]
        rfl

end TerminalControlState

/-- A call of a registry method, with the clock readings and identifiers it is answered with. -/
inductive ControlCall
  | registerTerminal (terminalId terminalEpoch : String)
  | unregisterTerminal (terminalId : String) (terminalEpoch : Option String)
  | acquire (request : TerminalLeaseRequest) (now : ℤ) (id : String)
  | renew (terminalId terminalEpoch leaseId principalId connectionId : String) (now : ℤ)
  | release (terminalId terminalEpoch leaseId principalId connectionId : String)
  | releaseConnection (connectionId : String) (now : ℤ) (makeId : String → String)
  | forceTakeover (terminalId terminalEpoch principalId connectionId : String) (now : ℤ)
      (id : String)
  | transfer (terminalId terminalEpoch leaseId principalId connectionId targetPrincipalId
      targetConnectionId : String) (now later : ℤ) (id : String)
  | authorizeMutation (fence : TerminalMutationFence) (now : ℤ)
  | writer (terminalId : String) (now : ℤ)
  | list (terminalId : String) (now : ℤ)

namespace TerminalControlRegistry
open TerminalControlState

def call (registry : TerminalControlRegistry) : ControlCall → TerminalControlRegistry
  | .registerTerminal terminalId terminalEpoch =>
    (registry.registerTerminal terminalId terminalEpoch).1
  | .unregisterTerminal terminalId terminalEpoch =>
    registry.unregisterTerminal terminalId terminalEpoch
  | .acquire request now id => (registry.acquire request now id).1
  | .renew terminalId terminalEpoch leaseId principalId connectionId now =>
    (registry.renew terminalId terminalEpoch leaseId principalId connectionId now).1
  | .release terminalId terminalEpoch leaseId principalId connectionId =>
    (registry.release terminalId terminalEpoch leaseId principalId connectionId).1
  | .releaseConnection connectionId now makeId =>
    registry.releaseConnection connectionId now makeId
  | .forceTakeover terminalId terminalEpoch principalId connectionId now id =>
    (registry.forceTakeover terminalId terminalEpoch principalId connectionId now id).1
  | .transfer terminalId terminalEpoch leaseId principalId connectionId targetPrincipalId
      targetConnectionId now later id =>
    (registry.transfer terminalId terminalEpoch leaseId principalId connectionId targetPrincipalId
      targetConnectionId now later id).1
  | .authorizeMutation fence now => (registry.authorizeMutation fence now).1
  | .writer terminalId now => (registry.writer terminalId now).1
  | .list terminalId now => (registry.list terminalId now).1

def machine : Machine TerminalControlRegistry ControlCall := ⟨fun registry c => registry.call c⟩

/-- The identifier drawn for a terminal is not that of one of its leases. -/
def FreshFor (registry : TerminalControlRegistry) (terminalId id : String) : Prop :=
  ∀ state, registry.terminals terminalId = some state → state.FreshId id

/-- The identifiers that a call draws are fresh. -/
def Fresh (registry : TerminalControlRegistry) : ControlCall → Prop
  | .acquire request _ id => registry.FreshFor request.terminalId id
  | .releaseConnection _ _ makeId => ∀ terminalId, registry.FreshFor terminalId (makeId terminalId)
  | .forceTakeover terminalId _ _ _ _ id => registry.FreshFor terminalId id
  | .transfer terminalId _ _ _ _ _ _ _ _ id => registry.FreshFor terminalId id
  | _ => True

/-- One operation on a terminal: the generation does not go down and the invariant is kept. -/
def Advances (before after : TerminalControlState) : Prop :=
  before.leaseGeneration ≤ after.leaseGeneration ∧ (LeaseInvariant before → LeaseInvariant after)

theorem Advances.refl (state : TerminalControlState) : Advances state state := ⟨le_refl _, id⟩

/-- `after` has a state for the terminal that advances the one of `before`; a terminal that was
not there is absent or new. -/
def AdvancesAt (before after : TerminalControlRegistry) (t : String) : Prop :=
  match before.terminals t with
  | some state => ∃ state', after.terminals t = some state' ∧ Advances state state'
  | none => ∀ state', after.terminals t = some state' → LeaseInvariant state'

theorem AdvancesAt.refl (registry : TerminalControlRegistry) (t : String) :
    AdvancesAt registry registry t := by
  unfold AdvancesAt
  split
  · rename_i state hs
    exact ⟨state, hs, .refl state⟩
  · rename_i hnone
    simp [hnone]

theorem AdvancesAt.congr {before after : TerminalControlRegistry} {t : String}
    (h : after.terminals t = before.terminals t) : AdvancesAt before after t := by
  have := AdvancesAt.refl before t
  unfold AdvancesAt at this ⊢
  rwa [h]

theorem stateMut_ok {registry : TerminalControlRegistry} {terminalId : String}
    {state : TerminalControlState} (h : registry.stateMut terminalId = .ok state) :
    registry.terminals terminalId = some state := by
  unfold stateMut at h
  split at h
  · cases h
    assumption
  · cases h

theorem stateForEpochMut_ok {registry : TerminalControlRegistry} {terminalId epoch : String}
    {state : TerminalControlState} (h : registry.stateForEpochMut terminalId epoch = .ok state) :
    registry.terminals terminalId = some state := by
  unfold stateForEpochMut at h
  split at h
  · cases h
  · rename_i found hfound
    split at h
    · cases h
    · cases h
      exact stateMut_ok hfound

/-- An operation on one terminal leaves the others alone. -/
theorem onState_frame {α : Type} {registry : TerminalControlRegistry} {terminalId t : String}
    {found : Except TerminalControlError TerminalControlState}
    {operation : TerminalControlState → TerminalControlState × Except TerminalControlError α}
    (ht : t ≠ terminalId) :
    (registry.onState terminalId found operation).1.terminals t = registry.terminals t := by
  unfold onState
  split
  · rfl
  · simp [set, Function.update_of_ne ht]

/-- An operation on one terminal that advances its state advances the registry. -/
theorem onState_advancesAt {α : Type} {registry : TerminalControlRegistry} {terminalId : String}
    {found : Except TerminalControlError TerminalControlState}
    {operation : TerminalControlState → TerminalControlState × Except TerminalControlError α}
    (hfound : ∀ state, found = .ok state → registry.terminals terminalId = some state)
    (hop : ∀ state, registry.terminals terminalId = some state → Advances state (operation state).1)
    (t : String) : AdvancesAt registry (registry.onState terminalId found operation).1 t := by
  by_cases ht : t = terminalId
  · subst ht
    unfold onState
    split
    · exact .refl registry t
    · rename_i state
      have hstate := hfound state rfl
      simp only [AdvancesAt, hstate, set, Function.update_self]
      exact ⟨_, rfl, hop state hstate⟩
  · exact .congr (onState_frame ht)

/-- What any call with fresh identifiers does to any terminal that it does not unregister. -/
theorem call_advancesAt {registry : TerminalControlRegistry} {c : ControlCall}
    (hfresh : registry.Fresh c) (t : String)
    (hkeep : ∀ epoch, c ≠ .unregisterTerminal t epoch) :
    AdvancesAt registry (registry.call c) t := by
  cases c with
  | registerTerminal terminalId terminalEpoch =>
    simp only [call, registerTerminal]
    split
    · exact .refl registry t
    · split
      · split <;> exact .refl registry t
      · rename_i hnone
        by_cases ht : t = terminalId
        · subst ht
          simp only [AdvancesAt, hnone, set, Function.update_self]
          rintro state ⟨⟩
          exact ⟨.empty, .empty, .empty, by simp, by simp [IndexMap.keys]⟩
        · exact .congr (by simp [set, Function.update_of_ne ht])
  | unregisterTerminal terminalId terminalEpoch =>
    have ht : t ≠ terminalId := by
      rintro rfl
      exact hkeep terminalEpoch rfl
    refine .congr ?_
    simp only [call, unregisterTerminal]
    split
    · split
      · simp [set, Function.update_of_ne ht]
      · rfl
    · rfl
  | acquire request now id =>
    exact onState_advancesAt (fun _ => stateForEpochMut_ok) (fun state hs =>
      ⟨acquire_generation .., fun h => acquire_invariant h (hfresh state hs)⟩) t
  | renew terminalId terminalEpoch leaseId principalId connectionId now =>
    exact onState_advancesAt (fun _ => stateForEpochMut_ok) (fun state _ =>
      ⟨(renew_generation ..).ge, fun h => renew_invariant h ..⟩) t
  | release terminalId terminalEpoch leaseId principalId connectionId =>
    exact onState_advancesAt (fun _ => stateForEpochMut_ok) (fun state _ =>
      ⟨(release_generation ..).ge, fun h => release_invariant h ..⟩) t
  | releaseConnection connectionId now makeId =>
    simp only [AdvancesAt, call, releaseConnection]
    split
    · rename_i state hs
      refine ⟨_, congrArg (Option.map _) hs, releaseConnection_generation .., fun h => ?_⟩
      exact releaseConnection_invariant h (hfresh t state hs) ..
    · rename_i hnone
      simp [hnone]
  | forceTakeover terminalId terminalEpoch principalId connectionId now id =>
    exact onState_advancesAt (fun _ => stateForEpochMut_ok) (fun state hs =>
      ⟨le_saturatingSucc _, fun h => forceTakeover_invariant h (hfresh state hs) ..⟩) t
  | transfer terminalId terminalEpoch leaseId principalId connectionId p' c' now later id =>
    exact onState_advancesAt (fun _ => stateForEpochMut_ok) (fun state hs =>
      ⟨transfer_generation .., fun h => transfer_invariant h (hfresh state hs) ..⟩) t
  | authorizeMutation fence now =>
    exact onState_advancesAt (fun _ => stateForEpochMut_ok) (fun state _ =>
      ⟨(authorizeMutation_generation ..).ge, fun h => authorizeMutation_invariant h ..⟩) t
  | writer terminalId now =>
    exact onState_advancesAt (fun _ => stateMut_ok) (fun state _ =>
      ⟨le_refl _, fun h => purge_invariant h now⟩) t
  | list terminalId now =>
    exact onState_advancesAt (fun _ => stateMut_ok) (fun state _ =>
      ⟨le_refl _, fun h => purge_invariant h now⟩) t

/-- Every terminal's state meets the lease invariant. -/
def Sound (registry : TerminalControlRegistry) : Prop :=
  ∀ t state, registry.terminals t = some state → LeaseInvariant state

theorem call_sound {registry : TerminalControlRegistry} {c : ControlCall} (h : registry.Sound)
    (hfresh : registry.Fresh c) : (registry.call c).Sound := by
  intro t state' hs'
  by_cases hkeep : ∀ epoch, c ≠ .unregisterTerminal t epoch
  · have adv := call_advancesAt hfresh t hkeep
    unfold AdvancesAt at adv
    split at adv
    · rename_i state hs
      obtain ⟨_, hs₂, -, hinv⟩ := adv
      exact Option.some.inj (hs₂.symm.trans hs') ▸ hinv (h t state hs)
    · exact adv state' hs'
  · push Not at hkeep
    obtain ⟨epoch, rfl⟩ := hkeep
    simp only [call, unregisterTerminal] at hs'
    split at hs'
    · split at hs'
      · simp [set] at hs'
      · exact h t state' hs'
    · exact h t state' hs'

/-- The registry before any terminal is registered. -/
def initial (leaseTtlMs : ℤ) : TerminalControlRegistry := ⟨fun _ => none, leaseTtlMs⟩

theorem initial_sound (leaseTtlMs : ℤ) : (initial leaseTtlMs).Sound := by
  simp [Sound, initial]

theorem run_sound {r u : TerminalControlRegistry} {calls : List ControlCall}
    (h : machine.Path Fresh r calls u) (hr : r.Sound) : u.Sound :=
  h.invariant (fun _ _ _ hs hf hstep => by cases hstep; exact call_sound hs hf) hr

/-- Along a run that does not unregister a terminal its generation does not go down. -/
theorem run_generation {r u : TerminalControlRegistry} {calls : List ControlCall} {t : String}
    (h : machine.Path Fresh r calls u) (hkeep : ∀ epoch, .unregisterTerminal t epoch ∉ calls)
    {state : TerminalControlState} (hs : r.terminals t = some state) :
    ∃ state', u.terminals t = some state' ∧ state.leaseGeneration ≤ state'.leaseGeneration := by
  induction h generalizing state with
  | nil => exact ⟨state, hs, le_refl _⟩
  | @cons r r' u c calls hf hstep _ ih =>
    obtain rfl : r.call c = r' := Option.some.inj hstep
    have adv := call_advancesAt hf t fun epoch hc => hkeep epoch (hc ▸ List.mem_cons_self)
    simp only [AdvancesAt, hs] at adv
    obtain ⟨state₁, hs₁, hle, -⟩ := adv
    obtain ⟨state₂, hs₂, hle'⟩ := ih (fun epoch hm => hkeep epoch (List.mem_cons_of_mem _ hm)) hs₁
    exact ⟨state₂, hs₂, hle.trans hle'⟩

/-- In every state reached by any sequence of calls, each terminal's leases meet the invariant,
and no later calls lower its generation while it stays registered. -/
theorem lease_registry_invariant {leaseTtlMs : ℤ} {r : TerminalControlRegistry}
    {calls : List ControlCall} (h : machine.Path Fresh (initial leaseTtlMs) calls r) {t : String}
    {state : TerminalControlState} (hs : r.terminals t = some state) :
    (state.primaryWriterId = none ↔ state.writers.entries = []) ∧
    (∀ id, state.primaryWriterId = some id → ∃ lease, state.writers.get? id = some lease) ∧
    (∀ e ∈ state.writers.entries, e.2.leaseGeneration = state.leaseGeneration) ∧
    (∀ e ∈ state.writers.entries, ∀ e' ∈ state.writers.entries,
      e.2.principalId = e'.2.principalId → e.2.connectionId = e'.2.connectionId → e = e') ∧
    (∀ e ∈ state.observers.entries, ∀ e' ∈ state.observers.entries,
      e.2.principalId = e'.2.principalId → e.2.connectionId = e'.2.connectionId → e = e') ∧
    (∀ id ∈ state.writers.keys, id ∉ state.observers.keys) ∧
    (∀ more u, machine.Path Fresh r more u → (∀ epoch, .unregisterTerminal t epoch ∉ more) →
      ∃ state', u.terminals t = some state' ∧
        state.leaseGeneration ≤ state'.leaseGeneration) := by
  have inv := run_sound h (initial_sound leaseTtlMs) t state hs
  refine ⟨inv.elected.none_iff, fun id hid => ?_, inv.generation, inv.writers.unique,
    inv.observers.unique, inv.disjoint, fun more u hu hkeep => run_generation hu hkeep hs⟩
  obtain ⟨lease, hl⟩ := IndexMap.mem_keys.mp (inv.elected.mem id hid)
  exact ⟨lease, IndexMap.get?_eq_some.mpr hl⟩

theorem freshFor_iff {registry : TerminalControlRegistry} {t id : String} :
    registry.FreshFor t id ↔ ∀ state ∈ registry.terminals t,
      "lease-" ++ id ∉ state.writers.keys ∧ "lease-" ++ id ∉ state.observers.keys := Iff.rfl

/-- A writer leaves and the observer behind it is promoted under a new generation. -/
theorem lease_registry_invariant_promotion :
    ∃ r state, machine.Path Fresh (initial defaultLeaseTtlMs)
      [.registerTerminal "term-1" "epoch-1",
        .acquire ⟨"term-1", "epoch-1", "principal-1", "writer", .writer⟩ 0 "0",
        .acquire ⟨"term-1", "epoch-1", "principal-1", "observer", .observer⟩ 5 "1",
        .releaseConnection "writer" 10 (fun _ => "2")] r ∧
      r.terminals "term-1" = some state ∧ state.primaryWriterId = some "lease-2" ∧
      ∃ lease, state.writers.get? "lease-2" = some lease := by
  let calls : List ControlCall :=
    [.registerTerminal "term-1" "epoch-1",
      .acquire ⟨"term-1", "epoch-1", "principal-1", "writer", .writer⟩ 0 "0",
      .acquire ⟨"term-1", "epoch-1", "principal-1", "observer", .observer⟩ 5 "1",
      .releaseConnection "writer" 10 (fun _ => "2")]
  have run : machine.Path Fresh (initial defaultLeaseTtlMs) calls
      (calls.foldl call (initial defaultLeaseTtlMs)) := by
    refine .cons trivial rfl (.cons (freshFor_iff.mpr (by decide)) rfl
      (.cons (freshFor_iff.mpr (by decide)) rfl (.cons (fun t => ?_) rfl (.nil _))))
    by_cases ht : t = "term-1"
    · subst ht
      exact freshFor_iff.mpr (by decide)
    · intro state hs
      have hnone : ((initial defaultLeaseTtlMs).call
          (.registerTerminal "term-1" "epoch-1")).terminals t = none := by
        simp [call, registerTerminal, set, initial, Function.update_of_ne ht]
      cases ((onState_frame ht).trans ((onState_frame ht).trans hnone)).symm.trans hs
  obtain ⟨state, hs, hp⟩ : ∃ state, (calls.foldl call (initial defaultLeaseTtlMs)).terminals "term-1" =
      some state ∧ state.primaryWriterId = some "lease-2" :=
    ⟨_, rfl, by decide⟩
  exact ⟨_, state, run, hs, hp, (lease_registry_invariant run hs).2.1 _ hp⟩

end TerminalControlRegistry
end PiDeck.Terminal
