import Mathlib
import PiDeck.Terminal.Control

/-! When acquiring a lease leaves the registry as it was: the holder must have a lease already, up to
the very instant to which it would be extended, and nothing must have expired. -/
namespace PiDeck.Terminal
open PiDeck.Collections

section Maps
variable {κ ν : Type*} {m n : IndexMap κ ν} {p : κ → ν → Bool}

/-- A map that keeps its length keeps its entries. -/
theorem retain_eq_self (h : (m.retain p).length = m.length) : m.retain p = m :=
  IndexMap.ext (List.filter_sublist.eq_of_length h)

variable [DecidableEq κ] {k : κ} {v : ν} {f : ν → ν}

theorem length_modify : (m.modify k f).length = m.length := List.length_map _

theorem get?_modify : (m.modify k f).get? k = (m.get? k).map f := by
  refine Option.ext fun w => ?_
  rw [IndexMap.get?_eq_some, IndexMap.mem_modify, Option.map_eq_some_iff]
  simp only [if_true]
  refine exists_congr fun v => ?_
  rw [IndexMap.get?_eq_some, eq_comm (a := w)]

theorem modify_eq_self (hv : m.get? k = some v) : m.modify k f = m ↔ f v = v := by
  constructor
  · intro h
    have hget := get?_modify (m := m) (k := k) (f := f)
    rw [h, hv] at hget
    exact (Option.some.inj hget).symm
  · intro hf
    refine IndexMap.ext ((List.map_congr_left fun e he => ?_).trans (List.map_id _))
    split
    · rename_i hk
      have hev : e.2 = v := IndexMap.eq_of_mem (k := k) (hk ▸ he) (IndexMap.get?_eq_some.mp hv)
      rw [hev, hf, ← hev]
      rfl
    · rfl

end Maps

namespace TerminalControlState
variable {state : TerminalControlState} {request : TerminalLeaseRequest} {now ttl : ℤ}
  {id : String}

/-- The leases of a mode. -/
def modeLeases (state : TerminalControlState) : TerminalLeaseMode → LeaseMap
  | .writer => state.writers
  | .observer => state.observers

/-- The holder has a lease of the mode already, and it ends when a lease of now would. -/
def Held (state : TerminalControlState) (request : TerminalLeaseRequest) (now ttl : ℤ) : Prop :=
  ∃ held, heldLeaseId (state.modeLeases request.mode) request.principalId request.connectionId =
    some held ∧ ∀ lease, state.findLease held = some lease → lease.expiresAtMs = saturatingAdd now ttl

theorem extendTo_eq_self {lease : RuntimeTerminalLease} {at' : ℤ} :
    lease.extendTo at' = lease ↔ lease.expiresAtMs = at' := by
  constructor
  · intro h
    exact (congrArg RuntimeTerminalLease.expiresAtMs h).symm
  · rintro rfl
    rfl

/-- A purge after which as many leases are left has dropped none. -/
theorem purge_eq_self (hwriters : (state.purge now).writers.length = state.writers.length)
    (hobservers : (state.purge now).observers.length = state.observers.length)
    (hprimary : (state.purge now).primaryWriterId = state.primaryWriterId) :
    state.purge now = state := by
  have hw : (state.purge now).writers = state.writers := retain_eq_self hwriters
  have ho : (state.purge now).observers = state.observers := retain_eq_self hobservers
  calc state.purge now = { state with
        writers := (state.purge now).writers
        primaryWriterId := (state.purge now).primaryWriterId
        observers := (state.purge now).observers } := rfl
    _ = state := by rw [hw, ho, hprimary]

theorem renewLease_eq_self_iff {held : String} :
    ((state.purge now).renewLease held now ttl).1 = state ↔
      state.purge now = state ∧
        ∀ lease, state.findLease held = some lease →
          lease.expiresAtMs = saturatingAdd now ttl := by
  cases hwriter : (state.purge now).writers.get? held with
  | some lease =>
    have hrun : ((state.purge now).renewLease held now ttl).1 = { state.purge now with
        writers := (state.purge now).writers.modify held
          (RuntimeTerminalLease.extendTo (saturatingAdd now ttl)) } := by
      simp only [renewLease, hwriter]
    rw [hrun]
    constructor
    · intro h
      have hwriters := congrArg TerminalControlState.writers h
      have hpurge : state.purge now = state := by
        refine purge_eq_self ?_ (congrArg (fun s => s.observers.length) h)
          (congrArg (fun s => s.primaryWriterId) h)
        exact length_modify.symm.trans (congrArg IndexMap.length hwriters)
      refine ⟨hpurge, fun found hfound => ?_⟩
      have hlease : state.findLease held = some lease := by
        rw [findLease, ← hpurge, hwriter]
        rfl
      obtain rfl := Option.some.inj (hlease.symm.trans hfound)
      rw [← hpurge] at hwriters
      simp only [hpurge] at hwriters hwriter
      exact extendTo_eq_self.mp ((modify_eq_self hwriter).mp hwriters)
    · rintro ⟨hpurge, hexpires⟩
      rw [hpurge] at hwriter ⊢
      have hlease : state.findLease held = some lease := by
        rw [findLease, hwriter]
        rfl
      rw [(modify_eq_self hwriter).mpr (extendTo_eq_self.mpr (hexpires lease hlease))]
  | none =>
    cases hobserver : (state.purge now).observers.get? held with
    | some lease =>
      have hrun : ((state.purge now).renewLease held now ttl).1 = { state.purge now with
          observers := (state.purge now).observers.modify held
            (RuntimeTerminalLease.extendTo (saturatingAdd now ttl)) } := by
        simp only [renewLease, hwriter, hobserver]
      rw [hrun]
      constructor
      · intro h
        have hobservers := congrArg TerminalControlState.observers h
        have hpurge : state.purge now = state := by
          refine purge_eq_self (congrArg (fun s => s.writers.length) h) ?_
            (congrArg (fun s => s.primaryWriterId) h)
          exact length_modify.symm.trans (congrArg IndexMap.length hobservers)
        refine ⟨hpurge, fun found hfound => ?_⟩
        have hlease : state.findLease held = some lease := by
          rw [findLease, ← hpurge, hwriter, hobserver]
          rfl
        obtain rfl := Option.some.inj (hlease.symm.trans hfound)
        rw [← hpurge] at hobservers
        simp only [hpurge] at hobservers hobserver
        exact extendTo_eq_self.mp ((modify_eq_self hobserver).mp hobservers)
      · rintro ⟨hpurge, hexpires⟩
        rw [hpurge] at hwriter hobserver ⊢
        have hlease : state.findLease held = some lease := by
          rw [findLease, hwriter, hobserver]
          rfl
        rw [(modify_eq_self hobserver).mpr (extendTo_eq_self.mpr (hexpires lease hlease))]
    | none =>
      have hrun : ((state.purge now).renewLease held now ttl).1 = state.purge now := by
        simp only [renewLease, hwriter, hobserver]
      rw [hrun]
      refine ⟨fun hpurge => ⟨hpurge, fun lease hlease => ?_⟩, fun h => h.1⟩
      rw [findLease, ← hpurge, hwriter, hobserver] at hlease
      cases hlease

/-- A lease that is put into what a purge has left would have survived the purge, so the holder had
it before. -/
theorem insert_ne_self (leases : LeaseMap) (lease : RuntimeTerminalLease)
    (hlive : now < lease.expiresAtMs)
    (hheld : heldLeaseId (leases.retain fun _ lease => decide (now < lease.expiresAtMs))
      lease.principalId lease.connectionId = none) :
    (leases.retain fun _ lease => decide (now < lease.expiresAtMs)).insert lease.leaseId lease ≠
      leases := by
  intro h
  have hget : leases.get? lease.leaseId = some lease := by
    rw [← h, IndexMap.get?_insert, if_pos rfl]
  have hkept : (leases.retain fun _ lease => decide (now < lease.expiresAtMs)).get?
      lease.leaseId = some lease := by
    rw [IndexMap.get?_retain, hget]
    simp [hlive]
  have hmem := List.mem_map_of_mem (f := Prod.snd) (IndexMap.get?_eq_some.mp hkept)
  have hnone := List.find?_eq_none.mp (Option.map_eq_none_iff.mp hheld) lease hmem
  simp [RuntimeTerminalLease.heldBy] at hnone

theorem acquire_eq_self_iff (hclock : now < saturatingAdd now ttl) :
    (state.acquire request now ttl id).1 = state ↔
      state.purge now = state ∧ state.Held request now ttl := by
  cases hheld : heldLeaseId ((state.purge now).modeLeases request.mode) request.principalId
      request.connectionId with
  | some held =>
    have hrun : state.acquire request now ttl id =
        (state.purge now).renewLease held now ttl := by
      unfold acquire
      cases hmode : request.mode <;> rw [hmode] at hheld <;> simp only [modeLeases] at hheld <;>
        simp only [hheld]
    rw [hrun, renewLease_eq_self_iff]
    refine and_congr_right fun hpurge => ?_
    rw [hpurge] at hheld
    constructor
    · intro hexpires
      exact ⟨held, hheld, hexpires⟩
    · rintro ⟨found, hfound, hexpires⟩
      obtain rfl := Option.some.inj (hheld.symm.trans hfound)
      exact hexpires
  | none =>
    refine iff_of_false (fun h => ?_) ?_
    · unfold acquire at h
      cases hmode : request.mode with
      | writer =>
        rw [hmode] at hheld h
        simp only [modeLeases] at hheld
        simp only [hheld] at h
        exact insert_ne_self state.writers (newLease _ request _ now ttl id) hclock hheld
          (congrArg TerminalControlState.writers h)
      | observer =>
        rw [hmode] at hheld h
        simp only [modeLeases] at hheld
        simp only [hheld] at h
        exact insert_ne_self state.observers (newLease _ request _ now ttl id) hclock hheld
          (congrArg TerminalControlState.observers h)
    · rintro ⟨hpurge, held, hsome, -⟩
      rw [hpurge, hsome] at hheld
      cases hheld

end TerminalControlState
end PiDeck.Terminal
