import Mathlib
import PiDeck.Terminal.ControlInvariant

/-! Fencing. Every operation accounts for the leases it leaves: a lease was there before, for the
same holder, or it is filed under the identifier the operation drew. Identifiers are drawn once, so
a lease that a takeover removed never comes back. -/
namespace PiDeck.Terminal
open PiDeck.Collections PiDeck.Transition

/-- The identifier under which a drawn `id` is filed. -/
def leaseKey (id : String) : String := "lease-" ++ id

/-- `e` was there before, under the same identifier and for the same connection. -/
def CarriedFrom (leases : LeaseMap) (e : String × RuntimeTerminalLease) : Prop :=
  ∃ lease, (e.1, lease) ∈ leases.entries ∧ lease.connectionId = e.2.connectionId

/-- What an operation that draws `drawn` may do to the leases. A new writer is the `grantee` that
asked for it, or it is the only writer. -/
structure Accounts (drawn grantee : Option String) (before after : TerminalControlState) : Prop where
  writers : ∀ e ∈ after.writers.entries, CarriedFrom before.writers e ∨
    ((∃ id ∈ drawn, e.1 = leaseKey id) ∧
      (grantee = some e.2.connectionId ∨ ∀ e' ∈ after.writers.entries, e' = e))
  observers : ∀ k ∈ after.observers.keys, k ∈ before.observers.keys ∨
    ∃ id ∈ drawn, k = leaseKey id

theorem CarriedFrom.of_mem {leases : LeaseMap} {e : String × RuntimeTerminalLease}
    (h : e ∈ leases.entries) : CarriedFrom leases e := ⟨e.2, h, rfl⟩

theorem CarriedFrom.mem_keys {leases : LeaseMap} {e : String × RuntimeTerminalLease}
    (h : CarriedFrom leases e) : e.1 ∈ leases.keys := by
  obtain ⟨lease, hl, -⟩ := h
  exact IndexMap.mem_keys.mpr ⟨lease, hl⟩

theorem carriedFrom_extend {leases : LeaseMap} {id : String} {t : ℤ}
    {e : String × RuntimeTerminalLease} (h : e ∈ (leases.modify id (·.extendTo t)).entries) :
    CarriedFrom leases e := by
  obtain ⟨lease, hl, -, -, hc, -⟩ := exists_of_mem_extend h
  exact ⟨lease, hl, hc.symm⟩

namespace Accounts
variable {drawn grantee : Option String} {s t u : TerminalControlState}

/-- Leases were only dropped or extended. -/
theorem of_carried (hw : ∀ e ∈ t.writers.entries, CarriedFrom s.writers e)
    (ho : ∀ k ∈ t.observers.keys, k ∈ s.observers.keys) : Accounts drawn grantee s t where
  writers e he := .inl (hw e he)
  observers k hk := .inl (ho k hk)

theorem of_subset (hw : ∀ e ∈ t.writers.entries, e ∈ s.writers.entries)
    (ho : ∀ e ∈ t.observers.entries, e ∈ s.observers.entries) : Accounts drawn grantee s t :=
  of_carried (fun e he => .of_mem (hw e he)) (fun _ => keys_subset ho)

theorem refl (s : TerminalControlState) : Accounts drawn grantee s s :=
  of_subset (fun _ => id) (fun _ => id)

/-- An operation that drew nothing may go first. -/
theorem trans (h : Accounts none none s t) (k : Accounts drawn grantee t u) :
    Accounts drawn grantee s u where
  writers e he := by
    obtain ⟨lease, hl, hc⟩ | hnew := k.writers e he
    · obtain ⟨lease', hl', hc'⟩ | ⟨⟨id, hid, -⟩, -⟩ := h.writers _ hl
      · exact .inl ⟨lease', hl', hc'.trans hc⟩
      · cases hid
    · exact .inr hnew
  observers key hkey := by
    obtain hold | hnew := k.observers key hkey
    · obtain hold' | ⟨id, hid, -⟩ := h.observers key hold
      · exact .inl hold'
      · cases hid
    · exact .inr hnew

end Accounts

namespace TerminalControlState
variable {grantee : Option String} (state : TerminalControlState) (now ttl : ℤ)

theorem purge_accounts {drawn : Option String} : Accounts drawn grantee state (state.purge now) :=
  .of_subset (purge_writers_subset state now) (purge_observers_subset state now)

theorem renewLease_accounts {drawn : Option String} (leaseId : String) :
    Accounts drawn grantee state (state.renewLease leaseId now ttl).1 := by
  unfold renewLease
  dsimp only
  split
  · exact .of_carried (fun e he => carriedFrom_extend he) (fun _ hk => hk)
  · split
    · refine .of_carried (fun e he => .of_mem he) (fun k hk => ?_)
      rwa [IndexMap.keys_modify] at hk
    · exact .refl state

theorem recordCommand_accounts {drawn : Option String} (commandId : String) :
    Accounts drawn grantee state (state.recordCommand commandId now) :=
  .of_subset (fun _ => id) (fun _ => id)

/-- Adding a writer under the drawn identifier, observers only being dropped. -/
theorem addWriter_accounts {draw : String} {before : TerminalControlState}
    {lease : RuntimeTerminalLease} (hid : lease.leaseId = leaseKey draw)
    (hw : ∀ e ∈ state.writers.entries, e ∈ before.writers.entries)
    (ho : ∀ e ∈ state.observers.entries, e ∈ before.observers.entries)
    (hnew : grantee = some lease.connectionId ∨ state.writers.entries = []) :
    Accounts (some draw) grantee before (state.addWriter lease) where
  writers e he := by
    have cases : ∀ e ∈ (state.addWriter lease).writers.entries,
        e ∈ state.writers.entries ∨ e = (lease.leaseId, lease) :=
      fun e he => IndexMap.mem_of_mem_insert he
    obtain hold | rfl := cases e he
    · exact .inl (.of_mem (hw e hold))
    · refine .inr ⟨⟨draw, rfl, hid⟩, hnew.imp_right fun hempty e' he' => ?_⟩
      obtain hold | rfl := cases e' he'
      · simp [hempty] at hold
      · rfl
  observers k hk := .inl (keys_subset ho hk)

theorem admitWriter_accounts (request : TerminalLeaseRequest) (draw : String) :
    Accounts (some draw) (some request.connectionId) state
      (state.admitWriter request now ttl draw).1 := by
  refine addWriter_accounts _ rfl (fun _ => id) (fun e he => ?_) (.inl rfl)
  dsimp only at he
  split at he
  · exact (IndexMap.mem_shiftRemove.mp he).1
  · exact he

theorem admitObserver_accounts (request : TerminalLeaseRequest) (draw : String) :
    Accounts (some draw) grantee state (state.admitObserver request now ttl draw).1 where
  writers e he := .inl (.of_mem he)
  observers k hk := by
    obtain ⟨lease, hl⟩ := IndexMap.mem_keys.mp hk
    obtain hold | hnew := IndexMap.mem_of_mem_insert hl
    · exact .inl (IndexMap.mem_keys.mpr ⟨lease, hold⟩)
    · exact .inr ⟨draw, rfl, congrArg Prod.fst hnew⟩

/-- Who may become a writer by an `acquire`. -/
def acquireGrantee (request : TerminalLeaseRequest) : Option String :=
  if request.mode = .writer then some request.connectionId else none

theorem acquire_accounts (request : TerminalLeaseRequest) (draw : String) :
    Accounts (some draw) (acquireGrantee request) state (state.acquire request now ttl draw).1 := by
  have purged := @purge_accounts none state now none
  unfold acquire
  dsimp only
  split
  · rename_i hmode
    split
    · exact purged.trans (renewLease_accounts ..)
    · simpa only [acquireGrantee, hmode, if_true] using
        purged.trans (admitWriter_accounts _ now ttl request draw)
  · split
    · exact purged.trans (renewLease_accounts ..)
    · exact purged.trans (admitObserver_accounts ..)

theorem renew_accounts (terminalId leaseId p c : String) :
    Accounts none none state (state.renew terminalId leaseId p c now ttl).1 := by
  have purged := @purge_accounts none state now none
  unfold renew
  dsimp only
  split
  · exact purged
  · split
    · exact purged.trans (renewLease_accounts ..)
    · exact purged

theorem release_accounts (terminalId leaseId p c : String) :
    Accounts none none state (state.release terminalId leaseId p c).1 := by
  unfold release
  split
  · exact .refl state
  · split
    · exact .of_subset (fun _ he => (IndexMap.mem_shiftRemove.mp he).1)
        (fun _ he => (IndexMap.mem_shiftRemove.mp he).1)
    · exact .refl state

theorem dropConnection_accounts (connectionId : String) :
    Accounts none none state (state.dropConnection connectionId) :=
  .of_subset (fun _ he => (IndexMap.mem_retain.mp he).1)
    (fun _ he => (IndexMap.mem_retain.mp he).1)

theorem promoteObserver_accounts (draw : String) (hempty : state.writers.entries = []) :
    Accounts (some draw) none state (state.promoteObserver now ttl draw) := by
  unfold promoteObserver
  split
  · exact .refl state
  · have only : ∀ {key : String} {lease : RuntimeTerminalLease} {e : String × RuntimeTerminalLease},
        e ∈ (state.writers.insert key lease).entries → e = (key, lease) := by
      intro key lease e he
      obtain hold | hnew := IndexMap.mem_of_mem_insert he
      · simp [hempty] at hold
      · exact hnew
    constructor
    · intro e he
      obtain rfl := only he
      exact .inr ⟨⟨draw, rfl, rfl⟩, .inr fun e' he' => only he'⟩
    · intro k hk
      exact .inl (keys_subset (fun _ he => IndexMap.mem_dropOldest he) hk)

theorem releaseConnection_accounts (connectionId draw : String) :
    Accounts (some draw) none state (state.releaseConnection connectionId now ttl draw) := by
  have dropped := (@purge_accounts none state now none).trans
    (dropConnection_accounts _ connectionId)
  unfold releaseConnection
  dsimp only
  split
  · rename_i h
    have hempty := IndexMap.isEmpty_iff.mp (Bool.and_eq_true_iff.mp h).2
    exact dropped.trans (promoteObserver_accounts _ now ttl draw hempty)
  · exact dropped.trans (.refl _)

theorem forceTakeover_accounts (request : TerminalLeaseRequest) (draw : String) :
    Accounts (some draw) none state (state.forceTakeover request now ttl draw).1 :=
  addWriter_accounts _ rfl (by simp) (fun _ he => (IndexMap.mem_retain.mp he).1) (.inr rfl)

theorem transfer_accounts (terminalId leaseId p c : String) (target : TerminalLeaseRequest)
    (later : ℤ) (draw : String) :
    Accounts (some draw) none state
      (state.transfer terminalId leaseId p c target now later ttl draw).1 := by
  have purged := @purge_accounts none state now none
  unfold transfer
  dsimp only
  split
  · exact purged.trans (.refl _)
  · exact purged.trans (forceTakeover_accounts ..)

theorem authorizeMutation_accounts (fence : TerminalMutationFence) :
    Accounts none none state (state.authorizeMutation fence now ttl).1 := by
  have purged := @purge_accounts none state now none
  unfold authorizeMutation
  dsimp only
  split
  · exact purged
  · split
    · exact purged
    · split
      · exact purged
      · exact purged.trans ((recordCommand_accounts ..).trans (renewLease_accounts ..))

/-- A takeover leaves its own lease as the only writer. -/
theorem forceTakeover_writers {request : TerminalLeaseRequest} {draw : String}
    {e : String × RuntimeTerminalLease}
    (he : e ∈ (state.forceTakeover request now ttl draw).1.writers.entries) :
    e.1 = leaseKey draw ∧ e.2.connectionId = request.connectionId := by
  obtain hold | rfl := IndexMap.mem_of_mem_insert he
  · simp at hold
  · exact ⟨rfl, rfl⟩

/-- A fence is only authorized against a writer lease of its connection. -/
theorem authorizeMutation_ok {fence : TerminalMutationFence} {lease : RuntimeTerminalLease}
    (h : (state.authorizeMutation fence now ttl).2 = .ok lease) :
    ∃ writer, (fence.leaseId, writer) ∈ state.writers.entries ∧
      writer.connectionId = fence.connectionId := by
  unfold authorizeMutation at h
  dsimp only at h
  split at h
  · cases h
  · rename_i writer hget
    split at h
    · cases h
    · rename_i hmatch
      push Not at hmatch
      exact ⟨writer, purge_writers_subset state now _ (IndexMap.get?_eq_some.mp hget),
        hmatch.2.2.2⟩

/-- The leases of one mode. -/
def leases : TerminalLeaseMode → LeaseMap
  | .writer => state.writers
  | .observer => state.observers

end TerminalControlState

/-- An operation adds no key but the drawn one. -/
theorem Accounts.keys {drawn grantee : Option String} {s t : TerminalControlState}
    (h : Accounts drawn grantee s t) (mode : TerminalLeaseMode) {k : String}
    (hk : k ∈ (t.leases mode).keys) :
    k ∈ (s.leases mode).keys ∨ ∃ id ∈ drawn, k = leaseKey id := by
  cases mode with
  | writer =>
    obtain ⟨lease, hl⟩ := IndexMap.mem_keys.mp hk
    obtain hold | ⟨hnew, -⟩ := h.writers _ hl
    · exact .inl hold.mem_keys
    · exact .inr hnew
  | observer => exact h.observers k hk

/-- The identifier that a call draws for a terminal. -/
def ControlCall.draws (t : String) : ControlCall → Option String
  | .acquire request _ id => if request.terminalId = t then some id else none
  | .releaseConnection _ _ makeId => some (makeId t)
  | .forceTakeover terminalId _ _ _ _ id => if terminalId = t then some id else none
  | .transfer terminalId _ _ _ _ _ _ _ _ id => if terminalId = t then some id else none
  | _ => none

/-- The connection that a call can make a writer beside others. -/
def ControlCall.grantee : ControlCall → Option String
  | .acquire request _ _ => TerminalControlState.acquireGrantee request
  | _ => none

/-- No identifier is drawn twice for a terminal. -/
def Distinct (calls : List ControlCall) : Prop :=
  ∀ t, (calls.filterMap (ControlCall.draws t)).Nodup

namespace TerminalControlRegistry
open TerminalControlState

/-- `after` accounts for the leases of the terminal, from those it had or from none. -/
def AccountsAt (drawn grantee : Option String) (before after : TerminalControlRegistry)
    (t : String) : Prop :=
  ∀ state', after.terminals t = some state' →
    ∃ state, (before.terminals t = some state ∨ ∀ mode, state.leases mode = .empty) ∧
      Accounts drawn grantee state state'

namespace AccountsAt
variable {drawn grantee : Option String} {before after : TerminalControlRegistry} {t : String}

theorem congr (h : after.terminals t = before.terminals t) :
    AccountsAt drawn grantee before after t :=
  fun state' hs => ⟨state', .inl (h ▸ hs), .refl state'⟩

theorem trans {r₀ r₁ r₂ : TerminalControlRegistry} (h : AccountsAt none none r₀ r₁ t)
    (k : AccountsAt drawn grantee r₁ r₂ t) : AccountsAt drawn grantee r₀ r₂ t := by
  intro state₂ hs₂
  obtain ⟨state₁, hs₁ | hempty, hk⟩ := k state₂ hs₂
  · obtain ⟨state₀, hs₀, hh⟩ := h state₁ hs₁
    exact ⟨state₀, hs₀, hh.trans hk⟩
  · exact ⟨state₁, .inr hempty, hk⟩

theorem onState {α : Type} {registry : TerminalControlRegistry} {terminalId : String}
    {found : Except TerminalControlError TerminalControlState}
    {operation : TerminalControlState → TerminalControlState × Except TerminalControlError α}
    (hfound : ∀ state, found = .ok state → registry.terminals terminalId = some state)
    (hop : terminalId = t → ∀ state, Accounts drawn grantee state (operation state).1) :
    AccountsAt drawn grantee registry (registry.onState terminalId found operation).1 t := by
  by_cases ht : t = terminalId
  · subst ht
    unfold TerminalControlRegistry.onState
    split
    · exact .congr rfl
    · rename_i state
      intro state' hs'
      obtain rfl : (operation state).1 = state' := by simpa [set] using hs'
      exact ⟨state, .inl (hfound state rfl), hop rfl state⟩
  · exact .congr (onState_frame ht)

end AccountsAt

theorem call_accountsAt (registry : TerminalControlRegistry) (c : ControlCall) (t : String) :
    AccountsAt (c.draws t) c.grantee registry (registry.call c) t := by
  cases c with
  | registerTerminal terminalId terminalEpoch =>
    simp only [call, registerTerminal]
    split
    · exact .congr rfl
    · split
      · split <;> exact .congr rfl
      · by_cases ht : t = terminalId
        · subst ht
          intro state' hs'
          simp only [set, Function.update_self, Option.some.injEq] at hs'
          subst hs'
          exact ⟨_, .inr fun mode => by cases mode <;> rfl, .refl _⟩
        · exact .congr (by simp [set, Function.update_of_ne ht])
  | unregisterTerminal terminalId terminalEpoch =>
    simp only [call, unregisterTerminal]
    split
    · split
      · by_cases ht : t = terminalId
        · subst ht
          intro state' hs'
          simp [set] at hs'
        · exact .congr (by simp [set, Function.update_of_ne ht])
      · exact .congr rfl
    · exact .congr rfl
  | acquire request now id =>
    refine .onState (fun _ => stateForEpochMut_ok) fun ht state => ?_
    simp only [ControlCall.draws, ht, if_true]
    exact acquire_accounts ..
  | renew terminalId terminalEpoch leaseId principalId connectionId now =>
    exact .onState (fun _ => stateForEpochMut_ok) fun _ state => renew_accounts state now ..
  | release terminalId terminalEpoch leaseId principalId connectionId =>
    exact .onState (fun _ => stateForEpochMut_ok) fun _ state => release_accounts state ..
  | releaseConnection connectionId now makeId =>
    intro state' hs'
    obtain ⟨state, hs, rfl⟩ := Option.map_eq_some_iff.mp hs'
    exact ⟨state, .inl hs, releaseConnection_accounts ..⟩
  | forceTakeover terminalId terminalEpoch principalId connectionId now id =>
    refine .onState (fun _ => stateForEpochMut_ok) fun ht state => ?_
    simp only [ControlCall.draws, ht, if_true]
    exact forceTakeover_accounts ..
  | transfer terminalId terminalEpoch leaseId principalId connectionId p' c' now later id =>
    refine .onState (fun _ => stateForEpochMut_ok) fun ht state => ?_
    simp only [ControlCall.draws, ht, if_true]
    exact transfer_accounts ..
  | authorizeMutation fence now =>
    exact .onState (fun _ => stateForEpochMut_ok) fun _ state => authorizeMutation_accounts ..
  | writer terminalId now =>
    exact .onState (fun _ => stateMut_ok) fun _ state => purge_accounts state now
  | list terminalId now =>
    exact .onState (fun _ => stateMut_ok) fun _ state => purge_accounts state now

/-- The key of a lease that a run leaves was there at its start or was drawn on the way. -/
theorem run_keys {C : TerminalControlRegistry → ControlCall → Prop}
    {r u : TerminalControlRegistry} {calls : List ControlCall} {t k : String}
    {mode : TerminalLeaseMode} (h : machine.Path C r calls u) {state' : TerminalControlState}
    (hs : u.terminals t = some state') (hk : k ∈ (state'.leases mode).keys) :
    (∃ state, r.terminals t = some state ∧ k ∈ (state.leases mode).keys) ∨
      ∃ id ∈ calls.filterMap (ControlCall.draws t), k = leaseKey id := by
  induction h with
  | nil r => exact .inl ⟨state', hs, hk⟩
  | @cons r r' u c calls _ hstep _ ih =>
    obtain rfl : r.call c = r' := Option.some.inj hstep
    obtain ⟨state₁, hs₁, hk₁⟩ | ⟨id, hid, rfl⟩ := ih hs
    · obtain ⟨state, hstate, hacc⟩ := call_accountsAt r c t state₁ hs₁
      obtain hold | ⟨id, hid, rfl⟩ := hacc.keys mode hk₁
      · obtain hstate | hempty := hstate
        · exact .inl ⟨state, hstate, hold⟩
        · simp [hempty mode, IndexMap.keys] at hold
      · exact .inr ⟨id, List.mem_filterMap.mpr ⟨c, List.mem_cons_self, hid⟩, rfl⟩
    · obtain ⟨c', hc', hdraw⟩ := List.mem_filterMap.mp hid
      exact .inr ⟨id, List.mem_filterMap.mpr ⟨c', List.mem_cons_of_mem _ hc', hdraw⟩, rfl⟩

theorem leaseKey_inj {a b : String} : leaseKey a = leaseKey b ↔ a = b := by
  constructor
  · intro h
    have := congrArg String.toList h
    simp only [leaseKey, String.toList_append, List.append_cancel_left_eq] at this
    exact String.toList_inj.mp this
  · rintro rfl
    rfl

/-- Identifiers drawn once are fresh whenever they are drawn. -/
theorem fresh_of_distinct {leaseTtlMs : ℤ} {r : TerminalControlRegistry}
    {calls : List ControlCall} (h : machine.Run (initial leaseTtlMs) calls r)
    (hd : Distinct calls) : machine.Path Fresh (initial leaseTtlMs) calls r := by
  induction calls using List.reverseRecOn generalizing r with
  | nil => cases h; exact .nil _
  | append_singleton calls c ih =>
    obtain ⟨r', h', hlast⟩ := h.split
    have hd' : Distinct calls := fun t =>
      (hd t).sublist ((List.sublist_append_left _ _).filterMap _)
    have hstep : machine.step r' c = some r := by
      cases hlast with
      | cons _ hstep tail => cases tail; exact hstep
    refine (ih h' hd').append (.single ?_ hstep)
    -- An identifier in use was drawn before, so it is not the one drawn now.
    have apart : ∀ t id, c.draws t = some id → r'.FreshFor t id := by
      intro t id hc state hs
      have unused : ∀ mode, leaseKey id ∉ (state.leases mode).keys := by
        intro mode hk
        obtain ⟨_, hnone, -⟩ | ⟨id', hid', heq⟩ := run_keys h' hs hk
        · simp [initial] at hnone
        · obtain rfl := leaseKey_inj.mp heq
          have := hd t
          simp only [List.filterMap_append, List.filterMap_cons, hc, List.filterMap_nil,
            List.nodup_append] at this
          exact this.2.2 _ hid' _ List.mem_cons_self rfl
      exact ⟨unused .writer, unused .observer⟩
    cases c with
    | acquire request now id => exact apart _ _ (by simp [ControlCall.draws])
    | releaseConnection connectionId now makeId => exact fun t => apart t _ rfl
    | forceTakeover terminalId _ _ _ _ id => exact apart _ _ (by simp [ControlCall.draws])
    | transfer terminalId _ _ _ _ _ _ _ _ id => exact apart _ _ (by simp [ControlCall.draws])
    | _ => trivial

/-- The call is a takeover or a transfer of the terminal, and it succeeds. -/
def TakesControl (registry : TerminalControlRegistry) (t : String) : ControlCall → Prop
  | .forceTakeover terminalId terminalEpoch principalId connectionId now id =>
    terminalId = t ∧ ∃ lease,
      (registry.forceTakeover terminalId terminalEpoch principalId connectionId now id).2 = .ok lease
  | .transfer terminalId terminalEpoch leaseId principalId connectionId targetPrincipalId
      targetConnectionId now later id =>
    terminalId = t ∧ ∃ lease,
      (registry.transfer terminalId terminalEpoch leaseId principalId connectionId
        targetPrincipalId targetConnectionId now later id).2 = .ok lease
  | _ => False

theorem onState_ok {α : Type} {registry : TerminalControlRegistry} {terminalId : String}
    {found : Except TerminalControlError TerminalControlState} {a : α}
    {operation : TerminalControlState → TerminalControlState × Except TerminalControlError α}
    (h : (registry.onState terminalId found operation).2 = .ok a) :
    ∃ state, found = .ok state ∧ (operation state).2 = .ok a ∧
      (registry.onState terminalId found operation).1.terminals terminalId =
        some (operation state).1 := by
  unfold onState at h ⊢
  cases found with
  | error e => cases h
  | ok state => exact ⟨state, rfl, h, by simp [set]⟩

/-- A transfer that succeeds ends in a takeover by its target. -/
theorem transfer_ok {state : TerminalControlState} {terminalId leaseId p c : String}
    {target : TerminalLeaseRequest} {now later ttl : ℤ} {id : String}
    {lease : RuntimeTerminalLease}
    (h : (state.transfer terminalId leaseId p c target now later ttl id).2 = .ok lease) :
    (state.transfer terminalId leaseId p c target now later ttl id).1 =
      ((state.purge now).forceTakeover target later ttl id).1 := by
  unfold TerminalControlState.transfer at h ⊢
  dsimp only at h ⊢
  split at h
  · cases h
  · rfl

/-- After a takeover the writers are those it drew. -/
theorem takeover_writers {registry : TerminalControlRegistry} {c : ControlCall} {t k : String}
    (hc : registry.TakesControl t c) {state : TerminalControlState}
    (hs : (registry.call c).terminals t = some state) (hk : k ∈ state.writers.keys) :
    ∃ id ∈ c.draws t, k = leaseKey id := by
  obtain ⟨lease, hl⟩ := IndexMap.mem_keys.mp hk
  cases c with
  | forceTakeover terminalId terminalEpoch p c now id =>
    obtain ⟨rfl, granted, hok⟩ := hc
    obtain ⟨found, -, -, hafter⟩ := onState_ok hok
    obtain rfl := Option.some.inj (hafter.symm.trans hs)
    exact ⟨id, by simp [ControlCall.draws], (forceTakeover_writers _ _ _ hl).1⟩
  | transfer terminalId terminalEpoch leaseId p c p' c' now later id =>
    obtain ⟨rfl, granted, hok⟩ := hc
    obtain ⟨found, -, hgranted, hafter⟩ := onState_ok hok
    obtain rfl := Option.some.inj (hafter.symm.trans hs)
    rw [transfer_ok hgranted] at hl
    exact ⟨id, by simp [ControlCall.draws], (forceTakeover_writers _ _ _ hl).1⟩
  | _ => cases hc

theorem authorizeMutation_ok {registry : TerminalControlRegistry} {fence : TerminalMutationFence}
    {now : ℤ} {granted : RuntimeTerminalLease}
    (h : (registry.authorizeMutation fence now).2 = .ok granted) :
    ∃ state writer, registry.terminals fence.terminalId = some state ∧
      (fence.leaseId, writer) ∈ state.writers.entries ∧
      writer.connectionId = fence.connectionId := by
  obtain ⟨state, hfound, hgranted, -⟩ := onState_ok h
  obtain ⟨writer, hw, hconn⟩ := state.authorizeMutation_ok now _ hgranted
  exact ⟨state, writer, stateForEpochMut_ok hfound, hw, hconn⟩

/-- Fencing: a lease of a terminal that existed at some time before a takeover or transfer of it is
dead for good. Whatever calls follow, no fence with its identifier is authorized. -/
theorem fence_stale_forever {leaseTtlMs : ℤ} {r₀ r₁ r₂ : TerminalControlRegistry}
    {earlier before after : List ControlCall} {takeover : ControlCall} {t : String}
    {state : TerminalControlState} {mode : TerminalLeaseMode} {lease : RuntimeTerminalLease}
    (h₀ : machine.Run (initial leaseTtlMs) earlier r₀) (hs : r₀.terminals t = some state)
    (hl : lease ∈ (state.leases mode).values) (_ : machine.Run r₀ before r₁)
    (htakeover : r₁.TakesControl t takeover) (h₂ : machine.Run (r₁.call takeover) after r₂)
    (hdistinct : Distinct (earlier ++ before ++ takeover :: after))
    {fence : TerminalMutationFence} (hterminal : fence.terminalId = t)
    (hfence : fence.leaseId = lease.leaseId) (now : ℤ) :
    ∃ e, (r₂.authorizeMutation fence now).2 = .error e := by
  cases hgranted : (r₂.authorizeMutation fence now).2 with
  | error e => exact ⟨e, rfl⟩
  | ok granted =>
    -- The old lease is filed under an identifier drawn before the takeover.
    have hkey : fence.leaseId ∈ (state.leases mode).keys := by
      obtain ⟨e, he, rfl⟩ := List.mem_map.mp hl
      have hfresh := fresh_of_distinct h₀ fun t =>
        (hdistinct t).sublist (((List.sublist_append_left _ _).trans
          (List.sublist_append_left _ _)).filterMap _)
      have inv := run_sound hfresh (initial_sound leaseTtlMs) t state hs
      have held : WellHeld (state.leases mode) := by
        cases mode with
        | writer => exact inv.writers
        | observer => exact inv.observers
      rw [hfence, held.key e he]
      exact IndexMap.mem_keys.mpr ⟨e.2, he⟩
    obtain ⟨id, hid, hold⟩ : ∃ id ∈ (earlier ++ before).filterMap (ControlCall.draws t),
        fence.leaseId = leaseKey id := by
      obtain ⟨_, hnone, -⟩ | ⟨id, hid, heq⟩ := run_keys h₀ hs hkey
      · simp [initial] at hnone
      · exact ⟨id, by rw [List.filterMap_append]; exact List.mem_append_left _ hid, heq⟩
    -- The writers at the end are filed under identifiers drawn since.
    obtain ⟨final, writer, hfinal, hw, -⟩ := authorizeMutation_ok hgranted
    rw [hterminal] at hfinal
    have hkeys : fence.leaseId ∈ (final.leases .writer).keys := IndexMap.mem_keys.mpr ⟨writer, hw⟩
    obtain ⟨id', hid', hnew⟩ : ∃ id ∈ (takeover :: after).filterMap (ControlCall.draws t),
        fence.leaseId = leaseKey id := by
      obtain ⟨state', hs', hk'⟩ | ⟨id, hid, heq⟩ := run_keys h₂ hfinal hkeys
      · obtain ⟨id, hid, heq⟩ := takeover_writers htakeover hs' hk'
        exact ⟨id, List.mem_filterMap.mpr ⟨takeover, List.mem_cons_self, hid⟩, heq⟩
      · obtain ⟨c, hc, hdraw⟩ := List.mem_filterMap.mp hid
        exact ⟨id, List.mem_filterMap.mpr ⟨c, List.mem_cons_of_mem _ hc, hdraw⟩, heq⟩
    obtain rfl := leaseKey_inj.mp (hold.symm.trans hnew)
    have apart := hdistinct t
    rw [List.filterMap_append, List.nodup_append] at apart
    exact absurd rfl (apart.2.2 _ hid _ hid')

/-- The old writer is taken over, acquires a lease again and tries its old fence. -/
theorem fence_stale_forever_reacquired :
    ∃ r e, machine.Run (initial defaultLeaseTtlMs)
      [.registerTerminal "term-1" "epoch-1",
        .acquire ⟨"term-1", "epoch-1", "principal-1", "connection-1", .writer⟩ 0 "0",
        .forceTakeover "term-1" "epoch-1" "principal-2" "connection-2" 5 "1",
        .acquire ⟨"term-1", "epoch-1", "principal-1", "connection-1", .writer⟩ 10 "2"] r ∧
      (r.authorizeMutation ⟨"term-1", "epoch-1", "lease-0", 1, "principal-1", "connection-1",
        "command-1"⟩ 15).2 = .error e := by
  let earlier : List ControlCall :=
    [.registerTerminal "term-1" "epoch-1",
      .acquire ⟨"term-1", "epoch-1", "principal-1", "connection-1", .writer⟩ 0 "0"]
  let takeover : ControlCall :=
    .forceTakeover "term-1" "epoch-1" "principal-2" "connection-2" 5 "1"
  let after : List ControlCall :=
    [.acquire ⟨"term-1", "epoch-1", "principal-1", "connection-1", .writer⟩ 10 "2"]
  let r₀ := earlier.foldl call (initial defaultLeaseTtlMs)
  have h₀ : machine.Run (initial defaultLeaseTtlMs) earlier r₀ :=
    .cons trivial rfl (.cons trivial rfl (.nil _))
  have h₂ : machine.Run (r₀.call takeover) after (after.foldl call (r₀.call takeover)) :=
    .cons trivial rfl (.nil _)
  let lease : RuntimeTerminalLease :=
    { terminalId := "term-1", terminalEpoch := "epoch-1", leaseId := "lease-0",
      leaseGeneration := 1, principalId := "principal-1", connectionId := "connection-1",
      mode := .writer, acquiredAtMs := 0, expiresAtMs := 15000 }
  obtain ⟨state, hs, hl⟩ : ∃ state, r₀.terminals "term-1" = some state ∧
      lease ∈ (state.leases .writer).values := ⟨_, rfl, by decide⟩
  have hdistinct : Distinct (earlier ++ [] ++ takeover :: after) := by
    intro t
    by_cases ht : "term-1" = t
    · subst ht
      decide
    · simp [earlier, takeover, after, ControlCall.draws, List.filterMap_cons, ht]
  have htakeover : r₀.TakesControl "term-1" takeover := ⟨rfl, _, rfl⟩
  let fence : TerminalMutationFence :=
    ⟨"term-1", "epoch-1", "lease-0", 1, "principal-1", "connection-1", "command-1"⟩
  have hfence : fence.leaseId = lease.leaseId := rfl
  obtain ⟨e, he⟩ := fence_stale_forever h₀ hs hl (.nil r₀) htakeover h₂ hdistinct rfl hfence 15
  exact ⟨_, e, h₀.append (.cons trivial rfl h₂), he⟩

end TerminalControlRegistry
end PiDeck.Terminal
