import Mathlib
import PiDeck.Terminal.Fencing
import PiDeck.Terminal.SpentFences

/-! The window of accepted command identifiers of a terminal: in every run it holds the last ones
accepted, whatever happens to the leases, until the terminal is unregistered. -/
namespace PiDeck.Terminal
open PiDeck.Collections PiDeck.Transition

/-- The last entries of a list that has been cut to its last entries before. -/
theorem rtake_rtake_append {α : Type*} (n : ℕ) (old new : List α) :
    (old.rtake n ++ new).rtake n = (old ++ new).rtake n := by
  have hmin : min (n - new.length) n = n - new.length := min_eq_left (Nat.sub_le _ _)
  simp only [List.rtake_eq_reverse_take_reverse, List.reverse_append, List.reverse_reverse,
    List.take_append, List.take_take, List.length_reverse, hmin]

/-- An entry is among the last ones while few follow it. -/
theorem mem_rtake_of_few {α : Type*} {n : ℕ} (old : List α) (a : α) {new : List α}
    (h : new.length < n) : a ∈ (old ++ a :: new).rtake n := by
  have hle : (old ++ a :: new).length - n ≤ old.length := by
    rw [List.length_append, List.length_cons]
    omega
  rw [List.rtake, List.drop_append_of_le_length hle]
  exact List.mem_append_right _ List.mem_cons_self

namespace TerminalControlState
variable {state : TerminalControlState} {fence : TerminalMutationFence} {now ttl : ℤ}
  {lease : RuntimeTerminalLease}

@[simp] theorem commandIds_addWriter :
    (state.addWriter lease).commandIds = state.commandIds := rfl

theorem commandIds_acquire (request : TerminalLeaseRequest) (now ttl : ℤ) (id : String) :
    (state.acquire request now ttl id).1.commandIds = state.commandIds := by
  unfold acquire
  cases request.mode with
  | writer =>
    dsimp only
    split
    · rw [commandIds_renewLease, commandIds_purge]
    · rfl
  | observer =>
    dsimp only
    split
    · rw [commandIds_renewLease, commandIds_purge]
    · rfl

theorem commandIds_renew (terminalId leaseId p c : String) (now ttl : ℤ) :
    (state.renew terminalId leaseId p c now ttl).1.commandIds = state.commandIds := by
  unfold renew
  dsimp only
  split
  · rfl
  · split
    · rw [commandIds_renewLease, commandIds_purge]
    · rfl

theorem commandIds_release (terminalId leaseId p c : String) :
    (state.release terminalId leaseId p c).1.commandIds = state.commandIds := by
  unfold release
  split
  · rfl
  · split <;> rfl

theorem commandIds_releaseConnection (connectionId : String) (now ttl : ℤ) (id : String) :
    (state.releaseConnection connectionId now ttl id).commandIds = state.commandIds := by
  unfold releaseConnection
  dsimp only
  split
  · unfold promoteObserver
    split <;> rfl
  · rfl

theorem commandIds_transfer (terminalId leaseId p c : String) (target : TerminalLeaseRequest)
    (now later ttl : ℤ) (id : String) :
    (state.transfer terminalId leaseId p c target now later ttl id).1.commandIds =
      state.commandIds := by
  unfold transfer
  dsimp only
  split <;> rfl

/-- The fence is that of a writer of the terminal. -/
def Current (state : TerminalControlState) (fence : TerminalMutationFence) (now : ℤ) : Prop :=
  ∃ writer, (state.purge now).writers.get? fence.leaseId = some writer ∧
    writer.terminalEpoch = fence.terminalEpoch ∧
    writer.leaseGeneration = fence.leaseGeneration ∧
    writer.principalId = fence.principalId ∧ writer.connectionId = fence.connectionId

/-- The refusal of a command identifier that has been accepted before. -/
def duplicate (fence : TerminalMutationFence) : TerminalControlError :=
  ⟨.commandDuplicate, fence.terminalId, "terminal command ID was already accepted",
    some fence.leaseId⟩

/-- A recorded command is refused, as a duplicate if its fence is current. -/
theorem authorizeMutation_recorded (h : fence.commandId ∈ state.commandIds.keys) (now ttl : ℤ) :
    (∃ e, (state.authorizeMutation fence now ttl).2 = .error e) ∧
      (state.Current fence now →
        (state.authorizeMutation fence now ttl).2 = .error (duplicate fence)) := by
  have hcontains : (state.purge now).commandIds.contains fence.commandId = true :=
    IndexMap.contains_iff.mpr h
  unfold authorizeMutation
  dsimp only
  cases hwriter : (state.purge now).writers.get? fence.leaseId with
  | none =>
    refine ⟨⟨_, rfl⟩, ?_⟩
    rintro ⟨writer, hsome, -⟩
    cases hwriter.symm.trans hsome
  | some writer =>
    dsimp only
    split_ifs with hmatch
    · refine ⟨⟨_, rfl⟩, ?_⟩
      rintro ⟨found, hsome, hepoch, hgeneration, hprincipal, hconnection⟩
      obtain rfl := Option.some.inj (hwriter.symm.trans hsome)
      simp [hepoch, hgeneration, hprincipal, hconnection] at hmatch
    · exact ⟨⟨_, rfl⟩, fun _ => rfl⟩

/-- What an authorization does to the window: it adds the command if it accepts it. -/
theorem authorizeMutation_window (state : TerminalControlState) (fence : TerminalMutationFence)
    (now ttl : ℤ) :
    (∃ granted, (state.authorizeMutation fence now ttl).2 = .ok granted ∧
      (state.authorizeMutation fence now ttl).1.commandIds.keys =
        (state.commandIds.keys ++ [fence.commandId]).rtake maxCommandIds) ∨
    (∃ e, (state.authorizeMutation fence now ttl).2 = .error e ∧
      (state.authorizeMutation fence now ttl).1.commandIds = state.commandIds) := by
  unfold authorizeMutation
  dsimp only
  cases hwriter : (state.purge now).writers.get? fence.leaseId with
  | none => exact .inr ⟨_, rfl, rfl⟩
  | some writer =>
    dsimp only
    split_ifs with hmatch hduplicate
    · exact .inr ⟨_, rfl, rfl⟩
    · exact .inr ⟨_, rfl, rfl⟩
    · have hfresh : fence.commandId ∉ state.commandIds.keys := fun hmem =>
        hduplicate (IndexMap.contains_iff.mpr hmem)
      have hentries := IndexMap.entries_insert_of_notMem (v := now) hfresh
      refine .inl ⟨writer.extendTo (Terminal.saturatingAdd now ttl), ?_, ?_⟩
      · unfold renewLease
        rw [show ((state.purge now).recordCommand fence.commandId now).writers =
          (state.purge now).writers from rfl, hwriter]
      · rw [commandIds_renewLease, recordCommand]
        dsimp only
        rw [commandIds_purge, IndexMap.keys, IndexMap.entries_dropOldest, List.map_drop,
          IndexMap.length, hentries, List.map_append, List.rtake]
        simp [IndexMap.keys]

end TerminalControlState

namespace TerminalControlRegistry
open TerminalControlState
variable {registry r u : TerminalControlRegistry} {t : String} {calls : List ControlCall}
  {fence again : TerminalMutationFence}

/-- The command identifier that a call gets accepted on a terminal. -/
def accepts (registry : TerminalControlRegistry) (t : String) : ControlCall → Option String
  | .authorizeMutation fence now =>
    match (registry.authorizeMutation fence now).2 with
    | .ok _ => if fence.terminalId = t then some fence.commandId else none
    | .error _ => none
  | _ => none

/-- The command identifiers accepted on a terminal by calls one after the other. -/
def accepted (registry : TerminalControlRegistry) (t : String) : List ControlCall → List String
  | [] => []
  | c :: calls => (registry.accepts t c).toList ++ (registry.call c).accepted t calls

/-- The call leaves the terminal registered. -/
def KeepsRegistered (t : String) (registry : TerminalControlRegistry) (c : ControlCall) : Prop :=
  (registry.call c).terminals t ≠ none

instance (t : String) (registry : TerminalControlRegistry) (c : ControlCall) :
    Decidable (KeepsRegistered t registry c) := inferInstanceAs (Decidable (_ ≠ _))

/-- The window of a terminal goes on with some commands. -/
def Extends (before after : TerminalControlRegistry) (t : String) (commands : List String) : Prop :=
  ∀ state, before.terminals t = some state → ∃ state', after.terminals t = some state' ∧
    state'.commandIds.keys.rtake maxCommandIds =
      (state.commandIds.keys ++ commands).rtake maxCommandIds

namespace Extends
variable {before mid after : TerminalControlRegistry} {commands more : List String}

theorem congr (h : after.terminals t = before.terminals t) : Extends before after t [] :=
  fun state hs => ⟨state, h.trans hs, by rw [List.append_nil]⟩

theorem trans (h : Extends before mid t commands) (k : Extends mid after t more) :
    Extends before after t (commands ++ more) := by
  intro state hs
  obtain ⟨state₁, hs₁, hwindow₁⟩ := h state hs
  obtain ⟨state₂, hs₂, hwindow₂⟩ := k state₁ hs₁
  refine ⟨state₂, hs₂, ?_⟩
  calc
    state₂.commandIds.keys.rtake maxCommandIds
      = (state₁.commandIds.keys.rtake maxCommandIds ++ more).rtake maxCommandIds := by
        rw [hwindow₂, rtake_rtake_append]
    _ = (state.commandIds.keys ++ (commands ++ more)).rtake maxCommandIds := by
        rw [hwindow₁, rtake_rtake_append, List.append_assoc]

/-- An operation that leaves the window alone. -/
theorem onState {α : Type} {registry : TerminalControlRegistry} {terminalId : String}
    {found : Except TerminalControlError TerminalControlState}
    {operation : TerminalControlState → TerminalControlState × Except TerminalControlError α}
    (hfound : ∀ state, found = .ok state → registry.terminals terminalId = some state)
    (hop : ∀ state, (operation state).1.commandIds = state.commandIds) :
    Extends registry (registry.onState terminalId found operation).1 t [] := by
  by_cases ht : t = terminalId
  · subst ht
    unfold TerminalControlRegistry.onState
    cases found with
    | error e => exact .congr rfl
    | ok state =>
      intro state' hs'
      obtain rfl := Option.some.inj ((hfound state rfl).symm.trans hs')
      refine ⟨_, Function.update_self .., ?_⟩
      rw [hop, List.append_nil]
  · exact .congr (onState_frame ht)

end Extends

theorem authorizeMutation_extends (registry : TerminalControlRegistry)
    (fence : TerminalMutationFence) (now : ℤ) (t : String) :
    Extends registry (registry.authorizeMutation fence now).1 t
      (registry.accepts t (.authorizeMutation fence now)).toList := by
  by_cases ht : fence.terminalId = t
  · subst ht
    unfold accepts
    cases hfound : registry.stateForEpochMut fence.terminalId fence.terminalEpoch with
    | error e =>
      simp only [authorizeMutation, hfound, TerminalControlRegistry.onState, Option.toList_none]
      exact .congr rfl
    | ok found =>
      simp only [authorizeMutation, hfound, TerminalControlRegistry.onState, if_true]
      intro state hs
      obtain rfl := Option.some.inj ((stateForEpochMut_ok hfound).symm.trans hs)
      refine ⟨_, Function.update_self .., ?_⟩
      obtain ⟨granted, hgranted, hkeys⟩ | ⟨e, hrefused, hsame⟩ :=
        found.authorizeMutation_window fence now registry.leaseTtlMs
      · have hcut := rtake_rtake_append maxCommandIds
          (found.commandIds.keys ++ [fence.commandId]) []
        rw [List.append_nil, List.append_nil] at hcut
        rw [hgranted, hkeys]
        exact hcut
      · rw [hrefused, hsame]
        rw [Option.toList_none, List.append_nil]
  · have hnone : registry.accepts t (.authorizeMutation fence now) = none := by
      simp only [accepts, if_neg ht]
      split <;> rfl
    rw [hnone]
    exact .congr (onState_frame fun h => ht h.symm)

/-- Every call that leaves a terminal registered only adds the command that it accepts to the window
of the terminal. -/
theorem call_extends {c : ControlCall} (h : KeepsRegistered t registry c) :
    Extends registry (registry.call c) t (registry.accepts t c).toList := by
  cases c with
  | registerTerminal terminalId terminalEpoch =>
    intro state hs
    refine ⟨state, ?_, congrArg (List.rtake · maxCommandIds) (List.append_nil _).symm⟩
    simp only [call, registerTerminal]
    split
    · exact hs
    · split
      · split <;> exact hs
      · rename_i hnone
        have ht : t ≠ terminalId := fun heq => by
          rw [← heq, hs] at hnone
          cases hnone
        simpa [set, Function.update_of_ne ht] using hs
  | unregisterTerminal terminalId terminalEpoch =>
    refine .congr ?_
    simp only [KeepsRegistered, call, unregisterTerminal] at h ⊢
    split at h
    · split at h
      · by_cases ht : t = terminalId
        · subst ht
          simp [set] at h
        · rename_i hmatch
          simp only [hmatch, if_true, set, Function.update_of_ne ht]
      · rename_i hmatch
        simp only [hmatch, Bool.false_eq_true, if_false]
    · rfl
  | acquire request now id =>
    exact .onState (fun _ => stateForEpochMut_ok) fun state => commandIds_acquire ..
  | renew terminalId terminalEpoch leaseId principalId connectionId now =>
    exact .onState (fun _ => stateForEpochMut_ok) fun state => commandIds_renew ..
  | release terminalId terminalEpoch leaseId principalId connectionId =>
    exact .onState (fun _ => stateForEpochMut_ok) fun state => commandIds_release ..
  | releaseConnection connectionId now makeId =>
    intro state hs
    refine ⟨_, congrArg (Option.map _) hs, ?_⟩
    rw [commandIds_releaseConnection]
    exact congrArg (List.rtake · maxCommandIds) (List.append_nil _).symm
  | forceTakeover terminalId terminalEpoch principalId connectionId now id =>
    exact .onState (fun _ => stateForEpochMut_ok) fun state => rfl
  | transfer terminalId terminalEpoch leaseId principalId connectionId p' c' now later id =>
    exact .onState (fun _ => stateForEpochMut_ok) fun state => commandIds_transfer ..
  | authorizeMutation fence now => exact authorizeMutation_extends registry fence now t
  | writer terminalId now => exact .onState (fun _ => stateMut_ok) fun state => rfl
  | list terminalId now => exact .onState (fun _ => stateMut_ok) fun state => rfl

/-- In every run that leaves a terminal registered, its window goes on with the commands accepted. -/
theorem run_extends (h : machine.Path (KeepsRegistered t) r calls u) :
    Extends r u t (r.accepted t calls) := by
  induction h with
  | nil r => exact .congr rfl
  | @cons r r' u c calls hguard hstep _ ih =>
    obtain rfl : r.call c = r' := Option.some.inj hstep
    exact (call_extends hguard).trans ih

/-- In some run a command with the terminal and the identifier of `again` has been accepted, and
fewer than the bound since, by calls that meet the guard. -/
def Recent (C : TerminalControlRegistry → ControlCall → Prop) (r : TerminalControlRegistry)
    (again : TerminalMutationFence) : Prop :=
  ∃ leaseTtlMs earlier before fence now granted since,
    machine.Run (initial leaseTtlMs) earlier before ∧
    (before.authorizeMutation fence now).2 = .ok granted ∧
    fence.terminalId = again.terminalId ∧ fence.commandId = again.commandId ∧
    machine.Path C (before.call (.authorizeMutation fence now)) since r ∧
    ((before.call (.authorizeMutation fence now)).accepted again.terminalId since).length <
      maxCommandIds

/-- The fence is that of a writer of its terminal. -/
def Current (registry : TerminalControlRegistry) (fence : TerminalMutationFence) (now : ℤ) : Prop :=
  ∃ state, registry.terminals fence.terminalId = some state ∧
    state.terminalEpoch = fence.terminalEpoch ∧ state.Current fence now

/-- While a terminal stays registered, a command identifier accepted on it is refused until the bound
of other commands have been accepted, as a duplicate whenever it comes with a current fence. -/
theorem command_single_use (h : Recent (KeepsRegistered again.terminalId) r again) (now : ℤ) :
    (∃ e, (r.authorizeMutation again now).2 = .error e) ∧
      (r.Current again now → (r.authorizeMutation again now).2 = .error (duplicate again)) := by
  obtain ⟨leaseTtlMs, earlier, before, fence, now₀, granted, since, -, haccepted, hterminal,
    hcommand, hsince, hfew⟩ := h
  obtain ⟨state₀, hfound, hgranted, hstate₀⟩ := onState_ok haccepted
  have hafter : (before.call (.authorizeMutation fence now₀)).terminals fence.terminalId =
      some (state₀.authorizeMutation fence now₀ before.leaseTtlMs).1 := hstate₀
  -- The window ends in the command right after it was accepted.
  obtain ⟨_, -, hkeys⟩ | ⟨e, hrefused, -⟩ :=
    state₀.authorizeMutation_window fence now₀ before.leaseTtlMs
  swap
  · cases hrefused.symm.trans hgranted
  rw [hterminal] at hafter
  obtain ⟨state, hs, hwindow⟩ := run_extends hsince _ hafter
  have hmem : again.commandId ∈ state.commandIds.keys := by
    have hlast : again.commandId ∈ state.commandIds.keys.rtake maxCommandIds := by
      rw [hwindow, hkeys, rtake_rtake_append, List.append_assoc, hcommand]
      exact mem_rtake_of_few _ _ hfew
    exact List.mem_of_mem_drop hlast
  unfold authorizeMutation TerminalControlRegistry.onState
  cases hstate : r.stateForEpochMut again.terminalId again.terminalEpoch with
  | error e =>
    refine ⟨⟨e, rfl⟩, ?_⟩
    rintro ⟨current, hcurrent, hepoch, -⟩
    simp [stateForEpochMut, stateMut, hcurrent, hepoch] at hstate
  | ok found =>
    obtain rfl := Option.some.inj ((stateForEpochMut_ok hstate).symm.trans hs)
    obtain ⟨hrefused, hduplicate⟩ := authorizeMutation_recorded hmem now r.leaseTtlMs
    refine ⟨hrefused, ?_⟩
    rintro ⟨current, hcurrent, -, hwriter⟩
    obtain rfl := Option.some.inj (hcurrent.symm.trans hs)
    exact hduplicate hwriter

def controlledCalls : List ControlCall :=
  [.registerTerminal "term-1" "epoch-1",
    .acquire ⟨"term-1", "epoch-1", "principal-1", "connection-1", .writer⟩ 0 "0"]

def controlled : TerminalControlRegistry := controlledCalls.foldl call (initial defaultLeaseTtlMs)

theorem controlled_run : machine.Run (initial defaultLeaseTtlMs) controlledCalls controlled :=
  .cons trivial rfl (.cons trivial rfl (.nil _))

def usedFence : TerminalMutationFence :=
  ⟨"term-1", "epoch-1", "lease-0", 1, "principal-1", "connection-1", "command-1"⟩

/-- The command is used again after another one. -/
theorem command_single_use_renewed : ∃ r : TerminalControlRegistry, r.Current usedFence 10 ∧
    (r.authorizeMutation usedFence 10).2 = .error (duplicate usedFence) := by
  have hrecent : Recent (KeepsRegistered "term-1") (((controlled.call
      (.authorizeMutation usedFence 5)).call (.renew "term-1" "epoch-1" "lease-0" "principal-1"
        "connection-1" 6)).call (.authorizeMutation { usedFence with commandId := "command-2" } 7))
      usedFence :=
    ⟨_, _, _, usedFence, 5, _, _, controlled_run, rfl, rfl, rfl,
      .cons (by decide) rfl (.cons (by decide) rfl (.nil _)), by decide⟩
  have hcurrent : Current (((controlled.call (.authorizeMutation usedFence 5)).call
      (.renew "term-1" "epoch-1" "lease-0" "principal-1" "connection-1" 6)).call
        (.authorizeMutation { usedFence with commandId := "command-2" } 7)) usedFence 10 :=
    ⟨_, rfl, rfl, _, rfl, rfl, rfl, rfl, rfl⟩
  exact ⟨_, hcurrent, (command_single_use hrecent 10).2 hcurrent⟩

/-- After a takeover the old fence is stale, and a terminal that is registered again has forgotten the
commands. -/
theorem command_not_always_duplicate :
    (¬∀ r again now, Recent (KeepsRegistered again.terminalId) r again →
      (r.authorizeMutation again now).2 = .error (duplicate again)) ∧
    ¬∀ r again now, Recent (fun _ _ => True) r again →
      ∃ e, (r.authorizeMutation again now).2 = .error e := by
  constructor
  · intro h
    have hrefused := h _ usedFence 10 ⟨_, _, _, usedFence, 5, _,
      [.forceTakeover "term-1" "epoch-1" "principal-2" "connection-2" 6 "1"], controlled_run, rfl,
      rfl, rfl, .cons (by decide) rfl (.nil _), by decide⟩
    exact absurd hrefused (by decide)
  · intro h
    obtain ⟨e, hrefused⟩ := h _ { usedFence with leaseId := "lease-1" } 10 ⟨_, _, _, usedFence, 5, _,
      [.unregisterTerminal "term-1" none, .registerTerminal "term-1" "epoch-1",
        .acquire ⟨"term-1", "epoch-1", "principal-1", "connection-1", .writer⟩ 6 "1"],
      controlled_run, rfl, rfl, rfl, .cons trivial rfl (.cons trivial rfl (.cons trivial rfl
        (.nil _))), by decide⟩
    cases hrefused

end TerminalControlRegistry
end PiDeck.Terminal
