import Mathlib
import PiDeck.Terminal.Owner

/-! Who may write after a takeover. A fence of another connection is refused for as long as the
takeover's lease is among the writers, unless that connection has joined them since. -/
namespace PiDeck.Terminal
open PiDeck.Collections PiDeck.Transition TerminalControlRegistry

namespace TerminalRuntime
variable {drawn grantee : Option String} {runtime s t : TerminalRuntime}

/-- The owner accounts for the leases of its terminal. -/
def Accounting (drawn grantee : Option String) (before after : TerminalRuntime) : Prop :=
  after.id = before.id ∧ AccountsAt drawn grantee before.control after.control before.id

theorem reply_accounting {α : Type}
    {called : TerminalControlRegistry × Except TerminalControlError α}
    (h : AccountsAt drawn grantee runtime.control called.1 runtime.id) :
    Accounting drawn grantee runtime (runtime.reply called).1 := ⟨rfl, h⟩

/-- A command that leaves the registry alone. -/
theorem Accounting.congr (hid : t.id = s.id) (hcontrol : t.control = s.control) :
    Accounting drawn grantee s t := ⟨hid, .congr (by rw [hcontrol])⟩

theorem list_accountsAt (control : TerminalControlRegistry) (id t : String) (now : ℤ) :
    AccountsAt none none control (control.list id now).1 t :=
  call_accountsAt control (.list id now) t

theorem acquire_accountsAt (control : TerminalControlRegistry) (request : TerminalLeaseRequest)
    (now : ℤ) (draw : String) :
    AccountsAt (some draw) (TerminalControlState.acquireGrantee request) control
      (control.acquire request now draw).1 request.terminalId := by
  have h := call_accountsAt control (.acquire request now draw) request.terminalId
  simp only [ControlCall.draws, if_true] at h
  exact h

theorem authorizeTerminal_accountsAt (control : TerminalControlRegistry) (id terminalEpoch : String)
    (request : AuthorizeRequest) :
    AccountsAt request.drawn request.grantee control
      (authorizeTerminal control id terminalEpoch request).1 id := by
  unfold authorizeTerminal AuthorizeRequest.drawn AuthorizeRequest.grantee
  cases request.fence with
  | some fence => exact call_accountsAt control (.authorizeMutation _ request.now) id
  | none =>
    have listed := list_accountsAt control id id request.now
    simp only [Option.isNone_none, if_true]
    cases (control.list id request.now).2 with
    | error e => exact listed.trans (.congr rfl)
    | ok leases =>
      dsimp only
      split
      · exact listed.trans (.congr rfl)
      · exact listed.trans (acquire_accountsAt _ ⟨id, _, _, _, .writer⟩ _ _)

theorem authorize_accounting (request : AuthorizeRequest) :
    Accounting request.drawn request.grantee runtime (runtime.authorize request).1 :=
  reply_accounting (authorizeTerminal_accountsAt _ _ _ _)

theorem authorizeReady_accounting (request : AuthorizeRequest) :
    Accounting request.drawn request.grantee runtime (runtime.authorizeReady request).1 := by
  unfold authorizeReady
  split
  · exact authorize_accounting request
  · exact .congr rfl rfl

theorem dispose_kept {state : TerminalControlState}
    (h : runtime.dispose.control.terminals runtime.id = some state) :
    runtime.control.terminals runtime.id = some state := by
  simp only [dispose, unregisterTerminal] at h
  split at h
  · split at h
    · simp [TerminalControlRegistry.set] at h
    · exact h
  · exact h

theorem Accounting.trans_dispose (h : Accounting drawn grantee s t) :
    Accounting drawn grantee s t.dispose := by
  refine ⟨h.1, fun state' hs => h.2 state' ?_⟩
  rw [← h.1] at hs ⊢
  exact dispose_kept hs

theorem handle_accounting (runtime : TerminalRuntime) (c : TerminalCommand) :
    Accounting c.draws c.joins runtime (runtime.handle c) := by
  cases c with
  | attach clientId => exact .congr rfl rfl
  | markReplayReady clientId =>
    simp only [handle, markReplayReady]
    split <;> exact .congr rfl rfl
  | detach clientId => exact .congr rfl rfl
  | acquireLease principalId connectionId mode now draw =>
    exact reply_accounting (acquire_accountsAt _ ⟨runtime.id, _, _, _, mode⟩ _ _)
  | renewLease leaseId principalId connectionId now =>
    exact reply_accounting (call_accountsAt _ (.renew _ _ _ _ _ _) _)
  | releaseLease leaseId principalId connectionId =>
    exact reply_accounting (call_accountsAt _ (.release _ _ _ _ _) _)
  | takeover principalId connectionId now draw =>
    have h := call_accountsAt runtime.control (.forceTakeover runtime.id runtime.terminalEpoch
      principalId connectionId now draw) runtime.id
    simp only [ControlCall.draws, if_true] at h
    exact reply_accounting h
  | transfer leaseId principalId connectionId targetConnectionId now later draw =>
    have h := call_accountsAt runtime.control (.transfer runtime.id runtime.terminalEpoch leaseId
      principalId connectionId principalId targetConnectionId now later draw) runtime.id
    simp only [ControlCall.draws, if_true] at h
    exact reply_accounting h
  | listLeases now => exact reply_accounting (list_accountsAt _ _ _ _)
  | authorize request => exact authorize_accounting request
  | authorizeAndWrite request => exact authorizeReady_accounting request
  | authorizeAndResize request => exact authorizeReady_accounting request
  | authorizeAndDispose request =>
    have h : Accounting request.drawn request.grantee runtime (runtime.authorize request).1 :=
      authorize_accounting request
    simp only [handle, authorizeAndDispose]
    split
    · exact h.trans_dispose
    · exact h
  | dispose => exact (Accounting.congr rfl rfl).trans_dispose
  | releaseConnection connectionId now draw =>
    exact ⟨rfl, call_accountsAt _ (.releaseConnection connectionId now fun _ => draw) _⟩

theorem handle_id (runtime : TerminalRuntime) (c : TerminalCommand) :
    (runtime.handle c).id = runtime.id := (handle_accounting runtime c).1

/-- A lease stays among the writers only if it was there, unless its identifier is drawn. -/
theorem writes_before {c : TerminalCommand} {leaseId : String}
    (hdraw : ∀ id ∈ c.draws, leaseId ≠ leaseKey id) (h : (runtime.handle c).Writes leaseId) :
    runtime.Writes leaseId := by
  obtain ⟨hid, hacc⟩ := handle_accounting runtime c
  obtain ⟨state', hs', hk⟩ := h
  rw [hid] at hs'
  obtain ⟨state, hstate, hstep⟩ := hacc state' hs'
  obtain hold | ⟨id, hmem, heq⟩ := hstep.keys .writer hk
  · obtain hstate | hempty := hstate
    · exact ⟨state, hstate, hold⟩
    · simp [hempty .writer, IndexMap.keys] at hold
  · exact absurd heq (hdraw id hmem)

/-- No writer lease of the terminal is held on the connection. -/
def NoWriter (runtime : TerminalRuntime) (connectionId : String) : Prop :=
  ∀ state, runtime.control.terminals runtime.id = some state →
    ∀ e ∈ state.writers.entries, e.2.connectionId ≠ connectionId

/-- While a given lease stays among the writers, a connection that does not ask to join them does
not become one. -/
theorem noWriter_step {c : TerminalCommand} {leaseId connectionId : String}
    (hdraw : ∀ id ∈ c.draws, leaseId ≠ leaseKey id) (hjoin : c.joins ≠ some connectionId)
    (h : (runtime.handle c).Writes leaseId) (hno : runtime.NoWriter connectionId) :
    (runtime.handle c).NoWriter connectionId := by
  obtain ⟨hid, hacc⟩ := handle_accounting runtime c
  obtain ⟨held, hheld, hk⟩ := h
  intro state' hs' e he
  obtain rfl := Option.some.inj (hheld.symm.trans hs')
  rw [hid] at hs'
  obtain ⟨state, hstate, hstep⟩ := hacc held hs'
  obtain ⟨lease, hl, hconn⟩ | ⟨⟨id, hmem, heq⟩, hgrantee | honly⟩ := hstep.writers e he
  · obtain hstate | hempty := hstate
    · exact hconn ▸ hno state hstate _ hl
    · have := hempty .writer
      simp_all [TerminalControlState.leases]
  · rintro rfl
    exact hjoin hgrantee
  · -- The only writer is filed under the drawn identifier, so the given lease is gone.
    obtain ⟨lease, hl⟩ := IndexMap.mem_keys.mp hk
    obtain rfl := honly _ hl
    exact absurd heq (hdraw id hmem)

theorem machine_step {c : TerminalCommand} (h : machine.step s c = some t) :
    t = s.handle c := by
  simp only [machine] at h
  split at h
  · cases h
  · exact (Option.some.inj h).symm

theorem run_noWriter {commands : List TerminalCommand} {leaseId connectionId : String}
    (h : machine.Run s commands t)
    (hdraw : ∀ c ∈ commands, ∀ id ∈ c.draws, leaseId ≠ leaseKey id)
    (hjoin : ∀ c ∈ commands, c.joins ≠ some connectionId) (hw : t.Writes leaseId)
    (hno : s.Writes leaseId → s.NoWriter connectionId) : t.NoWriter connectionId := by
  induction h with
  | nil s => exact hno hw
  | @cons s s' t c commands _ hstep _ ih =>
    obtain rfl := machine_step hstep
    have hdraw₀ := hdraw c List.mem_cons_self
    refine ih (fun c hc => hdraw c (List.mem_cons_of_mem _ hc))
      (fun c hc => hjoin c (List.mem_cons_of_mem _ hc)) hw fun hw' => ?_
    exact noWriter_step hdraw₀ (hjoin c List.mem_cons_self) hw' (hno (writes_before hdraw₀ hw'))

/-- Only the owner's terminal is registered. -/
def OwnOnly (runtime : TerminalRuntime) : Prop :=
  ∀ t, t ≠ runtime.id → runtime.control.terminals t = none

theorem onState_absent {α : Type} {registry : TerminalControlRegistry} {terminalId t : String}
    {found : Except TerminalControlError TerminalControlState}
    {operation : TerminalControlState → TerminalControlState × Except TerminalControlError α}
    (hfound : ∀ state, found = .ok state → registry.terminals terminalId = some state)
    (h : registry.terminals t = none) :
    (registry.onState terminalId found operation).1.terminals t = none := by
  by_cases ht : t = terminalId
  · subst ht
    cases found with
    | error e => exact h
    | ok state => simp [h] at hfound
  · rw [onState_frame ht, h]

/-- A call registers no terminal, unless that is what it is for. -/
theorem call_absent {registry : TerminalControlRegistry} {c : ControlCall} {t : String}
    (hc : ∀ epoch, c ≠ .registerTerminal t epoch) (h : registry.terminals t = none) :
    (registry.call c).terminals t = none := by
  cases c with
  | registerTerminal terminalId terminalEpoch =>
    have ht : t ≠ terminalId := by
      rintro rfl
      exact hc terminalEpoch rfl
    simp only [call, registerTerminal]
    split
    · exact h
    · split
      · split <;> exact h
      · simpa [TerminalControlRegistry.set, Function.update_of_ne ht] using h
  | unregisterTerminal terminalId terminalEpoch =>
    simp only [call, unregisterTerminal]
    split
    · split
      · by_cases ht : t = terminalId
        · simp [TerminalControlRegistry.set, ht]
        · simpa [TerminalControlRegistry.set, Function.update_of_ne ht] using h
      · exact h
    · exact h
  | releaseConnection connectionId now makeId =>
    simp [call, TerminalControlRegistry.releaseConnection, h]
  | acquire request now id => exact onState_absent (fun _ => stateForEpochMut_ok) h
  | renew terminalId terminalEpoch leaseId principalId connectionId now =>
    exact onState_absent (fun _ => stateForEpochMut_ok) h
  | release terminalId terminalEpoch leaseId principalId connectionId =>
    exact onState_absent (fun _ => stateForEpochMut_ok) h
  | forceTakeover terminalId terminalEpoch principalId connectionId now id =>
    exact onState_absent (fun _ => stateForEpochMut_ok) h
  | transfer terminalId terminalEpoch leaseId principalId connectionId p' c' now later id =>
    exact onState_absent (fun _ => stateForEpochMut_ok) h
  | authorizeMutation fence now => exact onState_absent (fun _ => stateForEpochMut_ok) h
  | writer terminalId now => exact onState_absent (fun _ => stateMut_ok) h
  | list terminalId now => exact onState_absent (fun _ => stateMut_ok) h

theorem authorizeTerminal_absent {control : TerminalControlRegistry} {id terminalEpoch t : String}
    {request : AuthorizeRequest} (h : control.terminals t = none) :
    (authorizeTerminal control id terminalEpoch request).1.terminals t = none := by
  unfold authorizeTerminal
  cases request.fence with
  | some fence => exact call_absent (c := .authorizeMutation _ request.now) (by simp) h
  | none =>
    have listed : (control.list id request.now).1.terminals t = none :=
      onState_absent (fun _ => stateMut_ok) h
    dsimp only
    cases (control.list id request.now).2 with
    | error e => exact listed
    | ok leases =>
      dsimp only
      split
      · exact listed
      · exact onState_absent (fun _ => stateForEpochMut_ok) listed

theorem handle_ownOnly (h : runtime.OwnOnly) (c : TerminalCommand) :
    (runtime.handle c).OwnOnly := by
  intro t ht
  rw [handle_id] at ht
  have absent := h t ht
  have ready : ∀ request, (runtime.authorizeReady request).1.control.terminals t = none := by
    intro request
    unfold authorizeReady
    split
    · exact authorizeTerminal_absent absent
    · exact absent
  cases c with
  | markReplayReady clientId =>
    simp only [handle, markReplayReady]
    split <;> exact absent
  | authorize request => exact authorizeTerminal_absent absent
  | authorizeAndWrite request => exact ready request
  | authorizeAndResize request => exact ready request
  | authorizeAndDispose request =>
    have authorized : (runtime.authorize request).1.control.terminals t = none :=
      authorizeTerminal_absent absent
    simp only [handle, authorizeAndDispose]
    split
    · exact call_absent (c := .unregisterTerminal _ _) (by simp) authorized
    · exact authorized
  | dispose => exact call_absent (c := .unregisterTerminal _ _) (by simp) absent
  | releaseConnection connectionId now draw =>
    exact call_absent (c := .releaseConnection connectionId now fun _ => draw) (by simp) absent
  | attach clientId => exact absent
  | detach clientId => exact absent
  | acquireLease => exact onState_absent (fun _ => stateForEpochMut_ok) absent
  | renewLease => exact onState_absent (fun _ => stateForEpochMut_ok) absent
  | releaseLease => exact onState_absent (fun _ => stateForEpochMut_ok) absent
  | takeover => exact onState_absent (fun _ => stateForEpochMut_ok) absent
  | transfer => exact onState_absent (fun _ => stateForEpochMut_ok) absent
  | listLeases => exact onState_absent (fun _ => stateMut_ok) absent

theorem initializeRuntime_ownOnly (id terminalEpoch : String) :
    (initializeRuntime id terminalEpoch).OwnOnly := by
  intro t ht
  exact call_absent (c := .registerTerminal id terminalEpoch)
    (by rintro epoch ⟨⟩; exact ht rfl) rfl

theorem run_ownOnly {commands : List TerminalCommand} (h : machine.Run s commands t)
    (hs : s.OwnOnly) : t.OwnOnly :=
  h.invariant (fun s c t hs _ hstep => by rw [machine_step hstep]; exact handle_ownOnly hs c) hs

/-- A fence is refused to a connection without a writer lease. -/
theorem authorize_fenced {request : AuthorizeRequest} {fence : TerminalMutationFence}
    (hown : runtime.OwnOnly) (hno : runtime.NoWriter request.connectionId)
    (hfence : request.fence = some fence) : ∃ e, (runtime.authorize request).2 = .error e := by
  simp only [authorize, reply, authorizeTerminal, hfence]
  cases hgranted : (runtime.control.authorizeMutation { fence with
      principalId := request.principalId, connectionId := request.connectionId } request.now).2 with
  | error e => exact ⟨.control e, rfl⟩
  | ok granted =>
    obtain ⟨state, writer, hs, hw, hconn⟩ := authorizeMutation_ok hgranted
    by_cases ht : fence.terminalId = runtime.id
    · simp only [ht] at hs
      exact absurd hconn (hno state hs _ hw)
    · rw [hown _ ht] at hs
      cases hs

theorem authorizeReady_fenced {request : AuthorizeRequest} {fence : TerminalMutationFence}
    (hown : runtime.OwnOnly) (hno : runtime.NoWriter request.connectionId)
    (hfence : request.fence = some fence) :
    ∃ e, (runtime.authorizeReady request).2 = .error e := by
  unfold authorizeReady
  split
  · exact authorize_fenced hown hno hfence
  · exact ⟨_, rfl⟩

theorem takeover_ok {p c : String} {now : ℤ} {draw : String} {lease : RuntimeTerminalLease}
    (h : (runtime.takeover p c now draw).2 = .ok lease) :
    lease.leaseId = leaseKey draw ∧ ∀ c', c' ≠ c → (runtime.takeover p c now draw).1.NoWriter c' := by
  simp only [takeover, reply] at h
  cases hcalled : (runtime.control.forceTakeover runtime.id runtime.terminalEpoch p c now draw).2 with
  | error e =>
    rw [hcalled] at h
    cases h
  | ok granted =>
    rw [hcalled] at h
    obtain rfl : granted = lease := Except.ok.inj h
    obtain ⟨found, -, hgranted, hafter⟩ := onState_ok hcalled
    refine ⟨?_, fun c' hc' state hs e he => ?_⟩
    · obtain rfl := Except.ok.inj hgranted
      rfl
    · obtain rfl := Option.some.inj (hafter.symm.trans hs)
      rw [(TerminalControlState.forceTakeover_writers _ _ _ he).2]
      exact hc'.symm

/-- After a takeover by `c₂`, as long as its lease is among the writers, no write and no resize of
another connection is authorized by a fence, unless that connection has asked since to write beside
the others. -/
theorem fence_refused_after_takeover {id terminalEpoch : String} {s₁ s₂ : TerminalRuntime}
    {before after : List TerminalCommand} {p₂ c₂ : String} {now : ℤ} {draw : String}
    {lease : RuntimeTerminalLease}
    (h₁ : machine.Run (initializeRuntime id terminalEpoch) before s₁)
    (htakeover : (s₁.takeover p₂ c₂ now draw).2 = .ok lease)
    (h₂ : machine.Run (s₁.takeover p₂ c₂ now draw).1 after s₂)
    (hdistinct : ((before ++ .takeover p₂ c₂ now draw :: after).filterMap
      TerminalCommand.draws).Nodup)
    (hlive : s₂.Writes lease.leaseId) {request : AuthorizeRequest}
    (hother : request.connectionId ≠ c₂)
    (hjoin : ∀ c ∈ after, c.joins ≠ some request.connectionId) {fence : TerminalMutationFence}
    (hfence : request.fence = some fence) :
    (∃ e, (s₂.authorizeAndWrite request).2 = .error e) ∧
      ∃ e, (s₂.authorizeAndResize request).2 = .error e := by
  obtain ⟨hkey, hno⟩ := takeover_ok htakeover
  have hown₁ : s₁.OwnOnly := run_ownOnly h₁ (initializeRuntime_ownOnly id terminalEpoch)
  have hown₂ : s₂.OwnOnly :=
    run_ownOnly h₂ (handle_ownOnly hown₁ (.takeover p₂ c₂ now draw))
  -- The identifier of the takeover is not drawn again.
  have hdraw : ∀ c ∈ after, ∀ drawn ∈ c.draws, lease.leaseId ≠ leaseKey drawn := by
    intro c hc drawn hmem heq
    obtain rfl := leaseKey_inj.mp (hkey.symm.trans heq)
    rw [List.filterMap_append, List.filterMap_cons] at hdistinct
    have hlater := (List.nodup_cons.mp (List.nodup_append.mp hdistinct).2.1).1
    exact hlater (List.mem_filterMap.mpr ⟨c, hc, hmem⟩)
  have hno₂ := run_noWriter h₂ hdraw hjoin hlive fun _ => hno _ hother
  exact ⟨authorizeReady_fenced hown₂ hno₂ hfence, authorizeReady_fenced hown₂ hno₂ hfence⟩

/-- The old writer is taken over; it renews its lease in vain and then writes with its old fence. -/
theorem fence_refused_after_takeover_renewed :
    let before : List TerminalCommand :=
      [.attach "connection-1", .markReplayReady "connection-1",
        .acquireLease "principal-1" "connection-1" .writer 0 "0"]
    let after : List TerminalCommand := [.renewLease "lease-0" "principal-1" "connection-1" 10]
    let request : AuthorizeRequest :=
      { principalId := "principal-1"
        connectionId := "connection-1"
        fence := some ⟨"term-1", "epoch-1", "lease-0", 1, "principal-1", "connection-1", "command-1"⟩
        now := 15
        later := 15
        draw := "2" }
    ∃ s, machine.Run (initializeRuntime "term-1" "epoch-1")
      (before ++ .takeover "principal-2" "connection-2" 5 "1" :: after) s ∧
      s.Writes "lease-1" ∧ ∃ e, (s.authorizeAndWrite request).2 = .error e := by
  intro before after request
  let s₁ := before.foldl handle (initializeRuntime "term-1" "epoch-1")
  have h₁ : machine.Run (initializeRuntime "term-1" "epoch-1") before s₁ :=
    .cons trivial rfl (.cons trivial rfl (.cons trivial rfl (.nil _)))
  let taken := (s₁.takeover "principal-2" "connection-2" 5 "1").1
  have h₂ : machine.Run taken after (after.foldl handle taken) := .cons trivial rfl (.nil _)
  obtain ⟨lease, htakeover, hkey⟩ : ∃ lease,
      (s₁.takeover "principal-2" "connection-2" 5 "1").2 = .ok lease ∧ lease.leaseId = "lease-1" :=
    ⟨_, rfl, rfl⟩
  have hlive : (after.foldl handle taken).Writes "lease-1" := ⟨_, rfl, by decide⟩
  refine ⟨_, h₁.append (.cons trivial rfl h₂), hlive, ?_⟩
  have hfence : request.fence = some
    ⟨"term-1", "epoch-1", "lease-0", 1, "principal-1", "connection-1", "command-1"⟩ := rfl
  exact (fence_refused_after_takeover h₁ htakeover h₂ (by decide) (hkey ▸ hlive) (by decide)
    (by decide) hfence).1

/-- A connection that was taken over writes without a fence and is authorized, while the lease of
the takeover is live. -/
theorem unfenced_write_after_takeover :
    let commands : List TerminalCommand :=
      [.attach "connection-1", .markReplayReady "connection-1",
        .acquireLease "principal-1" "connection-1" .writer 0 "0",
        .takeover "principal-2" "connection-2" 5 "1"]
    let request : AuthorizeRequest :=
      { principalId := "principal-1"
        connectionId := "connection-1"
        fence := none
        now := 10
        later := 10
        draw := "2" }
    ∃ s granted state lease, machine.Run (initializeRuntime "term-1" "epoch-1") commands s ∧
      (s.authorizeAndWrite request).2 = .ok granted ∧
      (s.authorizeAndWrite request).1.control.terminals "term-1" = some state ∧
      state.writers.get? "lease-1" = some lease ∧ lease.connectionId = "connection-2" ∧
      request.now < lease.expiresAtMs := by
  intro commands request
  have h : machine.Run (initializeRuntime "term-1" "epoch-1") commands
      (commands.foldl handle (initializeRuntime "term-1" "epoch-1")) :=
    .cons trivial rfl (.cons trivial rfl (.cons trivial rfl (.cons trivial rfl (.nil _))))
  exact ⟨_, _, _, _, h, rfl, rfl, rfl, rfl, by decide⟩

end TerminalRuntime
end PiDeck.Terminal
