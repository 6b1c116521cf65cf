import Mathlib
import PiDeck.Outbound.Effects
import PiDeck.Server.Attach
import PiDeck.Terminal.Renewal

/-! What an attach that is answered with an error leaves behind. The connection's marks are taken
back as if there had been none, and the owner keeps what it did before it failed. -/
namespace PiDeck.Server
open PiDeck.Wire PiDeck.Outbound PiDeck.Terminal
open PiDeck.Tasks (Value)

section Owner
variable {runtime : TerminalRuntime} {principal : Principal} {env : AttachSurroundings}

/-- The lease that an attach acquires. -/
def leaseRequest (runtime : TerminalRuntime) (principal : Principal) : TerminalLeaseRequest :=
  { terminalId := runtime.id
    terminalEpoch := runtime.terminalEpoch
    principalId := principal.principalId
    connectionId := principal.connectionId
    mode := AttachHost.leaseMode principal }

/-- The owner on the lease of an attach. -/
def acquired (runtime : TerminalRuntime) (env : AttachSurroundings) (principal : Principal) :
    TerminalRuntime × Except TerminalError RuntimeTerminalLease :=
  runtime.acquireLease principal.principalId principal.connectionId
    (AttachHost.leaseMode principal) env.now env.draw

/-- Nothing has expired, and the connection has the lease already, up to the instant to which it is
extended now. An owner without a state for its epoch grants no lease. -/
def LeaseStays (runtime : TerminalRuntime) (env : AttachSurroundings) (principal : Principal) :
    Prop :=
  ∀ state, runtime.control.stateForEpochMut runtime.id runtime.terminalEpoch = .ok state →
    state.purge env.now = state ∧
      state.Held (leaseRequest runtime principal) env.now runtime.control.leaseTtlMs

theorem registered_of_stateForEpochMut {registry : TerminalControlRegistry} {id epoch : String}
    {state : TerminalControlState} (h : registry.stateForEpochMut id epoch = .ok state) :
    registry.terminals id = some state := by
  unfold TerminalControlRegistry.stateForEpochMut TerminalControlRegistry.stateMut at h
  cases hstate : registry.terminals id with
  | none =>
    rw [hstate] at h
    cases h
  | some found =>
    simp only [hstate] at h
    split at h
    · cases h
    · exact congrArg some (Except.ok.inj h)

/-- A lease is granted without a change exactly when it stays as it is. -/
theorem acquired_eq_self_iff
    (hclock : env.now < Terminal.saturatingAdd env.now runtime.control.leaseTtlMs) :
    (acquired runtime env principal).1 = runtime ↔ LeaseStays runtime env principal := by
  have hcontrol : (acquired runtime env principal).1 = runtime ↔
      (runtime.control.acquire (leaseRequest runtime principal) env.now env.draw).1 =
        runtime.control := by
    constructor
    · intro h
      exact congrArg TerminalRuntime.control h
    · intro h
      change { runtime with control := (runtime.control.acquire (leaseRequest runtime principal)
        env.now env.draw).1 } = runtime
      rw [h]
  rw [hcontrol, TerminalControlRegistry.acquire]
  cases hstate : runtime.control.stateForEpochMut (leaseRequest runtime principal).terminalId
      (leaseRequest runtime principal).terminalEpoch with
  | error e =>
    refine iff_of_true rfl fun state hok => ?_
    cases hstate.symm.trans hok
  | ok state =>
    have hregistered := registered_of_stateForEpochMut hstate
    have hset : (runtime.control.set runtime.id (some (state.acquire (leaseRequest runtime principal)
        env.now runtime.control.leaseTtlMs env.draw).1) = runtime.control) ↔
        (state.acquire (leaseRequest runtime principal) env.now runtime.control.leaseTtlMs
          env.draw).1 = state := by
      constructor
      · intro h
        have hget := congrArg (fun registry => registry.terminals runtime.id) h
        simp only [TerminalControlRegistry.set, Function.update_self] at hget
        exact Option.some.inj (hget.trans hregistered)
      · intro h
        rw [h, TerminalControlRegistry.set, ← hregistered]
        exact congrArg (fun terminals => { runtime.control with terminals := terminals })
          (Function.update_eq_self _ _)
    refine hset.trans ((TerminalControlState.acquire_eq_self_iff hclock).trans ?_)
    constructor
    · intro h found hfound
      obtain rfl := Except.ok.inj (hstate.symm.trans hfound)
      exact h
    · intro h
      exact h state hstate

/-- The client is attached on top of an acquired lease without a change exactly when the lease stays
and the client was attached. -/
theorem attach_acquired_eq_self_iff {connectionId : String} :
    (acquired runtime env principal).1.attach connectionId = runtime ↔
      (acquired runtime env principal).1 = runtime ∧ connectionId ∈ runtime.attachedClients := by
  constructor
  · intro h
    have hclients : insert connectionId runtime.attachedClients = runtime.attachedClients :=
      congrArg TerminalRuntime.attachedClients h
    refine ⟨?_, Finset.insert_eq_self.mp hclients⟩
    have hcontrol : ((acquired runtime env principal).1.attach connectionId).control =
        runtime.control := congrArg TerminalRuntime.control h
    change (acquired runtime env principal).1.control = runtime.control at hcontrol
    change { runtime with control := (acquired runtime env principal).1.control } = runtime
    rw [hcontrol]
  · rintro ⟨h, hmem⟩
    rw [h, TerminalRuntime.attach, Finset.insert_eq_of_mem hmem]

end Owner

/-- The request passes the checks that come before the terminal is asked. -/
structure Asks (principal : Principal) (args : List Value) (id : String) : Prop where
  observes : principal.canObserve = true
  valid : validAttachArgs args = true
  id : stringArg args 0 = some id
  mode : (args[2]?.bind Value.asStr) ∉ [some "semantic", some "both"]

/-- If the request gets to the owner of a live terminal, it finds what it would leave there: the
lease and, if the owner goes on to attach it, its connection among the clients. -/
def AttachHost.SessionStays (host : AttachHost) (env : AttachSurroundings) (principal : Principal)
    (args : List Value) (id : String) : Prop :=
  ∀ runtime, Asks principal args id → host.terminals id = some runtime → env.acquire ≠ .refused →
    LeaseStays runtime env principal ∧
      (env.acquire = .answered → (∃ lease, (acquired runtime env principal).2 = .ok lease) →
        env.attach ≠ .refused → principal.connectionId ∈ runtime.attachedClients)

/-- The connection has nothing of the terminal. -/
structure AttachHost.Detached (host : AttachHost) (id connectionId : String) : Prop where
  attached : id ∉ host.attached
  raw : id ∉ host.raw
  flow : host.outbound.flow id = none
  replayRequired : id ∉ host.outbound.replayRequired
  attaching : id ∉ host.outbound.attaching
  subscribers : connectionId ∉ host.subscribers id

/-- The sessions of all terminals, the fences of the connection and its subscriptions are the same. -/
structure AttachHost.Untouched (before after : AttachHost) : Prop where
  terminals : after.terminals = before.terminals
  attached : after.attached = before.attached
  raw : after.raw = before.raw
  terminalStreams : after.terminalStreams = before.terminalStreams
  subscribers : after.subscribers = before.subscribers
  flow : after.outbound.flow = before.outbound.flow
  replayRequired : after.outbound.replayRequired = before.outbound.replayRequired
  attaching : after.outbound.attaching = before.outbound.attaching

namespace AttachHost
variable {host after : AttachHost} {env : AttachSurroundings} {principal : Principal}
  {args : List Value} {id : String}

theorem update_eq_self_iff {runtime updated : TerminalRuntime}
    (h : host.terminals id = some runtime) :
    Function.update host.terminals id (some updated) = host.terminals ↔ updated = runtime := by
  rw [Function.update_eq_self_iff, h, Option.some.injEq]

theorem sessionStays_iff {runtime : TerminalRuntime} (hasks : Asks principal args id)
    (hlive : host.terminals id = some runtime) :
    host.SessionStays env principal args id ↔ (env.acquire ≠ .refused →
      LeaseStays runtime env principal ∧
        (env.acquire = .answered → (∃ lease, (acquired runtime env principal).2 = .ok lease) →
          env.attach ≠ .refused → principal.connectionId ∈ runtime.attachedClients)) := by
  constructor
  · intro h
    exact h runtime hasks hlive
  · intro h found _ hfound
    obtain rfl := Option.some.inj (hlive.symm.trans hfound)
    exact h

theorem attachTerminalBinary_eq (hasks : Asks principal args id) :
    host.attachTerminalBinary env principal args =
      match host.acquireLease env principal id with
      | (host, .error error) => (host, .error error)
      | (host, .ok ()) => host.attachTerminal env id principal.connectionId := by
  rw [attachTerminalBinary, if_neg (by rw [hasks.observes]; simp),
    if_neg (by rw [hasks.valid]; simp), hasks.id]
  exact if_neg hasks.mode

/-- The owners that a failed attach leaves are those it found exactly when the session stays. -/
theorem attachTerminal_terminals {runtime : TerminalRuntime} {error : AttachError}
    (hclock : env.now < Terminal.saturatingAdd env.now runtime.control.leaseTtlMs)
    (hasks : Asks principal args id) (hlive : host.terminals id = some runtime)
    (h : host.attachTerminalBinary env principal args = (after, .error error)) :
    after.terminals = host.terminals ↔ host.SessionStays env principal args id := by
  have hlease := @acquired_eq_self_iff runtime principal env hclock
  rw [attachTerminalBinary_eq hasks, acquireLease, hlive] at h
  rw [sessionStays_iff hasks hlive]
  cases hacquire : env.acquire with
  | refused =>
    simp only [hacquire, request] at h
    cases h
    exact iff_of_true rfl fun hne => absurd rfl hne
  | lost =>
    simp only [hacquire, request] at h
    cases h
    refine (update_eq_self_iff hlive).trans (hlease.trans ?_)
    exact ⟨fun hstays _ => ⟨hstays, nofun⟩, fun hstays => (hstays nofun).1⟩
  | answered =>
    cases hgrant : (acquired runtime env principal).2 with
    | error e =>
      change _ = (after, _) at h
      simp only [hacquire, request, acquired] at h hgrant
      rw [hgrant] at h
      cases h
      refine (update_eq_self_iff hlive).trans (hlease.trans ?_)
      refine ⟨fun hstays _ => ⟨hstays, fun _ hlease => ?_⟩, fun hstays => (hstays nofun).1⟩
      obtain ⟨lease, hlease⟩ := hlease
      cases hlease
    | ok lease =>
      simp only [hacquire, request, acquired] at h hgrant
      rw [hgrant] at h
      let granted := host.setTerminal id (acquired runtime env principal).1
      change granted.attachTerminal env id principal.connectionId = (after, .error error) at h
      have hgrantee : granted.terminals id = some (acquired runtime env principal).1 :=
        Function.update_self ..
      -- The client is attached, whether or not the owner then takes a snapshot.
      have hattached : (granted.setTerminal id ((acquired runtime env principal).1.attach
          principal.connectionId)).terminals = host.terminals ↔
          LeaseStays runtime env principal ∧
            principal.connectionId ∈ runtime.attachedClients := by
        have htwice : (granted.setTerminal id ((acquired runtime env principal).1.attach
            principal.connectionId)).terminals = Function.update host.terminals id
              (some ((acquired runtime env principal).1.attach principal.connectionId)) :=
          Function.update_idem ..
        rw [htwice, update_eq_self_iff hlive, attach_acquired_eq_self_iff, hlease]
      rw [attachTerminal, hgrantee] at h
      cases hattach : env.attach with
      | refused =>
        simp only [hattach, request] at h
        rw [← (Prod.mk.inj h).1]
        refine (update_eq_self_iff hlive).trans (hlease.trans ?_)
        exact ⟨fun hstays _ => ⟨hstays, fun _ _ hne => absurd rfl hne⟩,
          fun hstays => (hstays nofun).1⟩
      | lost =>
        simp only [hattach, request] at h
        rw [← (Prod.mk.inj h).1]
        refine hattached.trans ⟨fun hstays _ => ⟨hstays.1, fun _ _ _ => hstays.2⟩, fun hstays => ?_⟩
        exact ⟨(hstays nofun).1, (hstays nofun).2 rfl ⟨lease, rfl⟩ nofun⟩
      | answered =>
        simp only [hattach, request, attachOwner] at h
        rw [← (Prod.mk.inj h).1]
        refine hattached.trans ⟨fun hstays _ => ⟨hstays.1, fun _ _ _ => hstays.2⟩, fun hstays => ?_⟩
        exact ⟨(hstays nofun).1, (hstays nofun).2 rfl ⟨lease, rfl⟩ nofun⟩

/-- Short of the owner of a live terminal nothing is done to any. -/
theorem attachTerminalBinary_short {error : AttachError}
    (hshort : ∀ runtime, Asks principal args id → host.terminals id = some runtime → False)
    (hid : stringArg args 0 = none ∨ stringArg args 0 = some id)
    (h : host.attachTerminalBinary env principal args = (after, .error error)) : after = host := by
  by_cases hasks : Asks principal args id
  · have hdead : host.terminals id = none := by
      cases hlive : host.terminals id with
      | none => rfl
      | some runtime => exact (hshort runtime hasks hlive).elim
    rw [attachTerminalBinary_eq hasks, acquireLease, hdead] at h
    simp only [attachTerminal, hdead] at h
    split at h <;> cases h
    rfl
  · rw [attachTerminalBinary] at h
    split at h
    · cases h
      rfl
    split at h
    · cases h
      rfl
    rename_i hobserves hvalid
    obtain hnone | hsome := hid
    · rw [hnone] at h
      cases h
      rfl
    · rw [hsome] at h
      simp only at h
      split at h
      · cases h
        rfl
      · rename_i hmode
        exact absurd ⟨by simpa using hobserves, by simpa using hvalid, hsome, hmode⟩ hasks

/-- Only the owners of terminals may differ. -/
def SameConnection (before after : AttachHost) : Prop :=
  after = { before with terminals := after.terminals }

theorem SameConnection.trans {before between : AttachHost} (h : before.SameConnection between)
    (h' : between.SameConnection after) : before.SameConnection after := by
  rw [SameConnection] at h h' ⊢
  rw [h', h]

theorem request_frame {α : Type} (delivered : Delivered)
    (handled : TerminalRuntime × Except AttachError α) :
    host.SameConnection (host.request id delivered handled).1 := by
  cases delivered <;> rfl

theorem acquireLease_frame : host.SameConnection (host.acquireLease env principal id).1 := by
  unfold acquireLease
  cases host.terminals id with
  | none => rfl
  | some runtime => exact request_frame _ _

theorem attachTerminal_frame {connectionId : String} :
    host.SameConnection (host.attachTerminal env id connectionId).1 := by
  unfold attachTerminal
  cases host.terminals id with
  | none => cases env.archive <;> rfl
  | some runtime => exact request_frame _ _

/-- The runtime changes the owners of terminals only. -/
theorem attachTerminalBinary_frame :
    host.SameConnection (host.attachTerminalBinary env principal args).1 := by
  unfold attachTerminalBinary
  split
  · rfl
  split
  · rfl
  cases stringArg args 0 with
  | none => rfl
  | some id =>
    simp only
    split
    · rfl
    · have hacquire := @acquireLease_frame host env principal id
      cases hrun : host.acquireLease env principal id with
      | mk between result =>
        rw [hrun] at hacquire
        cases result with
        | error error => exact hacquire
        | ok => exact hacquire.trans attachTerminal_frame

/-! ### The connection -/

/-- An error that is enqueued lowers the fence and forgets the flow of the terminal. -/
theorem answer_error (h : host.answer env id none = (after, .answered false)) :
    after = { host with outbound := after.outbound } ∧
      after.outbound.flow = Function.update host.outbound.flow id none ∧
      after.outbound.replayRequired = host.outbound.replayRequired.erase id ∧
      after.outbound.attaching = host.outbound.attaching.erase id := by
  cases hrun : host.outbound.enqueueAttachResult id none none none false env.response with
  | mk outbound enqueued =>
    have hanswer : host.answer env id none =
        ({ host with outbound := outbound }, if enqueued then .answered false else .closed) := by
      simp only [answer, Option.map_none, Option.bind_none, Option.isSome_none, hrun]
    rw [hanswer] at h
    cases enqueued with
    | false => cases (Prod.mk.inj h).2
    | true =>
      obtain rfl := (Prod.mk.inj h).1
      refine ⟨rfl, ?_⟩
      unfold ConnectionOutbound.enqueueAttachResult at hrun
      simp only [Option.getD_none, Bool.false_eq_true, if_false] at hrun
      split at hrun
      · cases hrun
      split at hrun
      · cases hrun
      rename_i pushed hpush
      obtain ⟨-, -, hpushed, -⟩ := ConnectionOutbound.pushPriority_ok hpush
      simp only [ConnectionOutbound.answerAttach, Prod.mk.injEq, and_true] at hrun
      obtain rfl := hrun
      rw [hpushed]
      exact ⟨rfl, rfl, rfl⟩

/-- What a failed attach leaves of the connection. -/
structure Forgotten (before after : AttachHost) (id connectionId : String) : Prop where
  attached : after.attached = before.attached.erase id
  raw : after.raw = before.raw.erase id
  terminalStreams : after.terminalStreams = before.terminalStreams
  subscribers : after.subscribers =
    Function.update before.subscribers id ((before.subscribers id).erase connectionId)
  flow : after.outbound.flow = Function.update before.outbound.flow id none
  replayRequired : after.outbound.replayRequired = before.outbound.replayRequired.erase id
  attaching : after.outbound.attaching = before.outbound.attaching.erase id

/-- Taking the marks back takes away what was there before them, too. -/
theorem unmark_answer {between : AttachHost} {connectionId : String} {acknowledged : ℕ}
    {mode : String} (hbetween : (host.mark id connectionId acknowledged mode).SameConnection between)
    (h : (between.unmark id connectionId).answer env id none = (after, .answered false)) :
    host.Forgotten after id connectionId ∧ after.terminals = between.terminals := by
  obtain ⟨hafter, hflow, hreplay, hattaching⟩ := answer_error h
  rw [SameConnection] at hbetween
  have hraw : after.raw = host.raw.erase id := by
    rw [hafter, hbetween]
    simp only [unmark, mark]
    split
    · exact Finset.erase_insert_eq_erase ..
    · rfl
  have hsubscribers : after.subscribers =
      Function.update host.subscribers id ((host.subscribers id).erase connectionId) := by
    rw [hafter, hbetween]
    simp only [unmark, mark]
    split_ifs
    · rw [Function.update_idem, Function.update_self, Finset.erase_insert_eq_erase]
    · rfl
    · rw [Function.update_idem, Function.update_self, Finset.erase_insert_eq_erase]
    · rfl
  refine ⟨⟨?_, hraw, ?_, hsubscribers, ?_, ?_, ?_⟩, by rw [hafter]; rfl⟩
  · rw [hafter, hbetween]
    exact Finset.erase_insert_eq_erase ..
  · rw [hafter, hbetween]
    rfl
  · rw [hflow, hbetween]
    simp only [unmark, mark, ConnectionOutbound.detach, ConnectionOutbound.attach,
      ConnectionOutbound.setFlow, Function.update_idem]
  · rw [hreplay, hbetween]
    simp only [unmark, mark, ConnectionOutbound.detach, ConnectionOutbound.attach,
      ConnectionOutbound.setFlow, Finset.erase_idem]
  · rw [hattaching, hbetween]
    simp only [unmark, mark, ConnectionOutbound.detach, ConnectionOutbound.attach,
      ConnectionOutbound.setFlow, Finset.erase_idem, Finset.erase_insert_eq_erase]

theorem forgotten_untouched_iff {connectionId : String} (h : host.Forgotten after id connectionId) :
    host.Untouched after ↔ after.terminals = host.terminals ∧ host.Detached id connectionId := by
  constructor
  · intro hu
    refine ⟨hu.terminals, ⟨?_, ?_, ?_, ?_, ?_, ?_⟩⟩
    · exact Finset.erase_eq_self.mp (h.attached.symm.trans hu.attached)
    · exact Finset.erase_eq_self.mp (h.raw.symm.trans hu.raw)
    · exact (Function.update_eq_self_iff.mp (h.flow.symm.trans hu.flow)).symm
    · exact Finset.erase_eq_self.mp (h.replayRequired.symm.trans hu.replayRequired)
    · exact Finset.erase_eq_self.mp (h.attaching.symm.trans hu.attaching)
    · exact Finset.erase_eq_self.mp
        (Function.update_eq_self_iff.mp (h.subscribers.symm.trans hu.subscribers))
  · rintro ⟨hterminals, hd⟩
    refine ⟨hterminals, ?_, ?_, h.terminalStreams, ?_, ?_, ?_, ?_⟩
    · rw [h.attached, Finset.erase_eq_of_notMem hd.attached]
    · rw [h.raw, Finset.erase_eq_of_notMem hd.raw]
    · rw [h.subscribers, Finset.erase_eq_of_notMem hd.subscribers, Function.update_eq_self]
    · rw [h.flow, ← hd.flow, Function.update_eq_self]
    · rw [h.replayRequired, Finset.erase_eq_of_notMem hd.replayRequired]
    · rw [h.attaching, Finset.erase_eq_of_notMem hd.attaching]

/-- The marks that a command makes for its terminal. -/
def marked (host : AttachHost) (principal : Principal) (command : TerminalWsCommand) (id : String) :
    AttachHost :=
  host.mark id principal.connectionId ((command.args[1]?.bind Value.asU64).getD 0)
    ((command.args[2]?.bind Value.asStr).getD "raw")

/-- A request that is answered with an error has failed in the runtime, after the marks. -/
theorem handleBinaryAttach_failed {frame : AttachFrame} {command : TerminalWsCommand}
    (hcommand : frame.command = some command)
    (hid : command.args[0]?.bind Value.asStr = some id)
    (h : host.handleBinaryAttach env principal frame = (after, .answered false)) :
    ∃ between error,
      (host.marked principal command id).attachTerminalBinary env principal command.args =
        (between, .error error) ∧
      (between.unmark id principal.connectionId).answer env id none = (after, .answered false) := by
  rw [handleBinaryAttach] at h
  split at h
  · cases (Prod.mk.inj h).2
  simp only [hcommand] at h
  split at h
  · cases (Prod.mk.inj h).2
  simp only [hid] at h
  rw [← marked] at h
  cases hrun : (host.marked principal command id).attachTerminalBinary env principal
      command.args with
  | mk between result =>
    rw [hrun] at h
    cases result with
    | ok attach =>
      exfalso
      simp only [answer, Option.isSome_some] at h
      have hresult := (Prod.mk.inj h).2
      split at hresult <;> cases hresult
    | error error => exact ⟨between, error, rfl, h⟩

/-- An attach that is answered with an error leaves no trace exactly when the connection had nothing
of the terminal and the owner, if it was asked, had the lease and the client already. -/
theorem failed_attach_untouched_iff {frame : AttachFrame} {command : TerminalWsCommand}
    (hcommand : frame.command = some command)
    (hid : command.args[0]?.bind Value.asStr = some id)
    (hclock : ∀ runtime, host.terminals id = some runtime →
      env.now < Terminal.saturatingAdd env.now runtime.control.leaseTtlMs)
    (h : host.handleBinaryAttach env principal frame = (after, .answered false)) :
    host.Untouched after ↔
      host.Detached id principal.connectionId ∧
        host.SessionStays env principal command.args id := by
  obtain ⟨between, error, hrun, hanswer⟩ := handleBinaryAttach_failed hcommand hid h
  have hframe := @attachTerminalBinary_frame (host.marked principal command id) env principal
    command.args
  rw [hrun] at hframe
  obtain ⟨hforgotten, hterminals⟩ := unmark_answer hframe hanswer
  rw [forgotten_untouched_iff hforgotten, hterminals, and_comm]
  refine and_congr_right fun _ => ?_
  by_cases hlive : ∃ runtime, Asks principal command.args id ∧ host.terminals id = some runtime
  · obtain ⟨runtime, hasks, hruntime⟩ := hlive
    exact @attachTerminal_terminals (host.marked principal command id) between env principal
      command.args id runtime error (hclock runtime hruntime) hasks hruntime hrun
  · have hstring : stringArg command.args 0 = none ∨ stringArg command.args 0 = some id := by
      rw [stringArg, hid]
      by_cases hempty : id = ""
      · exact .inl (by simp [hempty])
      · exact .inr (by simp [hempty])
    have hshort : between = host.marked principal command id :=
      attachTerminalBinary_short
        (fun runtime hasks hruntime => hlive ⟨runtime, hasks, hruntime⟩) hstring hrun
    have hunchanged : between.terminals = host.terminals := by
      rw [hshort]
      rfl
    exact iff_of_true hunchanged fun runtime hasks hruntime =>
      absurd ⟨runtime, hasks, hruntime⟩ hlive

/-- A connection that has just been made, on a host with these terminals. -/
def newConnection (terminals : String → Option TerminalRuntime) : AttachHost :=
  { terminals := terminals
    subscribers := fun _ => ∅
    outbound := .new (1024 * 1024)
    attached := ∅
    raw := ∅
    terminalStreams := fun _ => none }

/-- The frame that asks for a terminal from its first sequence. -/
def attachFrame (id : String) : AttachFrame :=
  { streamId := 0
    position := ⟨0, 1⟩
    command := some ⟨"request-1", "terminal:attach", [.string id]⟩ }

/-- Everything is answered, but there is no archive and the snapshot is too long. -/
def oversized : AttachSurroundings :=
  { now := 1700000000000
    draw := "lease-1"
    acquire := .answered
    attach := .answered
    cut := none
    archive := none
    response := [123, 125] }

theorem untouched_by_unknown_terminal :
    ∃ after, (newConnection fun _ => none).handleBinaryAttach oversized (.ofLocal "page")
        (attachFrame "term") = (after, .answered false) ∧
      (newConnection fun _ => none).Untouched after := by
  have hrun : (newConnection fun _ => none).handleBinaryAttach oversized (.ofLocal "page")
      (attachFrame "term") = (_, .answered false) := Prod.ext rfl (by decide +kernel)
  have hclock : ∀ runtime, (newConnection fun _ => none).terminals "term" = some runtime →
      oversized.now < Terminal.saturatingAdd oversized.now runtime.control.leaseTtlMs := nofun
  refine ⟨_, hrun, (failed_attach_untouched_iff rfl rfl hclock hrun).mpr ⟨?_, ?_⟩⟩
  · exact ⟨by simp [newConnection], by simp [newConnection], rfl,
      by simp [newConnection, ConnectionOutbound.new],
      by simp [newConnection, ConnectionOutbound.new], by simp [newConnection]⟩
  · intro runtime _ hlive
    cases hlive

def oneTerminal : AttachHost :=
  newConnection (Function.update (fun _ => none) "term"
    (some (.initializeRuntime "term" "epoch-1")))

/-- The snapshot of a live terminal is too long: the client stays attached, with the lease that was
acquired for it. -/
theorem oversized_snapshot_leaves_client :
    ∃ after,
      oneTerminal.handleBinaryAttach oversized (.ofLocal "page") (attachFrame "term") =
        (after, .answered false) ∧
      (oneTerminal.terminals "term").map (·.attachedClients) = some ∅ ∧
      (after.terminals "term").map (·.attachedClients) = some {"page"} ∧
      ((after.terminals "term").bind fun runtime =>
        (runtime.control.terminals "term").map (·.writers.length)) = some 1 ∧
      ¬ oneTerminal.Untouched after := by
  have hbefore : (oneTerminal.terminals "term").map (·.attachedClients) = some ∅ := by
    decide +kernel
  have hafter : ((oneTerminal.handleBinaryAttach oversized (.ofLocal "page")
      (attachFrame "term")).1.terminals "term").map (·.attachedClients) = some {"page"} := by
    decide +kernel
  refine ⟨(oneTerminal.handleBinaryAttach oversized (.ofLocal "page") (attachFrame "term")).1,
    Prod.ext rfl (by decide +kernel), hbefore, hafter, by decide +kernel, fun h => ?_⟩
  rw [h.terminals, hbefore] at hafter
  simp at hafter

end AttachHost
end PiDeck.Server
