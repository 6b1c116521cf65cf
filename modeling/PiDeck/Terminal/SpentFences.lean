import Mathlib
import PiDeck.Terminal.Batching

/-! A write spends its fence when it is authorized, before the input queue is asked for room. A
group of writes that does not fit is refused with all of its fences spent. -/
namespace PiDeck.Terminal
open PiDeck.Collections PiDeck.Reactor PiDeck.Transition

namespace TerminalControlState
variable {state : TerminalControlState} {fence : TerminalMutationFence} {now ttl : ℤ}
  {lease : RuntimeTerminalLease}

/-- A command identifier that has just been recorded is not forgotten. -/
theorem contains_recordCommand {commandId : String}
    (h : state.commandIds.contains commandId = false) :
    (state.recordCommand commandId now).commandIds.contains commandId = true := by
  have hfresh : commandId ∉ state.commandIds.keys := by
    rw [← IndexMap.contains_iff, h]
    exact Bool.false_ne_true
  have hentries := IndexMap.entries_insert_of_notMem (v := now) hfresh
  rw [IndexMap.contains_iff, IndexMap.mem_keys]
  refine ⟨now, ?_⟩
  rw [recordCommand]
  dsimp only
  rw [IndexMap.entries_dropOldest, IndexMap.length, hentries, List.length_append,
    List.length_singleton, List.drop_append_of_le_length (by unfold maxCommandIds; omega)]
  exact List.mem_append_right _ (List.mem_singleton_self _)

@[simp] theorem commandIds_renewLease (leaseId : String) :
    (state.renewLease leaseId now ttl).1.commandIds = state.commandIds := by
  unfold renewLease
  dsimp only
  split
  · rfl
  · split <;> rfl

@[simp] theorem commandIds_purge : (state.purge now).commandIds = state.commandIds := rfl

/-- An authorized mutation records its command identifier, which was not recorded before. -/
theorem authorizeMutation_records (h : (state.authorizeMutation fence now ttl).2 = .ok lease) :
    state.commandIds.contains fence.commandId = false ∧
      (state.authorizeMutation fence now ttl).1.commandIds.contains fence.commandId = true := by
  unfold authorizeMutation at h ⊢
  dsimp only at h ⊢
  split at h
  · cases h
  split at h
  · cases h
  rename_i writer hwriter hmatch
  split at h
  · cases h
  rename_i hfresh
  have hfresh : state.commandIds.contains fence.commandId = false := by simpa using hfresh
  refine ⟨hfresh, ?_⟩
  rw [if_neg hmatch, if_neg (by simpa using hfresh), commandIds_renewLease]
  exact contains_recordCommand hfresh

end TerminalControlState

namespace TerminalRuntime
variable {runtime : TerminalRuntime} {request : AuthorizeRequest} {data : Bytes}
  {lease : Option RuntimeTerminalLease}

/-- An authorized write with a fence leaves another registry than it has found. -/
theorem control_ne_of_authorized (hfence : request.fence.isSome = true)
    (h : (runtime.authorizeWrite (.authorizeAndWrite request data)).2.result = .ok lease) :
    (runtime.authorizeWrite (.authorizeAndWrite request data)).1.control ≠ runtime.control := by
  obtain ⟨fence, hfence⟩ := Option.isSome_iff_exists.mp hfence
  simp only [authorizeWrite, authorizeAndWrite, authorizeReady] at h ⊢
  split at h
  · rename_i hready
    rw [if_pos hready]
    simp only [authorize, reply, authorizeTerminal, hfence] at h ⊢
    obtain ⟨granted, hgranted⟩ : ∃ granted, (runtime.control.authorizeMutation
        { fence with principalId := request.principalId, connectionId := request.connectionId }
        request.now).2 = .ok granted := by
      cases hresult : (runtime.control.authorizeMutation
        { fence with principalId := request.principalId, connectionId := request.connectionId }
        request.now).2 with
      | error error => simp [hresult, Except.mapError, Except.map] at h
      | ok granted => exact ⟨granted, rfl⟩
    obtain ⟨state, hstate, hok, hafter⟩ := TerminalControlRegistry.onState_ok hgranted
    intro hsame
    obtain ⟨hunused, hrecorded⟩ := TerminalControlState.authorizeMutation_records hok
    have hbefore := TerminalControlRegistry.stateForEpochMut_ok hstate
    have hterminals := congrArg (fun control => control.terminals fence.terminalId) hsame
    rw [TerminalControlRegistry.authorizeMutation, hafter, hbefore] at hterminals
    rw [Option.some.inj hterminals, hunused] at hrecorded
    cases hrecorded
  · simp [Except.map] at h

/-- The writes with what they find of the registry and of the clients. -/
def before (runtime : TerminalRuntime) : List WriteCommand → List (TerminalRuntime × WriteCommand)
  | [] => []
  | command :: commands =>
    (runtime, command) :: (runtime.authorizeWrite command).1.before commands

/-- The write has left the registry as it was, and would be authorized again. -/
def Unspent (runtime : TerminalRuntime) (command : WriteCommand) : Prop :=
  (runtime.authorizeWrite command).1.control = runtime.control ∧
    ∃ lease, ((runtime.authorizeWrite command).1.authorizeWrite command).2.result = .ok lease

end TerminalRuntime

def WriteCommand.Fenced : WriteCommand → Prop
  | .write _ => False
  | .authorizeAndWrite request _ => request.fence.isSome = true

namespace OwnedTerminal
variable {owner : OwnedTerminal} {commands : List WriteCommand}

/-- Every write that is answered with a full queue is unspent. -/
def KeepsFences (owner : OwnedTerminal) (commands : List WriteCommand) (replies : List Reply) :
    Prop :=
  ∀ handled ∈ (owner.runtime.before commands).zip replies, handled.2 = .queueFull →
    handled.1.1.Unspent handled.1.2

/-- The input queue has room for every group of writes that are handled together. -/
def EveryGroupFits (owner : OwnedTerminal) : List (List WriteCommand) → Prop
  | [] => True
  | group :: groups =>
    AllFit owner.input (owner.runtime.authorizeWrites group).2 ∧
      EveryGroupFits (owner.handleWrites group).1 groups

theorem before_append (runtime : TerminalRuntime) (commands more : List WriteCommand) :
    runtime.before (commands ++ more) =
      runtime.before commands ++ (runtime.authorizeWrites commands).1.before more := by
  induction commands generalizing runtime with
  | nil => rfl
  | cons command commands ih => simp [TerminalRuntime.before, TerminalRuntime.authorizeWrites, ih]

@[simp] theorem length_before (runtime : TerminalRuntime) (commands : List WriteCommand) :
    (runtime.before commands).length = commands.length := by
  induction commands generalizing runtime with
  | nil => rfl
  | cons command commands ih => simp [TerminalRuntime.before, ih]

theorem reply_ne_queueFull (verdict : Verdict) : verdict.reply true ≠ .queueFull := by
  unfold Verdict.reply
  split
  · exact nofun
  · exact nofun

/-- Of a group that is refused, each authorized write has spent its fence. -/
theorem spent_of_refused (runtime : TerminalRuntime) (commands : List WriteCommand)
    (hfenced : ∀ command ∈ commands, command.Fenced)
    (hscratch : scratch (runtime.authorizeWrites commands).2 ≠ []) :
    ∃ handled ∈ (runtime.before commands).zip
        ((runtime.authorizeWrites commands).2.map (Verdict.reply false)),
      handled.2 = .queueFull ∧ ¬handled.1.1.Unspent handled.1.2 := by
  induction commands generalizing runtime with
  | nil => exact absurd rfl hscratch
  | cons command commands ih =>
    simp only [TerminalRuntime.authorizeWrites, TerminalRuntime.before, List.map_cons,
      List.zip_cons_cons, List.mem_cons, exists_eq_or_imp]
    cases hresult : (runtime.authorizeWrite command).2.result with
    | ok lease =>
      refine .inl ⟨by simp [Verdict.reply, hresult], ?_⟩
      have hcommand := hfenced command (List.mem_cons_self ..)
      cases command with
      | write data => exact absurd hcommand id
      | authorizeAndWrite request data =>
        exact fun hunspent => TerminalRuntime.control_ne_of_authorized hcommand hresult hunspent.1
    | error error =>
      refine .inr (ih _ (fun c hc => hfenced c (List.mem_cons_of_mem _ hc)) ?_)
      simpa [TerminalRuntime.authorizeWrites, Verdict.authorized, hresult] using hscratch

/-- The groups of a batch, one after the other. -/
theorem keepsFences_groups (owner : OwnedTerminal) (groups : List (List WriteCommand))
    (hfenced : ∀ command ∈ groups.flatten, command.Fenced) :
    ∃ handled replies, owner.handleBatches (groups.map .writes) = some (handled, replies, true) ∧
      (owner.KeepsFences groups.flatten replies ↔ owner.EveryGroupFits groups) := by
  induction groups generalizing owner with
  | nil => exact ⟨owner, [], rfl, by simp [KeepsFences, EveryGroupFits]⟩
  | cons group groups ih =>
    obtain ⟨handled, replies, hrest, hiff⟩ := ih (owner.handleWrites group).1 fun command hc =>
      hfenced command (by simp only [List.flatten_cons, List.mem_append, hc, or_true])
    refine ⟨handled, (owner.handleWrites group).2 ++ replies, ?_, ?_⟩
    · simp [handleBatches, handleBatch, hrest]
    have hlength : (owner.runtime.before group).length = (owner.handleWrites group).2.length := by
      simp [handleWrites]
    have hsplit : owner.KeepsFences (group :: groups).flatten
        ((owner.handleWrites group).2 ++ replies) ↔
          owner.KeepsFences group (owner.handleWrites group).2 ∧
            (owner.handleWrites group).1.KeepsFences groups.flatten replies := by
      unfold KeepsFences
      rw [List.flatten_cons, before_append, List.zip_append hlength, List.forall_mem_append]
      rfl
    rw [hsplit, hiff, EveryGroupFits]
    refine and_congr_left fun _ => ?_
    by_cases hall : AllFit owner.input (owner.runtime.authorizeWrites group).2
    · have hreplies : (owner.handleWrites group).2 =
          (owner.runtime.authorizeWrites group).2.map (Verdict.reply true) :=
        (takeTogether_of_allFit hall).1
      refine iff_of_true ?_ hall
      intro done hdone hfull
      have hmem := (List.of_mem_zip hdone).2
      rw [hreplies] at hmem
      obtain ⟨verdict, -, hverdict⟩ := List.mem_map.mp hmem
      exact absurd (hverdict.trans hfull) (reply_ne_queueFull verdict)
    · have hreplies : (owner.handleWrites group).2 =
          (owner.runtime.authorizeWrites group).2.map (Verdict.reply false) :=
        congrArg Prod.snd (takeTogether_of_not_allFit hall)
      refine iff_of_false ?_ hall
      intro hkeeps
      obtain ⟨done, hdone, hfull, hspent⟩ := spent_of_refused owner.runtime group
        (fun command hc => hfenced command (by simp [hc])) (fun hempty => hall (.inl hempty))
      rw [KeepsFences, hreplies] at hkeeps
      exact hspent (hkeeps done hdone hfull)

/-- A batch of fenced writes spends no fence of a write that it refuses for want of room exactly if
it refuses none. -/
theorem keeps_fences_iff (owner : OwnedTerminal) (commands : List WriteCommand)
    (hfenced : ∀ command ∈ commands, command.Fenced) :
    ∃ handled replies, owner.handleTerminalCommandBatch (commands.map .write) =
        some (handled, replies, true) ∧
      (owner.KeepsFences commands replies ↔ owner.EveryGroupFits (writeGroups commands)) := by
  obtain ⟨hgroups, hflatten⟩ := group_writes commands
  obtain ⟨handled, replies, hhandled, hiff⟩ :=
    owner.keepsFences_groups (writeGroups commands) (by rwa [hflatten])
  rw [hflatten] at hiff
  exact ⟨handled, replies, by rw [handleTerminalCommandBatch, hgroups, hhandled], hiff⟩

/-- A client that may write, and a queue of so many bytes. -/
def controlled (bytes : ℕ) : OwnedTerminal :=
  let started := launched "terminal" "epoch" ⟨80, 24⟩
  let ready := ((started.runtime.attach "client").markReplayReady "client").1
  { started with
    runtime := (ready.acquireLease "principal" "client" .writer 0 "1").1
    input := ⟨[⟨List.replicate bytes 0, 0, .input⟩], bytes⟩ }

def fencedWrite : WriteCommand :=
  .authorizeAndWrite
    { principalId := "principal"
      connectionId := "client"
      fence := some
        { terminalId := "terminal"
          terminalEpoch := "epoch"
          leaseId := "lease-1"
          leaseGeneration := 1
          principalId := "principal"
          connectionId := "client"
          commandId := "command" }
      now := 1
      later := 1
      draw := "2" } [0]

theorem keeps_fences_roomy : ∃ handled replies,
    (controlled 1).handleTerminalCommandBatch ([fencedWrite].map .write) =
        some (handled, replies, true) ∧
      (controlled 1).KeepsFences [fencedWrite] replies := by
  obtain ⟨handled, replies, hhandled, hiff⟩ :=
    keeps_fences_iff (controlled 1) [fencedWrite] (by simp [fencedWrite, WriteCommand.Fenced])
  exact ⟨handled, replies, hhandled, hiff.mpr ⟨.inr (by decide +kernel), trivial⟩⟩

/-- The write is refused for want of room, and refused as a duplicate when it is sent again. -/
theorem fence_spent : ∃ handled,
    (controlled maxPendingInputBytesPerTerminal).handleTerminalCommandBatch
        ([fencedWrite].map .write) = some (handled, [.queueFull], true) ∧
      (handled.runtime.authorizeWrite fencedWrite).2.result =
        .error (.control ⟨.commandDuplicate, "terminal",
          "terminal command ID was already accepted", some "lease-1"⟩) ∧
      ¬(controlled maxPendingInputBytesPerTerminal).KeepsFences [fencedWrite] [.queueFull] := by
  have hagain : (((controlled maxPendingInputBytesPerTerminal).runtime.authorizeWrite
      fencedWrite).1.authorizeWrite fencedWrite).2.result = .error (.control ⟨.commandDuplicate,
        "terminal", "terminal command ID was already accepted", some "lease-1"⟩) := by
    decide +kernel
  have hreplies : ((controlled maxPendingInputBytesPerTerminal).handleWrites [fencedWrite]).2 =
      [.queueFull] := by
    decide +kernel
  refine ⟨_, congrArg (fun replies => some (_, replies, true)) hreplies, hagain, ?_⟩
  intro hkeeps
  obtain ⟨lease, hlease⟩ := (hkeeps _ (List.mem_singleton_self _) rfl).2
  rw [hagain] at hlease
  cases hlease

end OwnedTerminal
end PiDeck.Terminal
