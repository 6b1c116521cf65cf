import Mathlib
import PiDeck.Terminal.Batch

/-! Writes that are handled together against writes that are handled in turn. Authorization is the
same in both; what differs is that the input queue takes the writes of one group all or none. That
shows only when a part of a group would fit, and a fence that was authorized is spent even so. -/
namespace PiDeck.Terminal
open PiDeck.Collections PiDeck.Reactor PiDeck.Transition

namespace InputQueue
variable {queue queue' : InputQueue} {data : Bytes} {origin : Origin}

/-- The same bytes wait, however they are divided. -/
structure Alike (queue queue' : InputQueue) : Prop where
  bytes : queue.bytes = queue'.bytes
  contents : queue.contents = queue'.contents

theorem Alike.refl (queue : InputQueue) : queue.Alike queue := ⟨rfl, rfl⟩

theorem Alike.fits (h : queue.Alike queue') (count : ℕ) : queue.fits count = queue'.fits count := by
  rw [InputQueue.fits, InputQueue.fits, h.bytes]

theorem enqueue_contents (h : queue.enqueue data origin false = some queue') :
    queue'.contents = queue.contents ++ data := by
  rw [contents, enqueue_input h]
  simp [contents]

end InputQueue

section Verdicts
variable {input input' : InputQueue} {verdict : Verdict} {verdicts : List Verdict}

namespace OwnedTerminal

/-- The writes of a group, and the room that the queue has: all of them are taken. -/
def AllFit (input : InputQueue) (verdicts : List Verdict) : Prop :=
  scratch verdicts = [] ∨ input.fits (scratch verdicts).length = true

/-- No authorized write of the group would be taken alone. -/
def NoneFits (input : InputQueue) (verdicts : List Verdict) : Prop :=
  ∀ verdict ∈ verdicts, ∀ lease, verdict.result = .ok lease →
    verdict.data ≠ [] ∧ input.fits verdict.data.length = false

theorem enqueueScratch_isSome :
    (enqueueScratch input verdicts).isSome = true ↔ AllFit input verdicts := by
  unfold enqueueScratch AllFit
  by_cases hempty : scratch verdicts = []
  · simp [hempty]
  · cases hfits : input.fits (scratch verdicts).length with
    | false => simp [hempty, InputQueue.enqueue, hfits]
    | true => simp [hempty, InputQueue.enqueue, hfits]

/-- What the queue holds after the group has been taken. -/
theorem enqueueScratch_some {queued : InputQueue} (h : enqueueScratch input verdicts = some queued) :
    queued.bytes = input.bytes + (scratch verdicts).length ∧
      queued.contents = input.contents ++ scratch verdicts := by
  unfold enqueueScratch at h
  split at h
  · rename_i hempty
    cases h
    simp [hempty]
  · exact ⟨(InputQueue.enqueue_bytes h).2, InputQueue.enqueue_contents h⟩

@[simp] theorem scratch_cons : scratch (verdict :: verdicts) =
    verdict.authorized ++ scratch verdicts := rfl

@[simp] theorem scratch_nil : scratch [] = [] := rfl

/-- The writes one after the other. -/
def takeInTurn (input : InputQueue) : List Verdict → InputQueue × List Reply
  | [] => (input, [])
  | verdict :: verdicts =>
    let queued := enqueueScratch input [verdict]
    let rest := takeInTurn (queued.getD input) verdicts
    (rest.1, verdict.reply queued.isSome :: rest.2)

def takeTogether (input : InputQueue) (verdicts : List Verdict) : InputQueue × List Reply :=
  let queued := enqueueScratch input verdicts
  (queued.getD input, verdicts.map (Verdict.reply queued.isSome))

theorem takeInTurn_append (input : InputQueue) (verdicts more : List Verdict) :
    takeInTurn input (verdicts ++ more) =
      ((takeInTurn (takeInTurn input verdicts).1 more).1,
        (takeInTurn input verdicts).2 ++ (takeInTurn (takeInTurn input verdicts).1 more).2) := by
  induction verdicts generalizing input with
  | nil => rfl
  | cons verdict verdicts ih => simp [takeInTurn, ih]

@[simp] theorem length_takeInTurn (input : InputQueue) (verdicts : List Verdict) :
    (takeInTurn input verdicts).2.length = verdicts.length := by
  induction verdicts generalizing input with
  | nil => rfl
  | cons verdict verdicts ih => simp [takeInTurn, ih]

/-- A group that fits is taken write by write just as well. -/
theorem takeInTurn_of_allFit (h : AllFit input verdicts) :
    (takeInTurn input verdicts).2 = verdicts.map (Verdict.reply true) ∧
      (takeInTurn input verdicts).1.bytes = input.bytes + (scratch verdicts).length ∧
      (takeInTurn input verdicts).1.contents = input.contents ++ scratch verdicts := by
  induction verdicts generalizing input with
  | nil => simp [takeInTurn]
  | cons verdict verdicts ih =>
    have hfirst : AllFit input [verdict] := by
      rcases h with hempty | hfits
      · exact .inl (by simpa using (List.append_eq_nil_iff.mp hempty).1)
      · refine .inr ?_
        simp only [InputQueue.fits, scratch_cons, List.length_append, scratch_nil, List.append_nil,
          decide_eq_true_eq] at hfits ⊢
        omega
    obtain ⟨queued, hqueued⟩ := Option.isSome_iff_exists.mp (enqueueScratch_isSome.mpr hfirst)
    obtain ⟨hbytes, hcontents⟩ := enqueueScratch_some hqueued
    have hrest : AllFit queued verdicts := by
      rcases h with hempty | hfits
      · exact .inl (List.append_eq_nil_iff.mp hempty).2
      · refine .inr ?_
        simp only [InputQueue.fits, scratch_cons, List.length_append, scratch_nil, List.append_nil,
          decide_eq_true_eq] at hfits hbytes ⊢
        omega
    obtain ⟨hreplies, hb, hc⟩ := ih hrest
    simp only [takeInTurn, hqueued, Option.getD_some, Option.isSome_some, List.map_cons]
    refine ⟨by rw [hreplies], ?_, ?_⟩
    · rw [hb, hbytes]
      simp [Nat.add_assoc]
    · rw [hc, hcontents]
      simp

/-- If every authorized write is refused, each of them was too long for the queue. -/
theorem takeInTurn_eq_refused : (takeInTurn input verdicts).2 = verdicts.map (Verdict.reply false) ↔
    NoneFits input verdicts := by
  induction verdicts with
  | nil => simp [takeInTurn, NoneFits]
  | cons verdict verdicts ih =>
    have hcons : NoneFits input (verdict :: verdicts) ↔
        (∀ lease, verdict.result = .ok lease →
          verdict.data ≠ [] ∧ input.fits verdict.data.length = false) ∧ NoneFits input verdicts := by
      simp [NoneFits]
    rw [hcons, ← ih]
    simp only [takeInTurn, List.map_cons, List.cons.injEq]
    cases hresult : verdict.result with
    | error error =>
      have hsame : enqueueScratch input [verdict] = some input := by
        simp [enqueueScratch, Verdict.authorized, hresult]
      simp [hsame, Verdict.reply, hresult]
    | ok lease =>
      have hscratch : scratch [verdict] = verdict.data := by
        simp [Verdict.authorized, hresult]
      by_cases hfit : AllFit input [verdict]
      · have hsome := enqueueScratch_isSome.mpr hfit
        have hnot : ¬(verdict.data ≠ [] ∧ input.fits verdict.data.length = false) := by
          rintro ⟨hdata, hfits⟩
          rcases hfit with hempty | hroom
          · exact hdata (hscratch ▸ hempty)
          · rw [hscratch, hfits] at hroom
            cases hroom
        simp only [hsome, Verdict.reply, hresult, Reply.queueFull]
        simp only [if_true, Bool.false_eq_true, if_false, reduceCtorEq, false_and, false_iff]
        exact fun h => hnot (h.1 lease rfl)
      · have hnone : enqueueScratch input [verdict] = none := by
          rw [← Option.isNone_iff_eq_none, ← Option.not_isSome]
          simpa using fun h => hfit (enqueueScratch_isSome.mp h)
        have hdata : verdict.data ≠ [] ∧ input.fits verdict.data.length = false := by
          rw [← hscratch]
          exact ⟨fun h => hfit (.inl h), by simpa using fun h => hfit (.inr h)⟩
        simp [hnone, Verdict.reply, hresult, hdata]

/-- A refused group leaves the queue alone, write by write too. -/
theorem takeInTurn_of_noneFits (h : NoneFits input verdicts) :
    (takeInTurn input verdicts).1 = input := by
  induction verdicts with
  | nil => rfl
  | cons verdict verdicts ih =>
    have hrest : NoneFits input verdicts := fun v hv => h v (List.mem_cons_of_mem _ hv)
    have hsame : (enqueueScratch input [verdict]).getD input = input := by
      cases hresult : verdict.result with
      | error error => simp [enqueueScratch, Verdict.authorized, hresult]
      | ok lease =>
        obtain ⟨hdata, hfits⟩ := h verdict (List.mem_cons_self ..) lease hresult
        simp [enqueueScratch, Verdict.authorized, hresult, hdata, InputQueue.enqueue, hfits]
    simp only [takeInTurn, hsame, ih hrest]

theorem takeTogether_of_allFit (h : AllFit input verdicts) :
    (takeTogether input verdicts).2 = verdicts.map (Verdict.reply true) ∧
      (takeTogether input verdicts).1.bytes = input.bytes + (scratch verdicts).length ∧
      (takeTogether input verdicts).1.contents = input.contents ++ scratch verdicts := by
  obtain ⟨queued, hqueued⟩ := Option.isSome_iff_exists.mp (enqueueScratch_isSome.mpr h)
  obtain ⟨hbytes, hcontents⟩ := enqueueScratch_some hqueued
  simp [takeTogether, hqueued, hbytes, hcontents]

theorem takeTogether_of_not_allFit (h : ¬AllFit input verdicts) :
    takeTogether input verdicts = (input, verdicts.map (Verdict.reply false)) := by
  have hnone : enqueueScratch input verdicts = none := by
    rw [← Option.isNone_iff_eq_none, ← Option.not_isSome]
    simpa using fun hsome => h (enqueueScratch_isSome.mp hsome)
  simp [takeTogether, hnone]

theorem allFit_congr (h : input.Alike input') : AllFit input verdicts ↔ AllFit input' verdicts := by
  rw [AllFit, AllFit, h.fits]

theorem noneFits_congr (h : input.Alike input') :
    NoneFits input verdicts ↔ NoneFits input' verdicts := by
  simp only [NoneFits, h.fits]

/-- One group: the two ways agree exactly if all of it fits or none of it does. -/
theorem takeTogether_iff (h : input.Alike input') :
    (takeTogether input verdicts).2 = (takeInTurn input' verdicts).2 ↔
      AllFit input verdicts ∨ NoneFits input verdicts := by
  by_cases hall : AllFit input verdicts
  · rw [(takeTogether_of_allFit hall).1, (takeInTurn_of_allFit ((allFit_congr h).mp hall)).1]
    simp [hall]
  · rw [takeTogether_of_not_allFit hall, noneFits_congr h, ← takeInTurn_eq_refused]
    simp [hall, eq_comm]

/-- Groups on which the two ways agree leave the same bytes. -/
theorem takeTogether_alike (h : input.Alike input')
    (huniform : AllFit input verdicts ∨ NoneFits input verdicts) :
    (takeTogether input verdicts).1.Alike (takeInTurn input' verdicts).1 := by
  by_cases hall : AllFit input verdicts
  · obtain ⟨-, hbytes, hcontents⟩ := takeTogether_of_allFit hall
    obtain ⟨-, hbytes', hcontents'⟩ := takeInTurn_of_allFit ((allFit_congr h).mp hall)
    exact ⟨by rw [hbytes, hbytes', h.bytes], by rw [hcontents, hcontents', h.contents]⟩
  · have hnone := huniform.resolve_left hall
    rw [takeTogether_of_not_allFit hall, takeInTurn_of_noneFits ((noneFits_congr h).mp hnone)]
    exact h

end OwnedTerminal
end Verdicts

namespace TerminalRuntime
variable (runtime : TerminalRuntime)

theorem authorizeWrites_append (commands more : List WriteCommand) :
    runtime.authorizeWrites (commands ++ more) =
      (((runtime.authorizeWrites commands).1.authorizeWrites more).1,
        (runtime.authorizeWrites commands).2 ++
          ((runtime.authorizeWrites commands).1.authorizeWrites more).2) := by
  induction commands generalizing runtime with
  | nil => rfl
  | cons command commands ih => simp [authorizeWrites, ih]

@[simp] theorem length_authorizeWrites (commands : List WriteCommand) :
    (runtime.authorizeWrites commands).2.length = commands.length := by
  induction commands generalizing runtime with
  | nil => rfl
  | cons command commands ih => simp [authorizeWrites, ih]

end TerminalRuntime

/-- The groups in which writes are handled. -/
def writeGroups (commands : List WriteCommand) : List (List WriteCommand) :=
  (Batch.group (commands.map .write)).filterMap fun
    | .writes commands => some commands
    | _ => none

theorem groupInto_writes (first commands : List WriteCommand) :
    ∃ groups : List (List WriteCommand), Batch.groupInto (.writes first) (commands.map .write) = groups.map .writes ∧
      groups.flatten = first ++ commands := by
  induction commands generalizing first with
  | nil => exact ⟨[first], rfl, by simp⟩
  | cons command commands ih =>
    rw [List.map_cons, Batch.groupInto]
    cases hadd : (Batch.writes first).add (.write command) with
    | some batch =>
      obtain ⟨-, rfl⟩ : _ ∧ Batch.writes (first ++ [command]) = batch := by
        simpa [Batch.add] using hadd
      obtain ⟨groups, hgroups, hflatten⟩ := ih (first ++ [command])
      exact ⟨groups, hgroups, by simpa using hflatten⟩
    | none =>
      obtain ⟨groups, hgroups, hflatten⟩ := ih [command]
      refine ⟨first :: groups, ?_, by simpa using hflatten⟩
      rw [List.map_cons, ← hgroups]
      rfl

theorem group_writes (commands : List WriteCommand) :
    Batch.group (commands.map .write) = (writeGroups commands).map .writes ∧
      (writeGroups commands).flatten = commands := by
  have hgroups : ∃ groups : List (List WriteCommand), Batch.group (commands.map .write) = groups.map .writes ∧
      groups.flatten = commands := by
    cases commands with
    | nil => exact ⟨[], rfl, rfl⟩
    | cons command commands => exact groupInto_writes [command] commands
  obtain ⟨groups, hgroups, hflatten⟩ := hgroups
  have hsame : writeGroups commands = groups := by
    rw [writeGroups, hgroups, List.filterMap_map]
    exact List.filterMap_some
  rw [hsame]
  exact ⟨hgroups, hflatten⟩

namespace OwnedTerminal
variable {owner owner' : OwnedTerminal} {commands : List WriteCommand}

/-- The writes handled one at a time. -/
def writesInTurn (owner : OwnedTerminal) : List WriteCommand → Option (OwnedTerminal × List Reply)
  | [] => some (owner, [])
  | command :: commands =>
    (owner.handleTerminalCommandBatch [.write command]).bind fun (owner, replies, _) =>
      (owner.writesInTurn commands).map fun (owner, more) => (owner, replies ++ more)

theorem writesInTurn_eq (owner : OwnedTerminal) (commands : List WriteCommand) :
    owner.writesInTurn commands = some
      ({ owner with
        runtime := (owner.runtime.authorizeWrites commands).1
        input := (takeInTurn owner.input (owner.runtime.authorizeWrites commands).2).1
        log := owner.log ++
          (owner.runtime.authorizeWrites commands).2.filterMap Verdict.event },
      (takeInTurn owner.input (owner.runtime.authorizeWrites commands).2).2) := by
  induction commands generalizing owner with
  | nil => simp [writesInTurn, TerminalRuntime.authorizeWrites, takeInTurn]
  | cons command commands ih =>
    have hone : owner.handleTerminalCommandBatch [.write command] =
        some ((owner.handleWrites [command]).1, (owner.handleWrites [command]).2, true) := by
      simp [handleTerminalCommandBatch, Batch.group, Batch.groupInto, Batch.start, handleBatches,
        handleBatch]
    have hevents : ∀ (verdict : Verdict) (verdicts : List Verdict),
        (verdict :: verdicts).filterMap Verdict.event =
          [verdict].filterMap Verdict.event ++ verdicts.filterMap Verdict.event :=
      fun verdict verdicts => List.filterMap_append (l := [verdict])
    rw [writesInTurn, hone]
    simp [ih, handleWrites, hevents _ (TerminalRuntime.authorizeWrites _ _).2, TerminalRuntime.authorizeWrites, takeInTurn]

/-- Of every group of writes that are handled together, the queue has room for all that are
authorized, or for none of them. -/
def Uniform (owner : OwnedTerminal) : List (List WriteCommand) → Prop
  | [] => True
  | group :: groups =>
    (AllFit owner.input (owner.runtime.authorizeWrites group).2 ∨
      NoneFits owner.input (owner.runtime.authorizeWrites group).2) ∧
    Uniform (owner.handleWrites group).1 groups

/-- The same replies, the same bytes in the queue, and nothing else differs. -/
structure SameOutcome (batched : OwnedTerminal × List Reply × Bool)
    (inTurn : OwnedTerminal × List Reply) : Prop where
  replies : batched.2.1 = inTurn.2
  control : batched.1.runtime = inTurn.1.runtime
  bytes : batched.1.input.bytes = inTurn.1.input.bytes
  contents : batched.1.input.contents = inTurn.1.input.contents

/-- The groups of a batch, one after the other. -/
theorem handleBatches_writes (owner : OwnedTerminal) (input' : InputQueue)
    (groups : List (List WriteCommand)) (h : owner.input.Alike input') :
    ∃ handled replies, owner.handleBatches (groups.map .writes) = some (handled, replies, true) ∧
      handled.runtime = (owner.runtime.authorizeWrites groups.flatten).1 ∧
      (owner.Uniform groups ↔ replies =
        (takeInTurn input' (owner.runtime.authorizeWrites groups.flatten).2).2) ∧
      (owner.Uniform groups → handled.input.Alike
        (takeInTurn input' (owner.runtime.authorizeWrites groups.flatten).2).1) := by
  induction groups generalizing owner input' with
  | nil => exact ⟨owner, [], rfl, rfl, by simp [Uniform, takeInTurn, TerminalRuntime.authorizeWrites],
      fun _ => h⟩
  | cons group groups ih =>
    set verdicts := (owner.runtime.authorizeWrites group).2 with hverdicts
    set next := (owner.handleWrites group).1 with hnext
    have hruntime : next.runtime = (owner.runtime.authorizeWrites group).1 := rfl
    have hinput : next.input = (takeTogether owner.input verdicts).1 := rfl
    have hreplies : (owner.handleWrites group).2 = (takeTogether owner.input verdicts).2 := rfl
    have hstep : ∀ rest, next.handleBatches (groups.map .writes) = some rest →
        owner.handleBatches ((group :: groups).map .writes) =
          some (rest.1, (takeTogether owner.input verdicts).2 ++ rest.2.1, rest.2.2) := by
      intro rest hrest
      simp [handleBatches, handleBatch, ← hnext, hrest, hreplies]
    rw [List.flatten_cons, TerminalRuntime.authorizeWrites_append, takeInTurn_append, ← hverdicts,
      ← hruntime]
    dsimp only
    by_cases huniform : AllFit owner.input verdicts ∨ NoneFits owner.input verdicts
    · have halike := takeTogether_alike h huniform
      have hfirst := (takeTogether_iff h).mpr huniform
      obtain ⟨handled, replies, hrest, hr, hiff, hsame⟩ := ih next _ halike
      refine ⟨handled, _, hstep _ hrest, hr, ?_, fun hu => hsame hu.2⟩
      rw [hfirst, List.append_cancel_left_eq, ← hiff]
      exact ⟨fun hu => hu.2, fun hu => ⟨huniform, hu⟩⟩
    · obtain ⟨handled, replies, hrest, hr, -, -⟩ := ih next next.input (.refl _)
      refine ⟨handled, _, hstep _ hrest, hr, ?_, fun hu => absurd hu.1 huniform⟩
      constructor
      · exact fun hu => absurd hu.1 huniform
      · intro heq
        have hlength : (takeTogether owner.input verdicts).2.length =
            (takeInTurn input' verdicts).2.length := by simp [takeTogether]
        exact absurd ((takeTogether_iff h).mp (List.append_inj heq hlength).1) huniform

/-- A batch of writes against the same writes in turn. The leases, and with them which writes are
authorized, are always the same. -/
theorem batching_invisible_iff (owner : OwnedTerminal) (commands : List WriteCommand) :
    ∃ batched inTurn, owner.handleTerminalCommandBatch (commands.map .write) = some batched ∧
      owner.writesInTurn commands = some inTurn ∧ batched.1.runtime = inTurn.1.runtime ∧
      (SameOutcome batched inTurn ↔ owner.Uniform (writeGroups commands)) := by
  obtain ⟨hgroups, hflatten⟩ := group_writes commands
  obtain ⟨handled, replies, hhandled, hruntime, hiff, halike⟩ :=
    owner.handleBatches_writes owner.input (writeGroups commands) (.refl _)
  rw [hflatten] at hruntime hiff halike
  refine ⟨(handled, replies, true), _, ?_, owner.writesInTurn_eq commands, hruntime, ?_⟩
  · rw [handleTerminalCommandBatch, hgroups]
    exact hhandled
  constructor
  · exact fun hsame => hiff.mpr hsame.replies
  · exact fun hu => ⟨hiff.mp hu, hruntime, (halike hu).bytes, (halike hu).contents⟩

/-- A terminal whose child does not read, with room for one more byte. -/
def nearlyFull : OwnedTerminal :=
  { launched "terminal" "epoch" ⟨80, 24⟩ with
    input := ⟨[⟨List.replicate (maxPendingInputBytesPerTerminal - 1) 0, 0, .input⟩],
      maxPendingInputBytesPerTerminal - 1⟩ }

/-- Of two writes of one byte the first is taken alone, and neither is taken together. -/
theorem batching_visible : ∃ batched inTurn,
    nearlyFull.handleTerminalCommandBatch ([.write [0], .write [0]].map .write) = some batched ∧
      nearlyFull.writesInTurn [.write [0], .write [0]] = some inTurn ∧
      batched.2.1 = [.queueFull, .queueFull] ∧ inTurn.2 = [.done none, .queueFull] :=
  ⟨_, _, rfl, rfl, by decide +kernel, by decide +kernel⟩

end OwnedTerminal
end PiDeck.Terminal
