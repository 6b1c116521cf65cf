import Mathlib
import PiDeck.Terminal.Batch

/-! What a turn of the owner can do: rules by which a property of a terminal survives a batch, or a
readiness event, if it survives the parts of it. -/
namespace PiDeck.Terminal
open PiDeck.Reactor PiDeck.Transition

namespace InputQueue
variable {queue queue' : InputQueue}

/-- Chunks of commands that have been appended. -/
def Appended (queue queue' : InputQueue) : Prop :=
  ∃ more : List Bytes, queue'.chunks = queue.chunks ++ more.map fun data => ⟨data, 0, .input⟩

theorem Appended.refl (queue : InputQueue) : queue.Appended queue := ⟨[], by simp⟩

theorem Appended.trans {last : InputQueue} (h : queue.Appended queue') (k : queue'.Appended last) :
    queue.Appended last := by
  obtain ⟨more, hmore⟩ := h
  obtain ⟨again, hagain⟩ := k
  exact ⟨more ++ again, by rw [hagain, hmore, List.map_append, List.append_assoc]⟩

theorem Appended.of_enqueue {data : Bytes} (h : queue.enqueue data .input false = some queue') :
    queue.Appended queue' :=
  ⟨[data], enqueue_input h⟩

theorem appended_enqueueAll (queue : InputQueue) (responses : List Bytes) :
    queue.Appended (queue.enqueueAll responses).1 := by
  induction responses generalizing queue with
  | nil => exact .refl queue
  | cons response responses ih =>
    rw [enqueueAll]
    split
    · rename_i queued hqueued
      exact (Appended.of_enqueue hqueued).trans (ih queued)
    · exact .refl queue

/-- There is room for all of the answers. -/
def FitsAll (queue : InputQueue) (responses : List Bytes) : Prop :=
  responses = [] ∨ queue.fits (responses.map List.length).sum = true

section Room
variable {data : Bytes} {origin : Origin} {authorityResponse : Bool}

theorem not_fitsAll_of_enqueue (h : queue.enqueue data origin authorityResponse = none)
    (responses : List Bytes) : ¬queue.FitsAll (data :: responses) := by
  have hfits : queue.fits data.length = false := by
    cases hfits : queue.fits data.length with
    | false => rfl
    | true => simp [enqueue, hfits] at h
  rintro (hnil | hall)
  · cases hnil
  · simp only [fits, decide_eq_false_iff_not, not_le, List.map_cons, List.sum_cons,
      decide_eq_true_eq] at hfits hall
    omega

theorem fitsAll_of_enqueue (h : queue.enqueue data origin authorityResponse = some queue')
    (responses : List Bytes) : queue'.FitsAll responses ↔ queue.FitsAll (data :: responses) := by
  obtain ⟨hfits, hbytes⟩ := enqueue_bytes h
  simp only [FitsAll, fits, hbytes, decide_eq_true_eq, List.map_cons, List.sum_cons,
    reduceCtorEq, false_or] at hfits ⊢
  constructor
  · rintro (rfl | hrest)
    · simpa using hfits
    · omega
  · intro hall
    exact .inr (by omega)

end Room

theorem enqueueAll_iff (queue : InputQueue) (responses : List Bytes) :
    (queue.enqueueAll responses).2 = true ↔ queue.FitsAll responses := by
  induction responses generalizing queue with
  | nil => simp [enqueueAll, FitsAll]
  | cons response responses ih =>
    rw [enqueueAll]
    cases hqueued : queue.enqueue response .input false with
    | none => simpa using not_fitsAll_of_enqueue hqueued responses
    | some queued => exact (ih _).trans (fitsAll_of_enqueue hqueued responses)

end InputQueue

namespace OwnedTerminal
variable {owner owner' : OwnedTerminal} {commands : List OwnerCommand} {act : OwnerAct}
  {P : OwnedTerminal → Prop} {C : OwnedTerminal → Batch → Prop}

theorem appended_enqueueScratch (input : InputQueue) (verdicts : List Verdict) :
    input.Appended ((enqueueScratch input verdicts).getD input) := by
  unfold enqueueScratch
  split
  · exact .refl input
  · cases h : input.enqueue (scratch verdicts) .input false with
    | none => exact .refl input
    | some queued => exact .of_enqueue h

/-- What commands leave alone. -/
structure Kept (owner owner' : OwnedTerminal) : Prop where
  id : owner'.runtime.id = owner.runtime.id
  appended : owner.input.Appended owner'.input
  closed : owner'.closed = owner.closed
  childKilled : owner'.childKilled = owner.childKilled
  responses : owner'.responses = owner.responses
  handed : owner'.handed = owner.handed

theorem id_authorizeReady (runtime : TerminalRuntime) (request : AuthorizeRequest) :
    (runtime.authorizeReady request).1.id = runtime.id ∧
      (runtime.authorizeReady request).1.attachedClients = runtime.attachedClients ∧
      (runtime.authorizeReady request).1.replayReadyClients = runtime.replayReadyClients := by
  unfold TerminalRuntime.authorizeReady
  split
  · exact ⟨rfl, rfl, rfl⟩
  · exact ⟨rfl, rfl, rfl⟩

/-- Authorization does not touch the clients. -/
theorem clients_authorizeWrites (runtime : TerminalRuntime) (commands : List WriteCommand) :
    (runtime.authorizeWrites commands).1.id = runtime.id ∧
      (runtime.authorizeWrites commands).1.attachedClients = runtime.attachedClients ∧
      (runtime.authorizeWrites commands).1.replayReadyClients = runtime.replayReadyClients := by
  induction commands generalizing runtime with
  | nil => exact ⟨rfl, rfl, rfl⟩
  | cons command commands ih =>
    obtain ⟨hid, hattached, hready⟩ := ih (runtime.authorizeWrite command).1
    rw [TerminalRuntime.authorizeWrites]
    dsimp only
    rw [hid, hattached, hready]
    cases command with
    | write data => exact ⟨rfl, rfl, rfl⟩
    | authorizeAndWrite request data => exact id_authorizeReady runtime request

theorem clients_authorizeResizes (runtime : TerminalRuntime) (commands : List ResizeCommand) :
    (runtime.authorizeResizes commands).1.id = runtime.id ∧
      (runtime.authorizeResizes commands).1.attachedClients = runtime.attachedClients ∧
      (runtime.authorizeResizes commands).1.replayReadyClients = runtime.replayReadyClients := by
  induction commands generalizing runtime with
  | nil => exact ⟨rfl, rfl, rfl⟩
  | cons command commands ih =>
    obtain ⟨hid, hattached, hready⟩ := ih (runtime.authorizeResizeCommand command).1
    rw [TerminalRuntime.authorizeResizes]
    dsimp only
    rw [hid, hattached, hready]
    cases command with
    | resize size answer => exact ⟨rfl, rfl, rfl⟩
    | authorizeAndResize request size answer => exact id_authorizeReady runtime request

theorem kept_handleWrites (owner : OwnedTerminal) (commands : List WriteCommand) :
    owner.Kept (owner.handleWrites commands).1 where
  id := (clients_authorizeWrites owner.runtime commands).1
  appended := appended_enqueueScratch owner.input _
  closed := rfl
  childKilled := rfl
  responses := rfl
  handed := rfl

theorem kept_resizeTerminal (owner : OwnedTerminal) (size : Size) (answer : ResizeAnswer) :
    owner.Kept (owner.resizeTerminal size answer).1 := by
  cases answer with
  | ptyFails error => exact ⟨rfl, .refl _, rfl, rfl, rfl, rfl⟩
  | authorityFails error => exact ⟨rfl, .refl _, rfl, rfl, rfl, rfl⟩
  | overflows error => exact ⟨rfl, .refl _, rfl, rfl, rfl, rfl⟩
  | resized responses =>
    have happended := InputQueue.appended_enqueueAll owner.input responses
    unfold resizeTerminal
    dsimp only
    split
    · exact ⟨rfl, happended, rfl, rfl, rfl, rfl⟩
    · exact ⟨rfl, happended, rfl, rfl, rfl, rfl⟩

theorem kept_handleResizes (owner : OwnedTerminal) (commands : List ResizeCommand) :
    owner.Kept (owner.handleResizes commands).1 := by
  have hid := (clients_authorizeResizes owner.runtime commands).1
  unfold handleResizes
  dsimp only
  split
  · exact ⟨hid, .refl _, rfl, rfl, rfl, rfl⟩
  · rename_i command hlatest
    have hkept := kept_resizeTerminal { owner with
      runtime := (owner.runtime.authorizeResizes commands).1
      log := owner.log ++ (owner.runtime.authorizeResizes commands).2.filterMap resizeEvent }
      command.size command.answer
    exact ⟨hkept.id.trans hid, hkept.appended, hkept.closed, hkept.childKilled, hkept.responses,
      hkept.handed⟩

theorem id_handle (runtime : TerminalRuntime) (command : TerminalCommand) :
    (runtime.handle command).id = runtime.id := by
  cases command with
  | markReplayReady clientId =>
    simp only [TerminalRuntime.handle, TerminalRuntime.markReplayReady]
    split <;> rfl
  | authorizeAndWrite request => exact (id_authorizeReady runtime request).1
  | authorizeAndResize request => exact (id_authorizeReady runtime request).1
  | authorizeAndDispose request =>
    simp only [TerminalRuntime.handle, TerminalRuntime.authorizeAndDispose]
    split <;> rfl
  | _ => rfl

/-- A single command, its runtime and its log. -/
theorem handleTerminalCommand_some {command : TerminalCommand} {goesOn : Bool}
    (h : owner.handleTerminalCommand command = some (owner', goesOn)) :
    owner' = { owner with
      runtime := owner.runtime.handle command
      log := owner.log ++ logged owner.runtime command } := by
  cases command <;> cases h <;> rfl

theorem kept_handleBatch {batch : Batch} {replies : List Reply} {goesOn : Bool}
    (h : owner.handleBatch batch = some (owner', replies, goesOn)) : owner.Kept owner' := by
  cases batch with
  | writes commands =>
    cases h
    exact kept_handleWrites owner commands
  | resizes commands =>
    cases h
    exact kept_handleResizes owner commands
  | single command =>
    obtain ⟨⟨handled, more⟩, hhandled, heq⟩ := Option.map_eq_some_iff.mp h
    cases heq
    rw [handleTerminalCommand_some hhandled]
    exact ⟨id_handle owner.runtime command, .refl _, rfl, rfl, rfl, rfl⟩

/-- A condition on every group of a batch, where it is handled. -/
def Along (C : OwnedTerminal → Batch → Prop) (owner : OwnedTerminal) : List Batch → Prop
  | [] => True
  | batch :: batches => C owner batch ∧ ∀ next replies,
    owner.handleBatch batch = some (next, replies, true) → Along C next batches

/-- What every group preserves, the batch preserves. -/
theorem handleBatches_invariant {batches : List Batch} {replies : List Reply} {goesOn : Bool}
    (hgroup : ∀ owner batch next replies goesOn, P owner → C owner batch →
      owner.handleBatch batch = some (next, replies, goesOn) → P next)
    (hguard : owner.Along C batches)
    (h : owner.handleBatches batches = some (owner', replies, goesOn)) (hP : P owner) :
    P owner' := by
  induction batches generalizing owner replies with
  | nil =>
    cases h
    exact hP
  | cons batch batches ih =>
    obtain ⟨⟨next, first, more⟩, hnext, h⟩ := Option.bind_eq_some_iff.mp h
    have hPnext := hgroup owner batch next first more hP hguard.1 hnext
    cases more with
    | false =>
      cases h
      exact hPnext
    | true =>
      obtain ⟨⟨last, rest, goes⟩, hlast, heq⟩ := Option.map_eq_some_iff.mp h
      cases heq
      exact ih (hguard.2 next first hnext) hlast hPnext

/-- A property that survives the groups, a poller that fails, and the removal. -/
theorem batch_invariant {pollFails : Bool}
    (hgroup : ∀ owner batch next replies goesOn, P owner → C owner batch →
      owner.handleBatch batch = some (next, replies, goesOn) → P next)
    (hpoll : ∀ owner, P owner → P (owner.fail .pollFailed))
    (hremoved : ∀ owner removed, P owner → P { owner with removed := removed })
    (hguard : owner.Along C (Batch.group commands))
    (h : owner.batch commands pollFails = some owner') (hP : P owner) : P owner' := by
  obtain ⟨⟨handled, replies, goesOn⟩, hhandled, heq⟩ := Option.map_eq_some_iff.mp h
  have hPhandled := handleBatches_invariant hgroup hguard hhandled hP
  cases goesOn with
  | false =>
    cases heq
    exact hremoved handled true hPhandled
  | true =>
    cases heq
    refine hremoved _ _ ?_
    unfold setRuntimeInterest
    split
    · exact hpoll handled hPhandled
    · exact hPhandled

/-- A readiness event: a flush, what is read, and the poller. -/
theorem ready_cases {writable : Option (List WriteOutcome)} {readable : Option ReadAnswer}
    {pollFails : Bool} (h : owner.ready writable readable pollFails = some owner') :
    owner.closed = [] ∧ ∃ flushed, owner.flushInput writable = some flushed ∧
      (owner' = flushed.drainOutput readable ∨
        (flushed.drainOutput readable).closed = [] ∧
          owner' = (flushed.drainOutput readable).fail .pollFailed) := by
  unfold ready at h
  split at h
  · rename_i hopen
    obtain ⟨flushed, hflushed, rfl⟩ := Option.map_eq_some_iff.mp h
    refine ⟨List.isEmpty_iff.mp hopen, flushed, hflushed, ?_⟩
    unfold setRuntimeInterest
    split
    · rename_i hpoll
      exact .inr ⟨List.isEmpty_iff.mp (Bool.and_eq_true_iff.mp hpoll).1, rfl⟩
    · exact .inl rfl
  · cases h

/-- What input and output leave alone. -/
structure Aside (owner owner' : OwnedTerminal) : Prop where
  runtime : owner'.runtime = owner.runtime
  log : owner'.log = owner.log
  size : owner'.size = owner.size
  ptySize : owner'.ptySize = owner.ptySize

theorem Aside.trans {last : OwnedTerminal} (h : owner.Aside owner') (k : owner'.Aside last) :
    owner.Aside last :=
  ⟨k.runtime.trans h.runtime, k.log.trans h.log, k.size.trans h.size, k.ptySize.trans h.ptySize⟩

theorem aside_flushInput {writable : Option (List WriteOutcome)}
    (h : owner.flushInput writable = some owner') :
    owner.Aside owner' ∧ owner'.authoritySize = owner.authoritySize := by
  cases writable with
  | none =>
    cases h
    exact ⟨⟨rfl, rfl, rfl, rfl⟩, rfl⟩
  | some outcomes =>
    obtain ⟨flushed, -, rfl⟩ := Option.map_eq_some_iff.mp h
    dsimp only
    split
    · exact ⟨⟨rfl, rfl, rfl, rfl⟩, rfl⟩
    · exact ⟨⟨rfl, rfl, rfl, rfl⟩, rfl⟩

theorem aside_enqueueResponses (owner : OwnedTerminal) (responses : List Bytes) :
    owner.Aside (owner.enqueueResponses responses).1 ∧
      (owner.enqueueResponses responses).1.authoritySize = owner.authoritySize := by
  induction responses generalizing owner with
  | nil => exact ⟨⟨rfl, rfl, rfl, rfl⟩, rfl⟩
  | cons response responses ih =>
    rw [enqueueResponses]
    split
    · rename_i queued hqueued
      obtain ⟨haside, hsize⟩ := ih { owner with
        input := queued
        responses := owner.responses ++ [response] }
      exact ⟨⟨haside.runtime, haside.log, haside.size, haside.ptySize⟩, hsize⟩
    · exact ⟨⟨rfl, rfl, rfl, rfl⟩, rfl⟩

/-- The size that the authority has after what is read. -/
def sizeRead (size : Size) : Option ReadAnswer → Size
  | some (.bytes _ (some effects)) => effects.resized.getD size
  | _ => size

theorem aside_drainOutput (owner : OwnedTerminal) (readable : Option ReadAnswer) :
    owner.Aside (owner.drainOutput readable) ∧
      (owner.drainOutput readable).authoritySize = sizeRead owner.authoritySize readable := by
  unfold drainOutput
  split
  · exact ⟨⟨rfl, rfl, rfl, rfl⟩, rfl⟩
  · exact ⟨⟨rfl, rfl, rfl, rfl⟩, rfl⟩
  · exact ⟨⟨rfl, rfl, rfl, rfl⟩, rfl⟩
  · exact ⟨⟨rfl, rfl, rfl, rfl⟩, rfl⟩
  · rename_i data effects
    cases effects with
    | none => exact ⟨⟨rfl, rfl, rfl, rfl⟩, rfl⟩
    | some effects =>
      obtain ⟨haside, hsize⟩ := aside_enqueueResponses
        { owner with authoritySize := effects.resized.getD owner.authoritySize }
        effects.ptyResponses
      unfold processTerminalOutput
      dsimp only
      split
      · exact ⟨⟨haside.runtime, haside.log, haside.size, haside.ptySize⟩, hsize⟩
      · exact ⟨⟨haside.runtime, haside.log, haside.size, haside.ptySize⟩, hsize⟩

theorem aside_ready {writable : Option (List WriteOutcome)} {readable : Option ReadAnswer}
    {pollFails : Bool} (h : owner.ready writable readable pollFails = some owner') :
    owner.Aside owner' ∧ owner'.authoritySize = sizeRead owner.authoritySize readable := by
  obtain ⟨-, flushed, hflushed, hcases⟩ := ready_cases h
  obtain ⟨hflush, hsize⟩ := aside_flushInput hflushed
  obtain ⟨hdrain, hread⟩ := aside_drainOutput flushed readable
  rw [hsize] at hread
  rcases hcases with rfl | ⟨-, rfl⟩
  · exact ⟨hflush.trans hdrain, hread⟩
  · exact ⟨hflush.trans ⟨hdrain.runtime, hdrain.log, hdrain.size, hdrain.ptySize⟩, hread⟩

end OwnedTerminal
end PiDeck.Terminal
