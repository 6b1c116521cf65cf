import Mathlib
import PiDeck.Terminal.Turns

/-! Input and resizes of a client against its attaches. A client that attaches again while it is
ready stays ready; if none does, every input that is authorized comes after the replay of the most
recent attach. -/
namespace PiDeck.Terminal
open PiDeck.Reactor PiDeck.Transition

/-- The most recent attach of the client has been followed by its mark. -/
def MarkedSinceAttach (log : List ClientEvent) (clientId : String) : Prop :=
  ∃ before after, log = before ++ .attached clientId :: after ∧
    .attached clientId ∉ after ∧ .ready clientId ∈ after

section Log
variable {log more : List ClientEvent} {clientId : String}

theorem MarkedSinceAttach.append (h : MarkedSinceAttach log clientId)
    (hmore : .attached clientId ∉ more) : MarkedSinceAttach (log ++ more) clientId := by
  obtain ⟨before, after, rfl, hattached, hready⟩ := h
  refine ⟨before, after ++ more, by simp, ?_, List.mem_append_left _ hready⟩
  rw [List.mem_append, not_or]
  exact ⟨hattached, hmore⟩

/-- The last occurrence of an event. -/
theorem exists_last {event : ClientEvent} (h : event ∈ log) :
    ∃ before after, log = before ++ event :: after ∧ event ∉ after := by
  induction log with
  | nil => cases h
  | cons first log ih =>
    by_cases hlater : event ∈ log
    · obtain ⟨before, after, rfl, hnot⟩ := ih hlater
      exact ⟨first :: before, after, rfl, hnot⟩
    · obtain rfl := (List.mem_cons.mp h).resolve_right hlater
      exact ⟨[], log, rfl, hlater⟩

theorem MarkedSinceAttach.of_ready (h : .attached clientId ∈ log) :
    MarkedSinceAttach (log ++ [.ready clientId]) clientId := by
  obtain ⟨before, after, rfl, hnot⟩ := exists_last h
  refine ⟨before, after ++ [.ready clientId], by simp, ?_, by simp⟩
  simpa using hnot

end Log

namespace OwnedTerminal
variable {owner owner' : OwnedTerminal} {act : OwnerAct}

/-- Clients, and what has happened to them. -/
structure Marks (owner : OwnedTerminal) : Prop where
  attached : ∀ clientId ∈ owner.runtime.attachedClients, .attached clientId ∈ owner.log
  ready : ∀ clientId ∈ owner.runtime.replayReadyClients, MarkedSinceAttach owner.log clientId
  authorized : ∀ clientId before after, owner.log = before ++ .authorized clientId :: after →
    MarkedSinceAttach before clientId

/-- No client attaches while it is ready. -/
def AttachesUnready (owner : OwnedTerminal) : Batch → Prop
  | .single (.attach clientId) => clientId ∉ owner.runtime.replayReadyClients
  | _ => True

def Reattaches (owner : OwnedTerminal) : OwnerAct → Prop
  | .batch commands _ => owner.Along AttachesUnready (Batch.group commands)
  | _ => True

/-- More events, none of them an attach. Of a client that has become ready or was authorized, the
most recent attach must be marked. -/
theorem Marks.extend (h : owner.Marks) {runtime : TerminalRuntime} {more : List ClientEvent}
    (hattached : ∀ clientId ∈ runtime.attachedClients, clientId ∈ owner.runtime.attachedClients)
    (hready : ∀ clientId ∈ runtime.replayReadyClients,
      clientId ∈ owner.runtime.replayReadyClients)
    (hmore : ∀ clientId, .attached clientId ∉ more)
    (hauthorized : ∀ clientId, .authorized clientId ∈ more →
      clientId ∈ owner.runtime.replayReadyClients) :
    ({ owner with runtime := runtime, log := owner.log ++ more } : OwnedTerminal).Marks where
  attached := fun clientId hc => List.mem_append_left _ (h.attached clientId (hattached clientId hc))
  ready := fun clientId hc => (h.ready clientId (hready clientId hc)).append (hmore clientId)
  authorized := by
    intro clientId before after hlog
    dsimp only at hlog
    rcases List.append_eq_append_iff.mp hlog with ⟨events, rfl, hevents⟩ | ⟨events, hlog, hevents⟩
    · -- The event is one of the new ones.
      have hmem : .authorized clientId ∈ more := by rw [hevents]; simp
      refine (h.ready clientId (hauthorized clientId hmem)).append ?_
      intro hmem
      exact hmore clientId (by rw [hevents]; exact List.mem_append_left _ hmem)
    · cases events with
      | nil =>
        rw [List.append_nil] at hlog
        have hmem : .authorized clientId ∈ more := by
          rw [List.nil_append] at hevents
          rw [← hevents]
          exact List.mem_cons_self ..
        rw [← hlog]
        exact h.ready clientId (hauthorized clientId hmem)
      | cons event events =>
        rw [List.cons_append, List.cons.injEq] at hevents
        obtain ⟨rfl, -⟩ := hevents
        exact h.authorized clientId before events hlog

theorem ready_of_authorizeReady {runtime : TerminalRuntime} {request : AuthorizeRequest}
    {lease : RuntimeTerminalLease} (h : (runtime.authorizeReady request).2 = .ok lease) :
    request.connectionId ∈ runtime.replayReadyClients := by
  unfold TerminalRuntime.authorizeReady at h
  split at h
  · rename_i hready
    exact hready
  · cases h

/-- Only input of ready clients is authorized. -/
theorem ready_of_write (runtime : TerminalRuntime) (commands : List WriteCommand) :
    ∀ event ∈ (runtime.authorizeWrites commands).2.filterMap Verdict.event,
      ∃ clientId ∈ runtime.replayReadyClients, event = .authorized clientId := by
  induction commands generalizing runtime with
  | nil => nofun
  | cons command commands ih =>
    intro event hevent
    obtain ⟨verdict, hverdict, hsome⟩ := List.mem_filterMap.mp hevent
    have hsame := clients_authorizeWrites runtime [command]
    rcases List.mem_cons.mp hverdict with rfl | hverdict
    · cases command with
      | write data => cases hsome
      | authorizeAndWrite request data =>
        rw [Verdict.event] at hsome
        split at hsome
        · rename_i lease hlease
          cases hsome
          obtain ⟨granted, hgranted⟩ : ∃ granted, (runtime.authorizeReady request).2 = .ok granted := by
            cases hresult : (runtime.authorizeReady request).2 with
            | ok granted => exact ⟨granted, rfl⟩
            | error error =>
              simp [TerminalRuntime.authorizeWrite, TerminalRuntime.authorizeAndWrite, hresult,
                Except.map] at hlease
          exact ⟨request.connectionId, ready_of_authorizeReady hgranted, rfl⟩
        · cases hsome
    · have hrest := ih (runtime.authorizeWrite command).1 event
        (List.mem_filterMap.mpr ⟨verdict, hverdict, hsome⟩)
      rwa [show (runtime.authorizeWrite command).1.replayReadyClients = runtime.replayReadyClients
        from hsame.2.2] at hrest

theorem ready_of_resize (runtime : TerminalRuntime) (commands : List ResizeCommand) :
    ∀ event ∈ (runtime.authorizeResizes commands).2.filterMap resizeEvent,
      ∃ clientId ∈ runtime.replayReadyClients, event = .authorized clientId := by
  induction commands generalizing runtime with
  | nil => nofun
  | cons command commands ih =>
    intro event hevent
    obtain ⟨verdict, hverdict, hsome⟩ := List.mem_filterMap.mp hevent
    have hsame := clients_authorizeResizes runtime [command]
    rcases List.mem_cons.mp hverdict with rfl | hverdict
    · cases command with
      | resize size answer => cases hsome
      | authorizeAndResize request size answer =>
        rw [resizeEvent] at hsome
        split at hsome
        · rename_i lease hlease
          cases hsome
          obtain ⟨granted, hgranted⟩ : ∃ granted, (runtime.authorizeReady request).2 = .ok granted := by
            cases hresult : (runtime.authorizeReady request).2 with
            | ok granted => exact ⟨granted, rfl⟩
            | error error =>
              simp [TerminalRuntime.authorizeResizeCommand, TerminalRuntime.authorizeAndResize,
                hresult, Except.map] at hlease
          exact ⟨request.connectionId, ready_of_authorizeReady hgranted, rfl⟩
        · cases hsome
    · have hrest := ih (runtime.authorizeResizeCommand command).1 event
        (List.mem_filterMap.mpr ⟨verdict, hverdict, hsome⟩)
      rwa [show (runtime.authorizeResizeCommand command).1.replayReadyClients =
        runtime.replayReadyClients from hsame.2.2] at hrest

/-- Authorized input of ready clients. -/
theorem Marks.authorizing (h : owner.Marks) {runtime : TerminalRuntime} {more : List ClientEvent}
    (hattached : runtime.attachedClients = owner.runtime.attachedClients)
    (hready : runtime.replayReadyClients = owner.runtime.replayReadyClients)
    (hmore : ∀ event ∈ more, ∃ clientId ∈ owner.runtime.replayReadyClients,
      event = .authorized clientId) :
    ({ owner with runtime := runtime, log := owner.log ++ more } : OwnedTerminal).Marks := by
  refine h.extend (fun _ hc => hattached ▸ hc) (fun _ hc => hready ▸ hc) ?_ ?_
  · intro clientId hmem
    obtain ⟨other, -, heq⟩ := hmore _ hmem
    cases heq
  · intro clientId hmem
    obtain ⟨other, hother, heq⟩ := hmore _ hmem
    cases heq
    exact hother

/-- The record of clients does not depend on the rest of the terminal. -/
theorem Marks.congr (h : owner.Marks) (hruntime : owner'.runtime = owner.runtime)
    (hlog : owner'.log = owner.log) : owner'.Marks := by
  refine ⟨?_, ?_, ?_⟩
  · rw [hruntime, hlog]
    exact h.attached
  · rw [hruntime, hlog]
    exact h.ready
  · rw [hlog]
    exact h.authorized

theorem none_logged {p : ClientEvent → Prop} : ∀ event ∈ ([] : List ClientEvent), p event :=
  fun _ hevent => absurd hevent List.not_mem_nil

theorem Marks.handleTerminalCommand {command : TerminalCommand} (h : owner.Marks)
    (hguard : owner.AttachesUnready (.single command)) :
    ({ owner with
      runtime := owner.runtime.handle command
      log := owner.log ++ logged owner.runtime command } : OwnedTerminal).Marks := by
  cases command with
  | attach clientId =>
    refine ⟨?_, ?_, ?_⟩
    · intro other hother
      rcases Finset.mem_insert.mp hother with rfl | hother
      · exact List.mem_append_right _ (List.mem_singleton_self _)
      · exact List.mem_append_left _ (h.attached other hother)
    · intro other hother
      refine (h.ready other hother).append ?_
      intro hmem
      obtain rfl : other = clientId := by simpa [logged] using hmem
      exact hguard hother
    · intro other before after hlog
      dsimp only [logged] at hlog
      rcases List.eq_nil_or_concat after with rfl | ⟨rest, last, rfl⟩
      · obtain ⟨-, hlast⟩ := List.append_inj' hlog rfl
        cases hlast
      · rw [List.concat_eq_append, ← List.cons_append, ← List.append_assoc] at hlog
        exact h.authorized other before rest (List.append_inj' hlog rfl).1
  | markReplayReady clientId =>
    by_cases hattached : clientId ∈ owner.runtime.attachedClients
    · simp only [TerminalRuntime.handle, TerminalRuntime.markReplayReady, if_pos hattached, logged]
      refine ⟨?_, ?_, ?_⟩
      · exact fun other hother => List.mem_append_left _ (h.attached other hother)
      · intro other hother
        rcases Finset.mem_insert.mp hother with rfl | hother
        · exact .of_ready (h.attached other hattached)
        · exact (h.ready other hother).append (by simp)
      · intro other before after hlog
        dsimp only at hlog
        rcases List.eq_nil_or_concat after with rfl | ⟨rest, last, rfl⟩
        · obtain ⟨-, hlast⟩ := List.append_inj' hlog rfl
          cases hlast
        · rw [List.concat_eq_append, ← List.cons_append, ← List.append_assoc] at hlog
          exact h.authorized other before rest (List.append_inj' hlog rfl).1
    · simp only [TerminalRuntime.handle, TerminalRuntime.markReplayReady, if_neg hattached, logged]
      exact h.authorizing rfl rfl none_logged
  | detach clientId =>
    refine h.extend ?_ ?_ (by simp [logged]) (by simp [logged])
    · exact fun _ hc => Finset.mem_of_mem_erase hc
    · exact fun _ hc => Finset.mem_of_mem_erase hc
  | authorizeAndWrite request =>
    obtain ⟨-, hattached, hready⟩ := id_authorizeReady owner.runtime request
    exact h.authorizing hattached hready none_logged
  | authorizeAndResize request =>
    obtain ⟨-, hattached, hready⟩ := id_authorizeReady owner.runtime request
    exact h.authorizing hattached hready none_logged
  | authorizeAndDispose request =>
    refine h.authorizing ?_ ?_ none_logged
    · simp only [TerminalRuntime.handle, TerminalRuntime.authorizeAndDispose]
      split <;> rfl
    · simp only [TerminalRuntime.handle, TerminalRuntime.authorizeAndDispose]
      split <;> rfl
  | releaseConnection connectionId now draw =>
    refine h.extend ?_ ?_ (by simp [logged]) (by simp [logged])
    · exact fun _ hc => Finset.mem_of_mem_erase hc
    · exact fun _ hc => Finset.mem_of_mem_erase hc
  | _ => exact h.authorizing rfl rfl none_logged

theorem Marks.handleBatch {batch : Batch} {replies : List Reply} {goesOn : Bool} (h : owner.Marks)
    (hguard : owner.AttachesUnready batch)
    (hbatch : owner.handleBatch batch = some (owner', replies, goesOn)) : owner'.Marks := by
  cases batch with
  | writes commands =>
    cases hbatch
    obtain ⟨-, hattached, hready⟩ := clients_authorizeWrites owner.runtime commands
    exact (h.authorizing hattached hready (ready_of_write owner.runtime commands)).congr rfl rfl
  | resizes commands =>
    cases hbatch
    obtain ⟨-, hattached, hready⟩ := clients_authorizeResizes owner.runtime commands
    have hmarks := h.authorizing hattached hready (ready_of_resize owner.runtime commands)
    unfold handleResizes
    dsimp only
    split
    · exact hmarks
    · rename_i command hlatest
      refine hmarks.congr ?_ ?_
      all_goals
        unfold resizeTerminal
        dsimp only
        split <;> try rfl
        split <;> rfl
  | single command =>
    obtain ⟨⟨handled, more⟩, hhandled, heq⟩ := Option.map_eq_some_iff.mp hbatch
    cases heq
    rw [handleTerminalCommand_some hhandled]
    exact h.handleTerminalCommand hguard

theorem Marks.step (h : owner.Marks) (hguard : owner.Reattaches act)
    (hstep : owner.step act = some owner') : owner'.Marks := by
  cases act with
  | batch commands pollFails =>
    simp only [OwnedTerminal.step] at hstep
    split at hstep
    · cases hstep
    · exact batch_invariant (fun _ _ _ _ _ ho hg hb => ho.handleBatch hg hb)
        (fun _ ho => ho.congr rfl rfl) (fun _ _ ho => ho.congr rfl rfl) hguard hstep h
  | ready writable readable pollFails =>
    simp only [OwnedTerminal.step] at hstep
    split at hstep
    · cases hstep
    · obtain ⟨haside, -⟩ := aside_ready hstep
      exact h.congr haside.runtime haside.log
  | releaseConnection connectionId now draw =>
    simp only [OwnedTerminal.step] at hstep
    split at hstep
    · cases hstep
    · cases hstep
      refine h.extend ?_ ?_ (by simp) (by simp)
      · exact fun _ hc => Finset.mem_of_mem_erase hc
      · exact fun _ hc => Finset.mem_of_mem_erase hc
  | restart terminalEpoch size =>
    simp only [OwnedTerminal.step] at hstep
    split at hstep
    · cases hstep
      have hmarks : ({ owner with
          runtime := TerminalRuntime.initializeRuntime owner.runtime.id terminalEpoch
          log := owner.log ++ [.restarted] } : OwnedTerminal).Marks :=
        h.extend nofun nofun (by simp) (by simp)
      exact hmarks.congr rfl rfl
    · cases hstep

end OwnedTerminal
end PiDeck.Terminal
