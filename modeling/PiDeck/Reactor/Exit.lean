import Mathlib
import PiDeck.Reactor.Runtime

/-! Output before exit. What the reader returns is sequenced, sent out and offered to the archive
in every run; that nothing is left in the PTY when the exit is reported needs more: nothing but the
end of the output may close it. -/
namespace PiDeck.Reactor
open PiDeck.Transition

def TerminalEvent.output? : TerminalEvent → Option (ℕ × Bytes)
  | .output sequence data => some (sequence, data)
  | .bell | .exit _ _ => none

def TerminalEvent.isExit : TerminalEvent → Bool
  | .exit _ _ => true
  | .output _ _ | .bell => false

/-- Each chunk has the sequence of its last byte. -/
inductive Sequenced : ℕ → List (ℕ × Bytes) → Prop
  | nil : Sequenced 0 []
  | concat {sequence : ℕ} {chunks : List (ℕ × Bytes)} (earlier : Sequenced sequence chunks)
      (data : Bytes) : Sequenced (saturatingAdd sequence data.length)
        (chunks ++ [(saturatingAdd sequence data.length, data)])

/-- A write that the reactor takes for the end of the terminal. -/
def WriteOutcome.fails : WriteOutcome → Bool
  | .wrote count => count = 0
  | .failed => true
  | .interrupted | .wouldBlock => false

def WriteOutcome.written : WriteOutcome → ℕ
  | .wrote count => count
  | .interrupted | .wouldBlock | .failed => 0

/-- The parser has read the chunk, and there is room for its responses. -/
def accepts (pendingInputBytes : ℕ) : Option Effects → Prop
  | none => False
  | some effects => effects.ptyResponses = [] ∨
    pendingInputBytes + (effects.ptyResponses.map List.length).sum ≤ maxPendingInputBytesPerTerminal

def bytesRead : Option (ReadOutcome × Option Effects) → ℕ
  | some (.bytes count, _) => count
  | _ => 0

namespace TerminalRuntime

/-- The chunks that were sent out. -/
def outputs (runtime : TerminalRuntime) : List (ℕ × Bytes) :=
  runtime.events.filterMap TerminalEvent.output?

/-- The reader is at its end of file. -/
def AtEnd (runtime : TerminalRuntime) : Prop := runtime.hungUp = true ∧ runtime.pty = []

/-- What the child has written is read as long as there is some of it. -/
def Reading (runtime : TerminalRuntime) : Prop := runtime.outputOpen = true ∨ runtime.AtEnd

/-- All that was read was sequenced, sent out and offered to the archive, and all of it before the
exit. -/
structure Delivered (runtime : TerminalRuntime) : Prop where
  sequenced : Sequenced runtime.state.sequence runtime.outputs
  offered : runtime.history = runtime.outputs
  complete : (runtime.outputs.map Prod.snd).flatten ++ runtime.pty = runtime.produced
  exited : (∀ event ∈ runtime.events, event.isExit = false) ∧ runtime.exitObserved = false ∨
    runtime.outputOpen = false ∧ runtime.exitObserved = true ∧ ∃ earlier code signal,
      runtime.events = earlier ++ [.exit code signal] ∧ ∀ event ∈ earlier, event.isExit = false

/-- The event closes the output: a write or the read fails, the parser fails, or its responses do
not fit. -/
def Disturbs (runtime : TerminalRuntime) (writable : Option (List WriteOutcome))
    (readable : Option (ReadOutcome × Option Effects)) : Prop :=
  (∃ outcome ∈ writable.getD [], outcome.fails = true) ∨
    match readable with
    | some (.failed, _) => True
    | some (.bytes _, effects) => ¬accepts (runtime.pendingInputBytes -
        ((writable.getD []).map WriteOutcome.written).sum) effects
    | _ => False

/-- Nothing closes the output while the child may write more or some of it is left to read. -/
def Undisturbed (runtime : TerminalRuntime) : ReactorAct → Prop
  | .ready writable readable => runtime.Disturbs writable readable →
    runtime.hungUp = true ∧ runtime.pty.length ≤ bytesRead readable
  | _ => True

/-- The step is about input only. -/
structure Quiet (runtime runtime' : TerminalRuntime) : Prop where
  pty : runtime'.pty = runtime.pty
  hungUp : runtime'.hungUp = runtime.hungUp
  produced : runtime'.produced = runtime.produced
  exitObserved : runtime'.exitObserved = runtime.exitObserved
  state : runtime'.state = runtime.state
  events : runtime'.events = runtime.events
  history : runtime'.history = runtime.history

variable {runtime runtime' runtime'' : TerminalRuntime} {act : ReactorAct}

theorem Quiet.refl (runtime : TerminalRuntime) : runtime.Quiet runtime :=
  ⟨rfl, rfl, rfl, rfl, rfl, rfl, rfl⟩

theorem Quiet.trans (h : runtime.Quiet runtime') (k : runtime'.Quiet runtime'') :
    runtime.Quiet runtime'' :=
  ⟨k.pty.trans h.pty, k.hungUp.trans h.hungUp, k.produced.trans h.produced,
    k.exitObserved.trans h.exitObserved, k.state.trans h.state, k.events.trans h.events,
    k.history.trans h.history⟩

theorem Delivered.quiet (hi : runtime.Delivered) (h : runtime.Quiet runtime')
    (hopen : runtime.outputOpen = false → runtime'.outputOpen = false) : runtime'.Delivered := by
  have houtputs : runtime'.outputs = runtime.outputs := by
    unfold outputs
    rw [h.events]
  refine ⟨?_, ?_, ?_, ?_⟩
  · rw [h.state, houtputs]
    exact hi.sequenced
  · rw [h.history, houtputs]
    exact hi.offered
  · rw [h.pty, h.produced, houtputs]
    exact hi.complete
  · rw [h.events, h.exitObserved]
    rcases hi.exited with hnone | ⟨hclosed, hexited⟩
    · exact .inl hnone
    · exact .inr ⟨hopen hclosed, hexited⟩

theorem quiet_enqueuePendingInput {data : Bytes} {authorityResponse : Bool}
    (h : runtime.enqueuePendingInput data authorityResponse = some runtime') :
    runtime.Quiet runtime' ∧ runtime'.outputOpen = runtime.outputOpen ∧
      runtime'.pendingInputBytes = runtime.pendingInputBytes + data.length ∧
      runtime.pendingInputBytes + data.length ≤ maxPendingInputBytesPerTerminal := by
  unfold enqueuePendingInput at h
  split at h
  · cases h
  · rename_i hroom
    obtain rfl := Option.some.inj h
    exact ⟨⟨rfl, rfl, rfl, rfl, rfl, rfl, rfl⟩, rfl, rfl, Nat.le_of_not_lt hroom⟩

/-- Responses are all queued or the last one that was tried did not fit. -/
theorem enqueueResponses_spec (responses : List Bytes) (runtime : TerminalRuntime) :
    runtime.Quiet (runtime.enqueueResponses responses).1 ∧
      (runtime.enqueueResponses responses).1.outputOpen = runtime.outputOpen ∧
      ((runtime.enqueueResponses responses).2 = true ↔ responses = [] ∨
        runtime.pendingInputBytes + (responses.map List.length).sum ≤
          maxPendingInputBytesPerTerminal) := by
  induction responses generalizing runtime with
  | nil => exact ⟨.refl _, rfl, by simp [enqueueResponses]⟩
  | cons response responses ih =>
    cases hqueue : runtime.enqueuePendingInput response true with
    | none =>
      have hfull : maxPendingInputBytesPerTerminal <
          runtime.pendingInputBytes + response.length := by
        unfold enqueuePendingInput at hqueue
        split at hqueue
        · assumption
        · cases hqueue
      have hresult : runtime.enqueueResponses (response :: responses) = (runtime, false) := by
        simp only [enqueueResponses, hqueue]
      rw [hresult]
      refine ⟨.refl _, rfl, ?_⟩
      simp only [Bool.false_eq_true, List.map_cons, List.sum_cons, reduceCtorEq, false_or,
        false_iff]
      omega
    | some queued =>
      obtain ⟨hquiet, hopen, hbytes, hroom⟩ := quiet_enqueuePendingInput hqueue
      obtain ⟨hquiet', hopen', haccepted⟩ := ih queued
      have hresult : runtime.enqueueResponses (response :: responses) =
          queued.enqueueResponses responses := by
        simp only [enqueueResponses, hqueue]
      rw [hresult]
      refine ⟨hquiet.trans hquiet', hopen'.trans hopen, haccepted.trans ?_⟩
      rw [hbytes]
      simp only [List.map_cons, List.sum_cons, reduceCtorEq, false_or]
      constructor
      · rintro (rfl | hfits)
        · simpa using hroom
        · omega
      · intro hfits
        exact .inr (by omega)

/-- The loop over the writes: a failed one is the last. -/
theorem flushRuntimeInput_spec {outcomes : List WriteOutcome} {budget : ℕ}
    (h : flushRuntimeInput outcomes budget runtime = some runtime') :
    runtime.Quiet runtime' ∧
      runtime'.outputOpen = (runtime.outputOpen && !outcomes.any WriteOutcome.fails) ∧
      (outcomes.any WriteOutcome.fails = false → runtime'.pendingInputBytes =
        runtime.pendingInputBytes - (outcomes.map WriteOutcome.written).sum) := by
  induction outcomes generalizing budget runtime with
  | nil =>
    simp only [flushRuntimeInput] at h
    split at h
    · obtain rfl := Option.some.inj h
      exact ⟨.refl _, by simp, by simp⟩
    · cases h
  | cons outcome outcomes ih =>
    have last : ∀ {failing : WriteOutcome}, failing.fails = true → outcomes = [] →
        runtime.failInput = runtime' → runtime.Quiet runtime' ∧
          runtime'.outputOpen = (runtime.outputOpen &&
            !(failing :: outcomes).any WriteOutcome.fails) ∧
          ((failing :: outcomes).any WriteOutcome.fails = false → runtime'.pendingInputBytes =
            runtime.pendingInputBytes -
              ((failing :: outcomes).map WriteOutcome.written).sum) := by
      rintro failing hfails rfl rfl
      refine ⟨⟨rfl, rfl, rfl, rfl, rfl, rfl, rfl⟩, ?_, fun hnone => ?_⟩
      · simp [failInput, hfails]
      · simp [hfails] at hnone
    simp only [flushRuntimeInput] at h
    split at h
    · cases h
    · rename_i data offset rest hpending
      split at h
      · cases h
      · split at h
        · split at h
          · exact last rfl ‹_› (Option.some.inj h)
          · cases h
        · split at h
          · exact last rfl ‹_› (Option.some.inj h)
          · cases h
        · rename_i count hcount
          split at h
          · obtain ⟨hquiet, hopen, hbytes⟩ := ih h
            have hgoes : (WriteOutcome.wrote count).fails = false := by
              simpa [WriteOutcome.fails] using hcount
            refine ⟨⟨hquiet.pty, hquiet.hungUp, hquiet.produced, hquiet.exitObserved, hquiet.state,
              hquiet.events, hquiet.history⟩, ?_, fun hnone => ?_⟩
            · simpa [hgoes] using hopen
            · rw [List.any_cons, hgoes, Bool.false_or] at hnone
              rw [hbytes hnone]
              simp [WriteOutcome.written, Nat.sub_sub]
          · cases h
        · obtain ⟨hquiet, hopen, hbytes⟩ := ih h
          refine ⟨hquiet, ?_, fun hnone => ?_⟩
          · simpa [WriteOutcome.fails] using hopen
          · rw [List.any_cons] at hnone
            simpa [WriteOutcome.written] using hbytes (by simpa [WriteOutcome.fails] using hnone)
        · split at h
          · rename_i hlast
            obtain rfl := Option.some.inj h
            subst hlast
            exact ⟨.refl _, by simp [WriteOutcome.fails], by simp [WriteOutcome.written]⟩
          · cases h

theorem sequenced_sequence (state : EntryState) (data : Bytes) :
    (state.sequenced data).sequence = saturatingAdd state.sequence data.length := rfl

theorem outputs_concat {events : List TerminalEvent} {sequence : ℕ} {data : Bytes} (bells : ℕ) :
    (events ++ [TerminalEvent.output sequence data] ++
        List.replicate bells TerminalEvent.bell).filterMap TerminalEvent.output? =
      events.filterMap TerminalEvent.output? ++ [(sequence, data)] := by
  have hbells : (List.replicate bells TerminalEvent.bell).filterMap TerminalEvent.output? = [] := by
    induction bells with
    | zero => rfl
    | succ bells ih => simp [List.replicate_succ, TerminalEvent.output?]
  rw [List.filterMap_append, List.filterMap_append, hbells, List.append_nil]
  rfl

/-- A chunk is sent out whatever the parser says about it. -/
theorem processTerminalOutput_spec (runtime : TerminalRuntime) (data : Bytes)
    (effects : Option Effects) :
    let processed := (runtime.processTerminalOutput data effects).1
    let sequence := saturatingAdd runtime.state.sequence data.length
    (processed.pty = runtime.pty ∧ processed.hungUp = runtime.hungUp ∧
      processed.produced = runtime.produced ∧ processed.exitObserved = runtime.exitObserved ∧
      processed.outputOpen = runtime.outputOpen) ∧
    processed.state.sequence = sequence ∧
    (∃ bells, processed.events =
      runtime.events ++ [.output sequence data] ++ List.replicate bells .bell) ∧
    processed.history = runtime.history ++ [(sequence, data)] ∧
    ((runtime.processTerminalOutput data effects).2 = true ↔
      accepts runtime.pendingInputBytes effects) := by
  cases effects with
  | none => exact ⟨⟨rfl, rfl, rfl, rfl, rfl⟩, rfl, ⟨0, by simp [processTerminalOutput,
      sequenced_sequence]⟩, rfl, by simp [processTerminalOutput, accepts]⟩
  | some effects =>
    let sent : TerminalRuntime := { runtime with
      state := runtime.state.sequenced data
      events := runtime.events ++ [.output (runtime.state.sequenced data).sequence data]
      history := runtime.history ++ [((runtime.state.sequenced data).sequence, data)] }
    obtain ⟨hquiet, hopen, haccepted⟩ := enqueueResponses_spec effects.ptyResponses sent
    have hresult : runtime.processTerminalOutput data (some effects) =
        if (sent.enqueueResponses effects.ptyResponses).2 then
          ({ (sent.enqueueResponses effects.ptyResponses).1 with
            events := (sent.enqueueResponses effects.ptyResponses).1.events ++
              List.replicate effects.bells .bell }, true)
        else ((sent.enqueueResponses effects.ptyResponses).1, false) := rfl
    rw [hresult]
    split
    · rename_i hall
      refine ⟨⟨hquiet.pty, hquiet.hungUp, hquiet.produced, hquiet.exitObserved, hopen⟩,
        congrArg EntryState.sequence hquiet.state, ⟨effects.bells, ?_⟩, hquiet.history, ?_⟩
      · simp only [hquiet.events]
        rfl
      · simpa [accepts] using haccepted.mp hall
    · rename_i hrefused
      refine ⟨⟨hquiet.pty, hquiet.hungUp, hquiet.produced, hquiet.exitObserved, hopen⟩,
        congrArg EntryState.sequence hquiet.state, ⟨0, ?_⟩, hquiet.history, ?_⟩
      · simp only [hquiet.events, List.replicate_zero, List.append_nil]
        rfl
      · simpa [accepts] using fun hfits => hrefused (haccepted.mpr hfits)

theorem Delivered.live (hi : runtime.Delivered) (hexit : runtime.exitObserved = false) :
    ∀ event ∈ runtime.events, event.isExit = false := by
  rcases hi.exited with ⟨hnone, -⟩ | ⟨-, hobserved, -⟩
  · exact hnone
  · rw [hexit] at hobserved
    cases hobserved

/-- What a read does before the exit. -/
theorem drainRuntimeOutput_spec {read : ReadOutcome} {effects : Option Effects}
    (hi : runtime.Delivered) (hexit : runtime.exitObserved = false)
    (h : runtime.drainRuntimeOutput read effects = some runtime') :
    runtime'.Delivered ∧ runtime'.exitObserved = false ∧ runtime'.hungUp = runtime.hungUp ∧
      runtime'.pty = runtime.pty.drop (bytesRead (some (read, effects))) ∧
      (runtime'.outputOpen = true ↔ runtime.outputOpen = true ∧
        match read with
        | .endOfFile | .failed => False
        | .bytes _ => accepts runtime.pendingInputBytes effects
        | .retry => True) ∧
      (read = .endOfFile → runtime.AtEnd) := by
  have hlive := hi.live hexit
  cases read with
  | endOfFile =>
    simp only [drainRuntimeOutput] at h
    split at h
    · rename_i hend
      obtain rfl := Option.some.inj h
      refine ⟨hi.quiet ⟨rfl, rfl, rfl, rfl, rfl, rfl, rfl⟩ (fun _ => rfl), hexit, rfl, ?_, ?_,
        fun _ => hend⟩
      · simp [bytesRead]
      · simp
    · cases h
  | retry =>
    obtain rfl := Option.some.inj h
    refine ⟨hi, hexit, rfl, ?_, ?_, fun hread => ?_⟩
    · simp [bytesRead]
    · simp
    · cases hread
  | failed =>
    obtain rfl := Option.some.inj h
    refine ⟨hi.quiet ⟨rfl, rfl, rfl, rfl, rfl, rfl, rfl⟩ (fun _ => rfl), hexit, rfl, ?_, ?_,
      fun hread => ?_⟩
    · simp [bytesRead]
    · simp
    · cases hread
  | bytes count =>
    simp only [drainRuntimeOutput] at h
    split at h
    · obtain ⟨⟨hpty, hhungUp, hproduced, hobserved, hopen⟩, hsequence, ⟨bells, hevents⟩, hhistory,
        hgoes⟩ := processTerminalOutput_spec { runtime with pty := runtime.pty.drop count }
          (runtime.pty.take count) effects
      set processed := processTerminalOutput { runtime with pty := runtime.pty.drop count }
        (runtime.pty.take count) effects
      have houtputs : processed.1.outputs = runtime.outputs ++
          [(saturatingAdd runtime.state.sequence (runtime.pty.take count).length,
            runtime.pty.take count)] := by
        unfold outputs
        rw [hevents]
        exact outputs_concat bells
      have hdelivered : processed.1.Delivered := by
        refine ⟨?_, ?_, ?_, .inl ⟨?_, hobserved.trans hexit⟩⟩
        · rw [houtputs, hsequence]
          exact hi.sequenced.concat _
        · rw [houtputs, hhistory, hi.offered]
        · rw [houtputs, hpty, hproduced, List.map_append, List.flatten_append, List.map_singleton,
            List.flatten_singleton, List.append_assoc, List.take_append_drop]
          exact hi.complete
        · intro event hevent
          rw [hevents] at hevent
          simp only [List.mem_append, List.mem_singleton] at hevent
          rcases hevent with (hevent | rfl) | hevent
          · exact hlive event hevent
          · rfl
          · rw [List.eq_of_mem_replicate hevent]
            rfl
      split at h
      · rename_i hon
        obtain rfl := Option.some.inj h
        refine ⟨hdelivered, hobserved.trans hexit, hhungUp, hpty, ?_, fun hread => ?_⟩
        · rw [hopen]
          simp [hgoes.mp hon]
        · cases hread
      · rename_i hoff
        obtain rfl := Option.some.inj h
        refine ⟨hdelivered.quiet ⟨rfl, rfl, rfl, rfl, rfl, rfl, rfl⟩ (fun _ => rfl),
          hobserved.trans hexit, hhungUp, hpty, ?_, fun hread => ?_⟩
        · have hrefused : ¬accepts runtime.pendingInputBytes effects := fun haccepted =>
            hoff (hgoes.mpr haccepted)
          simp [hrefused]
        · cases hread
    · cases h

/-- The input side of a readiness event. -/
theorem flushed_spec {writable : Option (List WriteOutcome)} {flushed : TerminalRuntime}
    (hopen : runtime.outputOpen = true)
    (h : runtime.whenWritable writable = some flushed) :
    runtime.Quiet flushed ∧
      (flushed.outputOpen = true ↔ ¬∃ outcome ∈ writable.getD [], outcome.fails = true) ∧
      ((¬∃ outcome ∈ writable.getD [], outcome.fails = true) → flushed.pendingInputBytes =
        runtime.pendingInputBytes - ((writable.getD []).map WriteOutcome.written).sum) := by
  cases writable with
  | none =>
    obtain rfl := Option.some.inj h
    exact ⟨.refl _, by simp [hopen], by simp⟩
  | some outcomes =>
    obtain ⟨hquiet, hflushed, hbytes⟩ := flushRuntimeInput_spec h
    refine ⟨hquiet, ?_, fun hnone => hbytes ?_⟩
    · rw [hflushed, hopen]
      simp
    · simpa using hnone

/-- The reader goes on after a readiness event exactly when the event did not disturb it. -/
theorem ready_spec {writable : Option (List WriteOutcome)}
    {readable : Option (ReadOutcome × Option Effects)} (hi : runtime.Delivered)
    (h : runtime.ready writable readable = some runtime') :
    runtime'.Delivered ∧ (runtime.Undisturbed (.ready writable readable) ↔ runtime'.Reading) := by
  unfold ready at h
  split at h
  · rename_i hopen
    obtain ⟨flushed, hflush, h⟩ := Option.bind_eq_some_iff.mp h
    obtain ⟨drained, hdrain, rfl⟩ := Option.map_eq_some_iff.mp h
    obtain ⟨hquiet, hflushed, hbytes⟩ := flushed_spec hopen hflush
    have hexit : runtime.exitObserved = false := by
      rcases hi.exited with ⟨-, hexit⟩ | ⟨hclosed, -⟩
      · exact hexit
      · rw [hopen] at hclosed
        cases hclosed
    have hdelivered : flushed.Delivered := hi.quiet hquiet fun hclosed => by
      rw [hopen] at hclosed
      cases hclosed
    -- what the event leaves, and what keeps its output open
    have hfinal : ∀ {P : Prop}, drained.Delivered → drained.hungUp = runtime.hungUp →
        drained.pty = runtime.pty.drop (bytesRead readable) →
        (drained.outputOpen = true ↔ P) → (P → ¬runtime.Disturbs writable readable) →
        (¬P → runtime.Disturbs writable readable ∨ runtime.AtEnd) →
        (if drained.outputOpen then drained else drained.unregister).Delivered ∧
          (runtime.Undisturbed (.ready writable readable) ↔
            (if drained.outputOpen then drained else drained.unregister).Reading) := by
      intro P hall hhungUp hpty hP hcalm hdisturbs
      have hend : drained.AtEnd ↔
          runtime.hungUp = true ∧ runtime.pty.length ≤ bytesRead readable := by
        rw [AtEnd, hhungUp, hpty, List.drop_eq_nil_iff]
      have hreading : runtime.Undisturbed (.ready writable readable) ↔ P ∨ drained.AtEnd := by
        rw [hend]
        constructor
        · intro hundisturbed
          by_cases hp : P
          · exact .inl hp
          · rcases hdisturbs hp with hdisturbed | ⟨hhung, hempty⟩
            · exact .inr (hundisturbed hdisturbed)
            · exact .inr ⟨hhung, by simp [hempty]⟩
        · rintro (hp | hatEnd) hdisturbed
          · exact absurd hdisturbed (hcalm hp)
          · exact hatEnd
      rw [hreading]
      split
      · rename_i hstill
        exact ⟨hall, fun _ => .inl hstill, fun _ => .inl (hP.mp hstill)⟩
      · rename_i hclosed
        refine ⟨hall.quiet ⟨rfl, rfl, rfl, rfl, rfl, rfl, rfl⟩ (fun _ => rfl), ?_, ?_⟩
        · rintro (hp | hatEnd)
          · exact absurd (hP.mpr hp) hclosed
          · exact .inr hatEnd
        · rintro (hstill | hatEnd)
          · cases hstill
          · exact .inr hatEnd
    cases readable with
    | none =>
      obtain rfl := Option.some.inj hdrain
      refine hfinal hdelivered hquiet.hungUp hquiet.pty hflushed (fun hcalm hdisturbed => ?_)
        fun hfailed => .inl (.inl (not_not.mp hfailed))
      rcases hdisturbed with hfailed | hfalse
      · exact hcalm hfailed
      · exact hfalse
    | some answer =>
      obtain ⟨read, effects⟩ := answer
      obtain ⟨hall, -, hhungUp, hpty, hopen', hend⟩ :=
        drainRuntimeOutput_spec hdelivered (hquiet.exitObserved.trans hexit) hdrain
      rw [hquiet.hungUp] at hhungUp
      rw [hquiet.pty] at hpty
      refine hfinal hall hhungUp hpty hopen' ?_ ?_
      · rintro ⟨hcalm, hread⟩ (hfailed | hdisturbed)
        · exact hflushed.mp hcalm hfailed
        · cases read with
          | bytes count =>
            rw [hbytes (hflushed.mp hcalm)] at hread
            exact hdisturbed hread
          | endOfFile => exact hread
          | retry => exact hdisturbed
          | failed => exact hread
      · intro hclosed
        by_cases hfailed : ∃ outcome ∈ writable.getD [], outcome.fails = true
        · exact .inl (.inl hfailed)
        · have hcalm := hflushed.mpr hfailed
          cases read with
          | bytes count =>
            refine .inl (.inr fun hread => hclosed ⟨hcalm, ?_⟩)
            rw [hbytes hfailed]
            exact hread
          | endOfFile =>
            obtain ⟨hhung, hempty⟩ := hend rfl
            exact .inr ⟨hquiet.hungUp.symm.trans hhung, hquiet.pty.symm.trans hempty⟩
          | retry => exact absurd ⟨hcalm, trivial⟩ hclosed
          | failed => exact .inl (.inr trivial)
  · cases h

theorem Delivered.reportExit (hi : runtime.Delivered) (hclosed : runtime.outputOpen = false)
    (hexit : runtime.exitObserved = false) (code : ℤ) (signal : Option ℤ) :
    (runtime.reportExit code signal).Delivered := by
  have houtputs : (runtime.reportExit code signal).outputs = runtime.outputs := by
    unfold outputs
    exact (List.filterMap_append ..).trans (List.append_nil _)
  refine ⟨?_, ?_, ?_, .inr ⟨hclosed, rfl, runtime.events, code, signal, rfl, hi.live hexit⟩⟩
  · rw [houtputs]
    exact hi.sequenced
  · rw [houtputs]
    exact hi.offered
  · rw [houtputs]
    exact hi.complete

/-- Every step delivers what it reads, and goes on reading when nothing disturbs it. -/
theorem step_spec (hi : runtime.Delivered) (hreading : runtime.Reading)
    (h : machine.step runtime act = some runtime') :
    runtime'.Delivered ∧ (runtime.Undisturbed act ↔ runtime'.Reading) := by
  cases act with
  | childWrites data =>
    simp only [machine, step] at h
    split at h
    · cases h
    · rename_i hhungUp
      obtain rfl := Option.some.inj h
      refine ⟨⟨hi.sequenced, hi.offered, ?_, hi.exited⟩, fun _ => ?_, fun _ => trivial⟩
      · have hcomplete := hi.complete
        rw [← hcomplete, List.append_assoc]
        rfl
      · rcases hreading with hopen | hend
        · exact .inl hopen
        · exact absurd hend.1 hhungUp
  | childHangsUp =>
    obtain rfl := Option.some.inj h
    refine ⟨⟨hi.sequenced, hi.offered, hi.complete, hi.exited⟩, fun _ => ?_, fun _ => trivial⟩
    rcases hreading with hopen | hend
    · exact .inl hopen
    · exact .inr ⟨rfl, hend.2⟩
  | input data =>
    obtain ⟨hquiet, hopen, -⟩ := quiet_enqueuePendingInput h
    refine ⟨hi.quiet hquiet fun hclosed => hopen.trans hclosed, fun _ => ?_, fun _ => trivial⟩
    rcases hreading with hstill | ⟨hhung, hempty⟩
    · exact .inl (hopen.trans hstill)
    · exact .inr ⟨hquiet.hungUp.trans hhung, hquiet.pty.trans hempty⟩
  | ready writable readable => exact ready_spec hi h
  | maintain wait =>
    simp only [machine, step] at h
    split at h
    · rename_i hguard
      obtain ⟨hclosed, hexit⟩ := hguard
      obtain rfl := Option.some.inj h
      cases wait with
      | running => exact ⟨hi, fun _ => hreading, fun _ => trivial⟩
      | exited code signal =>
        exact ⟨hi.reportExit hclosed hexit _ signal, fun _ => hreading, fun _ => trivial⟩
      | failed => exact ⟨hi.reportExit hclosed hexit 1 none, fun _ => hreading, fun _ => trivial⟩
    · cases h

/-- All that the child has written was sent out when its exit was reported. -/
theorem Delivered.before_exit (hi : runtime.Delivered) (hreading : runtime.Reading) {code : ℤ}
    {signal : Option ℤ} (hexit : .exit code signal ∈ runtime.events) :
    runtime.hungUp = true ∧ (runtime.outputs.map Prod.snd).flatten = runtime.produced ∧
      ∃ earlier, runtime.events = earlier ++ [.exit code signal] := by
  rcases hi.exited with ⟨hnone, -⟩ | ⟨hclosed, -, earlier, code', signal', hevents, hearlier⟩
  · cases hnone _ hexit
  · have hend : runtime.AtEnd := by
      rcases hreading with hopen | hend
      · rw [hclosed] at hopen
        cases hopen
      · exact hend
    have hcomplete := hi.complete
    rw [hend.2, List.append_nil] at hcomplete
    refine ⟨hend.1, hcomplete, earlier, ?_⟩
    rw [hevents] at hexit ⊢
    rcases List.mem_append.mp hexit with hbefore | hlast
    · cases hearlier _ hbefore
    · rw [List.mem_singleton.mp hlast]

theorem delivered_fresh : fresh.Delivered :=
  ⟨.nil, rfl, rfl, .inl ⟨fun _ hevent => (List.not_mem_nil hevent).elim, rfl⟩⟩

/-- As long as nothing but its end closes the output of a terminal, all that its child writes is
sequenced, sent out and offered to the archive before the exit is reported. The first event that
closes the output for something else leaves it unread. -/
theorem output_before_exit {acts : List ReactorAct}
    (h : machine.Path Undisturbed fresh acts runtime) :
    runtime.Delivered ∧
      (∀ code signal, .exit code signal ∈ runtime.events → runtime.hungUp = true ∧
        (runtime.outputs.map Prod.snd).flatten = runtime.produced ∧
          ∃ earlier, runtime.events = earlier ++ [.exit code signal]) ∧
      ∀ act runtime', machine.step runtime act = some runtime' →
        (runtime.Undisturbed act ↔ runtime'.Reading) := by
  have hi : runtime.Delivered ∧ runtime.Reading :=
    h.invariant (I := fun runtime => runtime.Delivered ∧ runtime.Reading)
      (fun runtime act runtime' hi hundisturbed hstep => by
        obtain ⟨hdelivered, hreading⟩ := step_spec hi.1 hi.2 hstep
        exact ⟨hdelivered, hreading.mp hundisturbed⟩)
      ⟨delivered_fresh, .inl rfl⟩
  obtain ⟨hdelivered, hreading⟩ := hi
  refine ⟨hdelivered, fun code signal hexit => hdelivered.before_exit hreading hexit, ?_⟩
  exact fun act runtime' hstep => (step_spec hdelivered hreading hstep).2

/-- A child says something and ends. -/
def saidAndEnded : List ReactorAct :=
  [.childWrites [104, 105], .ready none (some (.bytes 2, some ⟨[], 0⟩)), .childHangsUp,
    .ready none (some (.endOfFile, none)), .maintain (.exited 0 none)]

/-- A key is typed while the child ends; the write fails, and one read is all that follows. -/
def typedAtTheEnd : List ReactorAct :=
  [.childWrites [104, 105, 33], .childHangsUp, .input [13],
    .ready (some [.failed]) (some (.bytes 2, some ⟨[], 0⟩)), .maintain (.exited 0 none)]

theorem output_before_exit_said : ∃ runtime, machine.Path Undisturbed fresh saidAndEnded runtime ∧
    runtime.Delivered ∧ (runtime.outputs.map Prod.snd).flatten = [104, 105] := by
  have hpath : ∃ runtime, machine.Path Undisturbed fresh saidAndEnded runtime ∧
      runtime.produced = [104, 105] ∧ .exit 0 none ∈ runtime.events := by
    refine ⟨_, .cons trivial rfl (.cons ?_ rfl (.cons trivial rfl (.cons ?_ rfl
      (.cons trivial rfl (.nil _))))), rfl, ?_⟩
    · rintro (⟨outcome, houtcome, -⟩ | hrefused)
      · cases houtcome
      · exact absurd (.inl rfl) hrefused
    · rintro (⟨outcome, houtcome, -⟩ | hfalse)
      · cases houtcome
      · exact hfalse.elim
    · decide
  obtain ⟨runtime, hpath, hproduced, hexit⟩ := hpath
  obtain ⟨hdelivered, hbefore, -⟩ := output_before_exit hpath
  exact ⟨runtime, hpath, hdelivered, (hbefore 0 none hexit).2.1.trans hproduced⟩

/-- The last byte of the child is still in its PTY when the exit has been reported. -/
theorem output_lost : ∃ runtime, machine.Run fresh typedAtTheEnd runtime ∧
    .exit 0 none ∈ runtime.events ∧ runtime.pty = [33] ∧ runtime.outputOpen = false := by
  have hexec : (machine.exec (fun _ _ => True) fresh typedAtTheEnd).map
      (fun runtime => (decide (.exit 0 none ∈ runtime.events), runtime.pty, runtime.outputOpen)) =
        some (true, [33], false) := by decide +kernel
  obtain ⟨runtime, hrun, hvalues⟩ := Option.map_eq_some_iff.mp hexec
  obtain ⟨hexit, hpty, hclosed⟩ : .exit 0 none ∈ runtime.events ∧ runtime.pty = [33] ∧
      runtime.outputOpen = false := by
    simpa using hvalues
  exact ⟨runtime, Machine.path_of_exec hrun, hexit, hpty, hclosed⟩

end TerminalRuntime
end PiDeck.Reactor
