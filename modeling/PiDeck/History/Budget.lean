import Mathlib
import PiDeck.History.Ingest

/-! The ingest budget. While the owner runs, the reserved bytes are those of the queued commands, of
the command that the owner handles and of the calls between reserving and sending; a refused call
answers for none, and the accepted sequence is back where the call found it. -/
namespace PiDeck.History
open PiDeck.Collections PiDeck.Transition

namespace IngestLane
variable {lane next : IngestLane} {call : IngestCall} {id : ℕ} {phase : Phase}

@[simp] theorem setPhase_ingestBytes : (lane.setPhase id phase).ingestBytes = lane.ingestBytes := rfl
@[simp] theorem setPhase_running : (lane.setPhase id phase).running = lane.running := rfl
@[simp] theorem setPhase_acceptedSequences :
    (lane.setPhase id phase).acceptedSequences = lane.acceptedSequences := rfl
@[simp] theorem setPhase_queuedBytes : (lane.setPhase id phase).queuedBytes = lane.queuedBytes := rfl
@[simp] theorem setPhase_handlingBytes :
    (lane.setPhase id phase).handlingBytes = lane.handlingBytes := rfl

/-- What a call moves on to changes its own share only. -/
theorem setPhase_heldBytes (phase : Phase) (h : lane.getCall id = some call) :
    (lane.setPhase id phase).heldBytes + call.held =
      lane.heldBytes + { call with phase := phase }.held := sum_map_modifyRow h

theorem getCall_id (h : lane.getCall id = some call) : call.id = id := findRow_key h

theorem getCall_setPhase_self (h : lane.getCall id = some call) :
    (lane.setPhase id phase).getCall id = some { call with phase := phase } := by
  have keeps : ∀ call : IngestCall, call.id = id → { call with phase := phase }.id = id :=
    fun _ h => h
  refine (findRow_modifyRow keeps id).trans ?_
  rw [if_pos rfl, ← getCall, h]
  rfl

theorem getCall_setPhase_ne {other : ℕ} (h : id ≠ other) :
    (lane.setPhase other phase).getCall id = lane.getCall id := by
  have keeps : ∀ call : IngestCall, call.id = other → { call with phase := phase }.id = other :=
    fun _ h => h
  exact (findRow_modifyRow keeps id).trans (if_neg h)

theorem refused_held {previous : ℕ} {error : HistoryError} :
    { call with phase := call.refused previous error }.held = 0 := by
  simp only [IngestCall.held, IngestCall.refused]
  split_ifs <;> rfl

/-- The reserved bytes and who answers for them. -/
structure Accounted (lane : IngestLane) : Prop where
  bound : lane.ingestBytes ≤ ingestMaxBytes
  total : lane.running → lane.ingestBytes = lane.queuedBytes + lane.handlingBytes + lane.heldBytes

namespace Accounted

theorem initial : IngestLane.initial.Accounted := ⟨Nat.zero_le _, fun _ => rfl⟩

/-- A call that holds as much as before. -/
theorem setPhase (h : lane.Accounted) (hcall : lane.getCall id = some call)
    (hheld : { call with phase := phase }.held = call.held) : (lane.setPhase id phase).Accounted where
  bound := h.bound
  total hrun := by
    have hshare := setPhase_heldBytes phase hcall
    have htotal := h.total hrun
    simp only [setPhase_ingestBytes, setPhase_queuedBytes, setPhase_handlingBytes]
    omega

theorem setAccepted (h : lane.Accounted) (accepted : String → ℕ) :
    { lane with acceptedSequences := accepted }.Accounted := ⟨h.bound, h.total⟩

theorem accept (h : lane.Accounted) (hcall : lane.getCall call.id = some call)
    (hphase : call.phase = .entered) : (lane.accept call).Accounted := by
  have hheld : call.held = 0 := by rw [IngestCall.held, hphase]
  have settle : ∀ phase, { call with phase := phase }.held = 0 →
      (lane.setPhase call.id phase).Accounted := fun _ h₀ => h.setPhase hcall (h₀.trans hheld.symm)
  rw [IngestLane.accept]
  split
  · split_ifs
    · exact settle _ rfl
    · exact settle _ rfl
    · exact settle _ rfl
    · dsimp only
      split_ifs
      · exact settle _ rfl
      · exact (settle (.reserving _) rfl).setAccepted _
  · split_ifs
    · exact settle _ rfl
    · exact settle _ rfl

theorem reserve (h : lane.Accounted) (hcall : lane.getCall call.id = some call) {previous : ℕ}
    (hphase : call.phase = .reserving previous) (hstep : lane.reserve call previous = some next) :
    next.Accounted := by
  have hheld : call.held = 0 := by rw [IngestCall.held, hphase]
  rw [IngestLane.reserve] at hstep
  split_ifs at hstep with hfull
  · obtain rfl := Option.some.inj hstep
    exact h.setPhase hcall (refused_held.trans hheld.symm)
  · obtain rfl := Option.some.inj hstep
    refine ⟨by simpa using hfull, fun hrun => ?_⟩
    have hshare := setPhase_heldBytes (.sending previous) hcall
    have htotal := h.total hrun
    have hbytes : { call with phase := .sending previous }.held = call.submission.bytes := rfl
    change lane.ingestBytes + call.submission.bytes =
      lane.queuedBytes + lane.handlingBytes + (lane.setPhase call.id (.sending previous)).heldBytes
    omega

@[simp] theorem command_bytes {submission : Submission} {terminalId : String} :
    (submission.command terminalId).bytes = submission.bytes := by
  cases submission <;> rfl

theorem queuedBytes_append (lane : IngestLane) (command : IngestCommand) :
    { lane with ingest := lane.ingest ++ [command] }.queuedBytes = lane.queuedBytes + command.bytes := by
  simp [queuedBytes]

theorem send (h : lane.Accounted) (hcall : lane.getCall call.id = some call) {previous : ℕ}
    (hphase : call.phase = .sending previous) (hstep : lane.send call previous = some next) :
    next.Accounted := by
  have hheld : call.held = call.submission.bytes := by rw [IngestCall.held, hphase]
  rw [IngestLane.send] at hstep
  split_ifs at hstep with hrun hroom
  · obtain rfl := Option.some.inj hstep
    refine ⟨h.bound, fun _ => ?_⟩
    -- The bytes go from the call to the queue.
    have hshare := setPhase_heldBytes (.returned (.ok ())) hcall
    have htotal := h.total hrun
    have hbytes : { call with phase := .returned (.ok ()) }.held = 0 := rfl
    have hqueued : { lane with ingest := lane.ingest ++
        [call.submission.command call.terminalId] }.queuedBytes =
        lane.queuedBytes + call.submission.bytes := by
      rw [queuedBytes_append, command_bytes]
    change lane.ingestBytes = { lane with ingest := lane.ingest ++
        [call.submission.command call.terminalId] }.queuedBytes + lane.handlingBytes +
      (lane.setPhase call.id (.returned (.ok ()))).heldBytes
    omega
  all_goals
    obtain rfl := Option.some.inj hstep
    exact h.setPhase hcall hheld.symm

theorem release (h : lane.Accounted) (hcall : lane.getCall call.id = some call) {previous : ℕ}
    {error : HistoryError} (hphase : call.phase = .releasing previous error) :
    (lane.release call previous error).Accounted := by
  have hheld : call.held = call.submission.bytes := by rw [IngestCall.held, hphase]
  refine ⟨(Nat.sub_le _ _).trans h.bound, fun hrun => ?_⟩
  have hshare := setPhase_heldBytes (call.refused previous error) hcall
  have htotal := h.total hrun
  have hnone : { call with phase := call.refused previous error }.held = 0 := refused_held
  change lane.ingestBytes - call.submission.bytes = lane.queuedBytes + lane.handlingBytes +
    (lane.setPhase call.id (call.refused previous error)).heldBytes
  omega

theorem restore (h : lane.Accounted) (hcall : lane.getCall call.id = some call) {previous : ℕ}
    {error : HistoryError} (hphase : call.phase = .restoring previous error) :
    (lane.restore call previous error).Accounted := by
  have hheld : call.held = 0 := by rw [IngestCall.held, hphase]
  have settled : (lane.setPhase call.id (.returned (.error error))).Accounted :=
    h.setPhase hcall hheld.symm
  rw [IngestLane.restore]
  split
  · split_ifs
    · exact settled
    · exact settled.setAccepted _
  · exact settled

theorem advance (h : lane.Accounted) (hcall : lane.getCall id = some call)
    (hstep : lane.advance call = some next) : next.Accounted := by
  obtain rfl := getCall_id hcall
  rw [IngestLane.advance] at hstep
  split at hstep
  case h_1 hphase => exact Option.some.inj hstep ▸ h.accept hcall hphase
  case h_2 hphase => exact h.reserve hcall hphase hstep
  case h_3 hphase => exact h.send hcall hphase hstep
  case h_4 hphase => exact Option.some.inj hstep ▸ h.release hcall hphase
  case h_5 hphase => exact Option.some.inj hstep ▸ h.restore hcall hphase
  case h_6 => cases hstep

/-- A command without bytes. -/
theorem enqueue (h : lane.Accounted) {command : IngestCommand} (hbytes : command.bytes = 0)
    (hstep : lane.enqueue command = some next) : next.Accounted := by
  rw [IngestLane.enqueue] at hstep
  split_ifs at hstep with hrun
  obtain rfl := Option.some.inj hstep
  refine ⟨h.bound, fun _ => ?_⟩
  have htotal := h.total hrun.1
  have hqueued := queuedBytes_append lane command
  change lane.ingestBytes = { lane with ingest := lane.ingest ++ [command] }.queuedBytes +
    lane.handlingBytes + lane.heldBytes
  omega

theorem step {a : IngestStep} (h : lane.Accounted) (hstep : lane.step a = some next) :
    next.Accounted := by
  cases a with
  | call id terminalId submission waits =>
    simp only [IngestLane.step] at hstep
    split_ifs at hstep
    obtain rfl := Option.some.inj hstep
    refine ⟨h.bound, fun hrun => ?_⟩
    have htotal := h.total hrun
    simpa [heldBytes, queuedBytes, handlingBytes, IngestCall.held] using htotal
  | advance id =>
    obtain ⟨call, hcall, hstep⟩ := Option.bind_eq_some_iff.mp hstep
    exact h.advance hcall hstep
  | snapshot => exact h.enqueue rfl hstep
  | barrier => exact h.enqueue rfl hstep
  | receive =>
    simp only [IngestLane.step] at hstep
    split_ifs at hstep with hidle
    cases hqueue : lane.ingest with
    | nil => simp [hqueue] at hstep
    | cons command rest =>
      simp only [hqueue, Option.some.injEq] at hstep
      subst hstep
      refine ⟨h.bound, fun hrun => ?_⟩
      -- The bytes go from the queue to the command in hand.
      have htotal := h.total hrun
      simp only [queuedBytes, hqueue, List.map_cons, List.sum_cons, handlingBytes, hidle.2,
        Option.elim_none] at htotal
      simp only [queuedBytes, handlingBytes, Option.elim_some]
      change lane.ingestBytes = _ + _ + lane.heldBytes
      omega
  | finish =>
    obtain ⟨command, hcommand, rfl⟩ := Option.map_eq_some_iff.mp hstep
    refine ⟨(Nat.sub_le _ _).trans h.bound, fun hrun => ?_⟩
    have htotal := h.total hrun
    simp only [handlingBytes, hcommand, Option.elim_some] at htotal
    simp only [handlingBytes, Option.elim_none]
    change lane.ingestBytes - command.bytes = lane.queuedBytes + 0 + lane.heldBytes
    omega
  | stop =>
    obtain rfl := Option.some.inj hstep
    exact ⟨h.bound, fun hrun => by cases hrun⟩
  | load terminalId last =>
    obtain rfl := Option.some.inj hstep
    exact h.setAccepted _
  | closes pending =>
    obtain rfl := Option.some.inj hstep
    exact ⟨h.bound, h.total⟩

theorem run {as : List IngestStep} (h : lane.Accounted) (run : machine.Run lane as next) :
    next.Accounted :=
  run.invariant (I := Accounted) (fun _ _ _ hI _ hstep => hI.step hstep) h

end Accounted

/-- What a step of a call leaves alone: the other calls and the sequences of the other terminals. -/
structure Frames (call : IngestCall) (lane next : IngestLane) : Prop where
  calls : ∀ k, k ≠ call.id → next.getCall k = lane.getCall k
  accepted : ∀ t, t ≠ call.terminalId → next.acceptedSequences t = lane.acceptedSequences t

namespace Frames

theorem setPhase : Frames call lane (lane.setPhase call.id phase) :=
  ⟨fun _ hk => getCall_setPhase_ne hk, fun _ _ => rfl⟩

theorem setBytes (h : Frames call lane next) (bytes : ℕ) :
    Frames call lane { next with ingestBytes := bytes } := ⟨h.calls, h.accepted⟩

theorem setQueue (h : Frames call lane next) (queue : List IngestCommand) :
    Frames call lane { next with ingest := queue } := ⟨h.calls, h.accepted⟩

theorem setAccepted {sequence : ℕ} : Frames call lane { lane.setPhase call.id phase with
    acceptedSequences := Function.update lane.acceptedSequences call.terminalId sequence } :=
  ⟨fun _ hk => getCall_setPhase_ne hk, fun _ ht => Function.update_of_ne ht _ _⟩

theorem advance (hstep : lane.advance call = some next) : Frames call lane next := by
  rw [IngestLane.advance] at hstep
  split at hstep
  · obtain rfl := Option.some.inj hstep
    rw [accept]
    split
    · split_ifs
      · exact setPhase
      · exact setPhase
      · exact setPhase
      · dsimp only
        split_ifs
        · exact setPhase
        · exact setAccepted
    · split_ifs
      · exact setPhase
      · exact setPhase
  · rw [reserve] at hstep
    split_ifs at hstep
    · exact Option.some.inj hstep ▸ setPhase
    · exact Option.some.inj hstep ▸ setPhase.setBytes _
  · rw [send] at hstep
    split_ifs at hstep
    · exact Option.some.inj hstep ▸ setPhase.setQueue _
    all_goals exact Option.some.inj hstep ▸ setPhase
  · exact Option.some.inj hstep ▸ setPhase.setBytes _
  · obtain rfl := Option.some.inj hstep
    rw [restore]
    split
    · split_ifs
      · exact setPhase
      · exact setAccepted
    · exact setPhase
  · cases hstep

end Frames

/-- The accepted sequence of its terminal while a call that does not wait is under way: until the
call sends its command or gives up, the sequence is the attempted one and `previous` the one found,
`start`. -/
def Tentative (start accepted : ℕ) (call : IngestCall) : Prop :=
  match call.phase with
  | .entered | .returned (.error _) => accepted = start
  | .returned (.ok _) => True
  | .reserving previous | .sending previous | .releasing previous _ | .restoring previous _ =>
    match call.submission with
    | .append sequence _ => previous = start ∧ accepted = sequence
    | .checkpoint _ => accepted = start

/-- The call is under way, or has returned. -/
structure Follows (id : ℕ) (terminalId : String) (start : ℕ) (lane : IngestLane) (call : IngestCall) :
    Prop where
  found : lane.getCall id = some call
  terminal : call.terminalId = terminalId
  hasty : call.waits = false
  tentative : Tentative start (lane.acceptedSequences terminalId) call

namespace Follows
variable {terminalId : String} {start : ℕ}

/-- The call moves on and leaves the sequence alone. -/
theorem setPhase (phase : Phase) (h : Follows id terminalId start lane call)
    (ht : Tentative start (lane.acceptedSequences terminalId) { call with phase := phase }) :
    Follows id terminalId start (lane.setPhase call.id phase) { call with phase := phase } where
  found := by
    obtain rfl := getCall_id h.found
    exact getCall_setPhase_self h.found
  terminal := h.terminal
  hasty := h.hasty
  tentative := ht

theorem setAccepted (phase : Phase) {sequence : ℕ} (h : Follows id terminalId start lane call)
    (ht : Tentative start sequence { call with phase := phase }) :
    Follows id terminalId start { lane.setPhase call.id phase with
      acceptedSequences := Function.update lane.acceptedSequences call.terminalId sequence }
      { call with phase := phase } where
  found := by
    obtain rfl := getCall_id h.found
    exact getCall_setPhase_self h.found
  terminal := h.terminal
  hasty := h.hasty
  tentative := by
    change Tentative start (Function.update lane.acceptedSequences call.terminalId sequence
      terminalId) _
    rw [h.terminal, Function.update_self]
    exact ht

theorem setBytes (h : Follows id terminalId start lane call) (bytes : ℕ) :
    Follows id terminalId start { lane with ingestBytes := bytes } call :=
  ⟨h.found, h.terminal, h.hasty, h.tentative⟩

theorem setQueue (h : Follows id terminalId start lane call) (queue : List IngestCommand) :
    Follows id terminalId start { lane with ingest := queue } call :=
  ⟨h.found, h.terminal, h.hasty, h.tentative⟩

theorem accept (h : Follows id terminalId start lane call) (hphase : call.phase = .entered) :
    ∃ call', Follows id terminalId start (lane.accept call) call' := by
  have hstart : lane.acceptedSequences terminalId = start := by
    simpa [Tentative, hphase] using h.tentative
  rw [IngestLane.accept]
  split
  case h_1 sequence data hsubmission =>
    split_ifs
    · exact ⟨_, h.setPhase _ trivial⟩
    · exact ⟨_, h.setPhase _ hstart⟩
    · exact ⟨_, h.setPhase _ hstart⟩
    · dsimp only
      split_ifs
      · exact ⟨_, h.setPhase _ hstart⟩
      · refine ⟨_, h.setAccepted (.reserving _) ?_⟩
        rw [h.terminal]
        simp [Tentative, hsubmission, hstart]
  case h_2 bytes hsubmission =>
    split_ifs
    · exact ⟨_, h.setPhase _ hstart⟩
    · exact ⟨_, h.setPhase _ (by simp [Tentative, hsubmission, hstart])⟩

/-- The phases between accepting and returning say the same of the sequence. -/
theorem tentative_refused {previous : ℕ} {accepted : ℕ} {error : HistoryError}
    (hasty : call.waits = false)
    (h : match call.submission with
      | .append sequence _ => previous = start ∧ accepted = sequence
      | .checkpoint _ => accepted = start) :
    Tentative start accepted { call with phase := call.refused previous error } := by
  cases hsubmission : call.submission with
  | append sequence data =>
    have hrestores : call.restores = true := by simp [IngestCall.restores, hsubmission, hasty]
    simpa [Tentative, IngestCall.refused, hrestores, hsubmission] using h
  | checkpoint bytes =>
    have hrestores : call.restores = false := by simp [IngestCall.restores, hsubmission]
    simpa [Tentative, IngestCall.refused, hrestores, hsubmission] using h

theorem advance (h : Follows id terminalId start lane call) (hstep : lane.advance call = some next) :
    ∃ call', Follows id terminalId start next call' := by
  have ht := h.tentative
  rw [IngestLane.advance] at hstep
  split at hstep
  case h_1 hphase => exact Option.some.inj hstep ▸ h.accept hphase
  case h_2 previous hphase =>
    simp only [Tentative, hphase] at ht
    rw [IngestLane.reserve] at hstep
    split_ifs at hstep
    · exact Option.some.inj hstep ▸ ⟨_, h.setPhase _ (tentative_refused h.hasty ht)⟩
    · exact Option.some.inj hstep ▸ ⟨_, (h.setPhase (.sending previous) ht).setBytes _⟩
  case h_3 previous hphase =>
    simp only [Tentative, hphase] at ht
    rw [IngestLane.send] at hstep
    split_ifs at hstep
    · exact Option.some.inj hstep ▸ ⟨_, (h.setPhase (.returned (.ok ())) trivial).setQueue _⟩
    all_goals exact Option.some.inj hstep ▸ ⟨_, h.setPhase (.releasing previous _) ht⟩
  case h_4 previous error hphase =>
    simp only [Tentative, hphase] at ht
    exact Option.some.inj hstep ▸ ⟨_, (h.setPhase _ (tentative_refused h.hasty ht)).setBytes _⟩
  case h_5 previous error hphase =>
    simp only [Tentative, hphase] at ht
    obtain rfl := Option.some.inj hstep
    rw [IngestLane.restore]
    split
    case h_1 attempted data hsubmission =>
      rw [hsubmission] at ht
      split_ifs with hmoved
      · rw [h.terminal] at hmoved
        exact absurd ht.2 hmoved
      · exact ⟨_, h.setAccepted (.returned (.error error)) ht.1⟩
    case h_2 bytes hsubmission =>
      rw [hsubmission] at ht
      exact ⟨_, h.setPhase (.returned (.error error)) ht⟩
  case h_6 => cases hstep

end Follows

/-- The terminal whose accepted sequence a step may move. -/
def writes (lane : IngestLane) : IngestStep → Option String
  | .advance id => (lane.getCall id).map IngestCall.terminalId
  | .load terminalId _ => some terminalId
  | .call _ _ _ _ | .snapshot | .barrier | .receive | .finish | .stop | .closes _ => none

/-- A step of the call itself, or one that does not move the sequence of its terminal. -/
def Undisturbed (id : ℕ) (terminalId : String) (lane : IngestLane) (a : IngestStep) : Prop :=
  a = .advance id ∨ lane.writes a ≠ some terminalId

namespace Follows
variable {terminalId : String} {start : ℕ} {a : IngestStep}

/-- A step that touches neither the call nor the sequence. -/
theorem same (h : Follows id terminalId start lane call) (hcall : next.getCall id = lane.getCall id)
    (haccepted : next.acceptedSequences terminalId = lane.acceptedSequences terminalId) :
    Follows id terminalId start next call :=
  ⟨hcall.trans h.found, h.terminal, h.hasty, haccepted.symm ▸ h.tentative⟩

theorem enqueue (h : Follows id terminalId start lane call) {command : IngestCommand}
    (hstep : lane.enqueue command = some next) : Follows id terminalId start next call := by
  rw [IngestLane.enqueue] at hstep
  split_ifs at hstep
  exact Option.some.inj hstep ▸ h.same rfl rfl

theorem step (h : Follows id terminalId start lane call) (hquiet : Undisturbed id terminalId lane a)
    (hstep : lane.step a = some next) : ∃ call', Follows id terminalId start next call' := by
  cases a with
  | call other otherTerminal submission waits =>
    simp only [IngestLane.step] at hstep
    split_ifs at hstep
    obtain rfl := Option.some.inj hstep
    refine ⟨call, h.same ?_ rfl⟩
    have hfound := h.found
    simp only [getCall, findRow] at hfound
    simp [getCall, findRow, List.find?_append, hfound]
  | advance other =>
    obtain ⟨moved, hmoved, hstep⟩ := Option.bind_eq_some_iff.mp hstep
    by_cases hown : other = id
    · subst hown
      obtain rfl := Option.some.inj (hmoved.symm.trans h.found)
      exact h.advance hstep
    · -- Another call moves on, which is one of another terminal.
      have hterminal : terminalId ≠ moved.terminalId := by
        rintro rfl
        obtain hsame | hwrites := hquiet
        · exact hown (IngestStep.advance.inj hsame)
        · exact hwrites (by simp [writes, hmoved])
      have hid : id ≠ moved.id := fun he => hown ((getCall_id hmoved).symm.trans he.symm)
      have frames := Frames.advance hstep
      exact ⟨call, h.same (frames.calls id hid) (frames.accepted terminalId hterminal)⟩
  | snapshot => exact ⟨call, h.enqueue hstep⟩
  | barrier => exact ⟨call, h.enqueue hstep⟩
  | receive =>
    simp only [IngestLane.step] at hstep
    split_ifs at hstep
    cases hqueue : lane.ingest with
    | nil => simp [hqueue] at hstep
    | cons command rest =>
      simp only [hqueue, Option.some.injEq] at hstep
      exact ⟨call, hstep ▸ h.same rfl rfl⟩
  | finish =>
    obtain ⟨command, -, rfl⟩ := Option.map_eq_some_iff.mp hstep
    exact ⟨call, h.same rfl rfl⟩
  | stop => exact ⟨call, Option.some.inj hstep ▸ h.same rfl rfl⟩
  | load otherTerminal last =>
    have hterminal : terminalId ≠ otherTerminal := by
      rintro rfl
      obtain hsame | hwrites := hquiet
      · cases hsame
      · exact hwrites rfl
    exact ⟨call, Option.some.inj hstep ▸ h.same rfl (Function.update_of_ne hterminal _ _)⟩
  | closes pending => exact ⟨call, Option.some.inj hstep ▸ h.same rfl rfl⟩

theorem run {as : List IngestStep} (h : Follows id terminalId start lane call)
    (run : machine.Path (Undisturbed id terminalId) lane as next) :
    ∃ call', Follows id terminalId start next call' :=
  run.invariant (I := fun lane => ∃ call, Follows id terminalId start lane call)
    (fun _ _ _ hI hquiet hstep => hI.elim fun _ h => h.step hquiet hstep) ⟨call, h⟩

end Follows

/-- In every interleaving of calls and owner steps the budget is kept. While the owner runs, the
reserved bytes are those of the queued commands, of the command in hand and of the calls between
reserving and sending, so none once these are gone; and a call that does not wait and is rejected
answers for no bytes and leaves the accepted sequence of its terminal where it found it, unless
another call or a load moved it meanwhile. -/
theorem budget_accounted {as : List IngestStep} (run : machine.Run initial as lane) :
    lane.ingestBytes ≤ ingestMaxBytes ∧
    (lane.running → lane.ingestBytes = lane.queuedBytes + lane.handlingBytes + lane.heldBytes) ∧
    (lane.running → lane.ingest = [] → lane.handling = none → (∀ call ∈ lane.calls, call.held = 0) →
      lane.ingestBytes = 0) ∧
    ∀ id call bs after left, lane.getCall id = some call → call.phase = .entered →
      call.waits = false → machine.Path (Undisturbed id call.terminalId) lane bs after →
      after.getCall id = some left → left.Rejected → left.held = 0 ∧
        after.acceptedSequences call.terminalId = lane.acceptedSequences call.terminalId := by
  have accounted : lane.Accounted := Accounted.initial.run run
  refine ⟨accounted.bound, accounted.total, ?_, ?_⟩
  · intro hrun hqueue hidle hcalls
    have hheld : lane.heldBytes = 0 := List.sum_eq_zero (by simpa using hcalls)
    rw [accounted.total hrun, hheld, queuedBytes, handlingBytes, hqueue, hidle]
    rfl
  · intro id call bs after left hfound hphase hwaits rest hleft hrejected
    obtain ⟨error, herror⟩ := hrejected
    have entered : Follows id call.terminalId (lane.acceptedSequences call.terminalId) lane call :=
      ⟨hfound, rfl, hwaits, by simp [Tentative, hphase]⟩
    obtain ⟨call', follows⟩ := entered.run rest
    obtain rfl := Option.some.inj (hleft.symm.trans follows.found)
    refine ⟨by rw [IngestCall.held, herror], ?_⟩
    simpa [Tentative, herror] using follows.tentative

/-- One append, which the owner has taken and not written yet. -/
def appendInHand : List IngestStep :=
  [.call 0 "t" (.append 1 [65]) false, .advance 0, .advance 0, .advance 0, .receive]

/-- While the owner writes the last command, the queue is empty and the bytes are still reserved. -/
theorem reserved_in_hand : ¬ ∀ as lane, machine.Run initial as lane →
    lane.ingestBytes = lane.queuedBytes ∧ (lane.ingest = [] → lane.ingestBytes = 0) := by
  intro h
  obtain ⟨lane, run, hbytes, hqueue⟩ : ∃ lane, machine.Run initial appendInHand lane ∧
      lane.ingestBytes = 1 ∧ lane.ingest = [] :=
    ⟨_, .cons trivial rfl (.cons trivial rfl (.cons trivial rfl (.cons trivial rfl
      (.cons trivial rfl (.nil _))))), by decide +kernel, by decide +kernel⟩
  have hzero := (h _ _ run).2 hqueue
  omega

/-- An append that is refused because its terminal is being closed. -/
def refusedAppend : List IngestStep := [.call 0 "t" (.append 1 [65]) false, .closes {"t"}]

theorem budget_accounted_refused : ∃ lane after, machine.Run initial refusedAppend lane ∧
    machine.Path (Undisturbed 0 "t") lane [.advance 0] after ∧ lane.ingestBytes ≤ ingestMaxBytes ∧
    after.acceptedSequences "t" = lane.acceptedSequences "t" := by
  have run : ∃ lane, machine.Run initial refusedAppend lane ∧ lane.getCall 0 =
      some ⟨0, "t", .append 1 [65], false, .entered⟩ ∧ ∃ after,
        machine.Path (Undisturbed 0 "t") lane [.advance 0] after ∧ ∃ left,
          after.getCall 0 = some left ∧ left.Rejected :=
    ⟨_, .cons trivial rfl (.cons trivial rfl (.nil _)), rfl, _, .cons (.inl rfl) rfl (.nil _), _, rfl,
      _, rfl⟩
  obtain ⟨lane, run, hcall, after, rest, left, hleft, hrejected⟩ := run
  obtain ⟨hbound, -, -, hrestored⟩ := budget_accounted run
  exact ⟨lane, after, run, rest, hbound,
    (hrestored 0 _ _ _ _ hcall rfl rfl rest hleft hrejected).2⟩

end IngestLane
end PiDeck.History
