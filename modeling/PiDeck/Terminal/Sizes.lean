import Mathlib
import PiDeck.Terminal.Turns

/-! The three sizes of a terminal: of the PTY, of the authority, and the recorded one. A resize that
fails after its first call leaves them apart. -/
namespace PiDeck.Terminal
open PiDeck.Reactor PiDeck.Transition

namespace OwnedTerminal
variable {owner owner' : OwnedTerminal} {act : OwnerAct}

structure SizesAgree (owner : OwnedTerminal) : Prop where
  pty : owner.ptySize = owner.size
  authority : owner.authoritySize = owner.size

structure SameSizes (owner owner' : OwnedTerminal) : Prop where
  size : owner'.size = owner.size
  pty : owner'.ptySize = owner.ptySize
  authority : owner'.authoritySize = owner.authoritySize

/-- The resize that counts changes nothing, or fails at its first call, or succeeds and finds room
for the answers of the authority. -/
def Completes (owner : OwnedTerminal) (command : ResizeCommand) : Prop :=
  command.size.clamp = owner.size ∨
    match command.answer with
    | .ptyFails _ => True
    | .authorityFails _ | .overflows _ => False
    | .resized responses => owner.input.FitsAll responses

def ResizesComplete (owner : OwnedTerminal) : Batch → Prop
  | .resizes commands => ∀ command,
    latest (owner.runtime.authorizeResizes commands).2 = some command → owner.Completes command
  | _ => True

/-- Resizes complete, and no output changes the size of the authority. -/
def SizesKept (owner : OwnedTerminal) : OwnerAct → Prop
  | .batch commands _ => owner.Along ResizesComplete (Batch.group commands)
  | .ready _ readable _ => sizeRead owner.authoritySize readable = owner.authoritySize
  | _ => True

/-- After the resizes the sizes agree, and they are the old ones if every resize was refused. -/
def ResizesRightly (owner : OwnedTerminal) (commands : List ResizeCommand) : Prop :=
  (owner.handleResizes commands).1.SizesAgree ∧
    ((∀ reply ∈ (owner.handleResizes commands).2, ∃ error, reply = .refused error) →
      owner.SameSizes (owner.handleResizes commands).1)

/-- The call that counts is one of those that were authorized. -/
theorem done_of_latest
    {verdicts : List (ResizeCommand × Except TerminalError (Option RuntimeTerminalLease))}
    {command : ResizeCommand} (h : latest verdicts = some command) :
    ∃ lease, .done lease ∈ verdicts.map (resizeReply (.ok ())) := by
  obtain ⟨verdict, hverdict, rfl⟩ := Option.map_eq_some_iff.mp h
  obtain ⟨hmem, hok⟩ := List.mem_filter.mp (List.mem_of_getLast? hverdict)
  cases hresult : verdict.2 with
  | error error => simp [hresult, Except.toBool] at hok
  | ok lease => exact ⟨lease, List.mem_map.mpr ⟨verdict, hmem, by simp [resizeReply, hresult]⟩⟩

/-- `resize_terminal` on sizes that agree. -/
theorem resizeTerminal_iff (h : owner.SizesAgree) (command : ResizeCommand) :
    ((owner.resizeTerminal command.size command.answer).1.SizesAgree ↔ owner.Completes command) ∧
      ((owner.resizeTerminal command.size command.answer).1.SizesAgree →
        owner.SameSizes (owner.resizeTerminal command.size command.answer).1 ∨
          (owner.resizeTerminal command.size command.answer).2 = .ok ()) := by
  unfold resizeTerminal Completes
  dsimp only
  cases command.answer with
  | ptyFails error => exact ⟨iff_of_true h (.inr trivial), fun _ => .inl ⟨rfl, rfl, rfl⟩⟩
  | authorityFails error =>
    simp only [or_false]
    refine ⟨⟨fun hagree => hagree.pty, fun hsame => ⟨hsame, h.authority⟩⟩, ?_⟩
    exact fun hagree => .inl ⟨rfl, hagree.pty.trans h.pty.symm, rfl⟩
  | overflows error =>
    simp only [or_false]
    refine ⟨⟨fun hagree => hagree.pty, fun hsame => ⟨hsame, hsame⟩⟩, ?_⟩
    exact fun hagree => .inl ⟨rfl, hagree.pty.trans h.pty.symm,
      hagree.authority.trans h.authority.symm⟩
  | resized responses =>
    have hroom := owner.input.enqueueAll_iff responses
    by_cases hqueued : (owner.input.enqueueAll responses).2 = true
    · simp only [if_pos hqueued]
      exact ⟨iff_of_true ⟨rfl, rfl⟩ (.inr (hroom.mp hqueued)), fun _ => .inr trivial⟩
    · have hfull : ¬owner.input.FitsAll responses := fun hall => hqueued (hroom.mpr hall)
      simp only [if_neg hqueued, hfull, or_false]
      refine ⟨⟨fun hagree => hagree.pty, fun hsame => ⟨hsame, hsame⟩⟩, ?_⟩
      exact fun hagree => .inl ⟨rfl, hagree.pty.trans h.pty.symm,
        hagree.authority.trans h.authority.symm⟩

/-- A group of resizes does right exactly if the one that counts completes. -/
theorem resizesRightly_iff (h : owner.SizesAgree) (commands : List ResizeCommand) :
    owner.ResizesRightly commands ↔ owner.ResizesComplete (.resizes commands) := by
  unfold ResizesRightly ResizesComplete handleResizes
  dsimp only
  cases hlatest : latest (owner.runtime.authorizeResizes commands).2 with
  | none => exact iff_of_true ⟨⟨h.pty, h.authority⟩, fun _ => ⟨rfl, rfl, rfl⟩⟩ nofun
  | some command =>
    dsimp only
    have hstart : ({ owner with
        runtime := (owner.runtime.authorizeResizes commands).1
        log := owner.log ++ (owner.runtime.authorizeResizes commands).2.filterMap resizeEvent } :
        OwnedTerminal).SizesAgree := ⟨h.pty, h.authority⟩
    obtain ⟨hiff, hsame⟩ := resizeTerminal_iff hstart command
    constructor
    · rintro ⟨hagree, -⟩ _ ⟨⟩
      exact hiff.mp hagree
    · intro hcompletes
      have hagree := hiff.mpr (hcompletes command rfl)
      refine ⟨hagree, fun hrefused => ?_⟩
      rcases hsame hagree with hsame | hok
      · exact ⟨hsame.size, hsame.pty, hsame.authority⟩
      · obtain ⟨lease, hdone⟩ := done_of_latest hlatest
        rw [hok] at hrefused
        obtain ⟨error, herror⟩ := hrefused _ hdone
        cases herror

theorem SizesAgree.handleBatch {batch : Batch} {replies : List Reply} {goesOn : Bool}
    (h : owner.SizesAgree) (hguard : owner.ResizesComplete batch)
    (hbatch : owner.handleBatch batch = some (owner', replies, goesOn)) : owner'.SizesAgree := by
  cases batch with
  | writes commands =>
    cases hbatch
    exact ⟨h.pty, h.authority⟩
  | resizes commands =>
    cases hbatch
    exact ((resizesRightly_iff h commands).mpr hguard).1
  | single command =>
    obtain ⟨⟨handled, more⟩, hhandled, heq⟩ := Option.map_eq_some_iff.mp hbatch
    cases heq
    rw [handleTerminalCommand_some hhandled]
    exact ⟨h.pty, h.authority⟩

theorem SizesAgree.step (h : owner.SizesAgree) (hguard : owner.SizesKept act)
    (hstep : owner.step act = some owner') : owner'.SizesAgree := by
  cases act with
  | batch commands pollFails =>
    simp only [OwnedTerminal.step] at hstep
    split at hstep
    · cases hstep
    · exact batch_invariant (fun _ _ _ _ _ ho hg hb => ho.handleBatch hg hb)
        (fun _ ho => ⟨ho.pty, ho.authority⟩) (fun _ _ ho => ⟨ho.pty, ho.authority⟩) hguard hstep h
  | ready writable readable pollFails =>
    simp only [OwnedTerminal.step] at hstep
    split at hstep
    · cases hstep
    · obtain ⟨haside, hread⟩ := aside_ready hstep
      refine ⟨?_, ?_⟩
      · rw [haside.ptySize, haside.size, h.pty]
      · rw [hread, hguard, haside.size, h.authority]
  | releaseConnection connectionId now draw =>
    simp only [OwnedTerminal.step] at hstep
    split at hstep
    · cases hstep
    · cases hstep
      exact ⟨h.pty, h.authority⟩
  | restart terminalEpoch size =>
    simp only [OwnedTerminal.step] at hstep
    split at hstep
    · cases hstep
      exact ⟨rfl, rfl⟩
    · cases hstep

/-- In every run in which resizes complete and output does not resize the authority, the three sizes
agree; the next resizes keep it so, and change nothing if they are refused, exactly if the one that
counts completes. -/
theorem sizes_agree {id terminalEpoch : String} {size : Size} {acts : List OwnerAct}
    (h : Machine.Path machine SizesKept (launched id terminalEpoch size) acts owner) :
    owner.SizesAgree ∧ ∀ commands,
      (owner.ResizesRightly commands ↔ owner.ResizesComplete (.resizes commands)) := by
  have hagree : owner.SizesAgree :=
    h.invariant (I := SizesAgree) (fun _ _ _ ho hguard hstep => ho.step hguard hstep) ⟨rfl, rfl⟩
  exact ⟨hagree, resizesRightly_iff hagree⟩

/-- Two resizes of one batch, of which the last one counts. -/
theorem sizes_agree_resized : ∃ owner, Machine.Path machine SizesKept
      (launched "terminal" "epoch" ⟨80, 24⟩)
      [.batch [.resize (.resize ⟨100, 40⟩ (.ptyFails "")),
        .resize (.resize ⟨0, 2000⟩ (.resized [[1]]))] false] owner ∧
    owner.size = ⟨1, 1000⟩ ∧ owner.SizesAgree := by
  have hpath : ∃ owner, Machine.Path machine SizesKept (launched "terminal" "epoch" ⟨80, 24⟩)
      [.batch [.resize (.resize ⟨100, 40⟩ (.ptyFails "")),
        .resize (.resize ⟨0, 2000⟩ (.resized [[1]]))] false] owner ∧ owner.size = ⟨1, 1000⟩ := by
    refine ⟨_, .cons ⟨?_, fun _ _ _ => trivial⟩ rfl (.nil _), by decide +kernel⟩
    rintro command ⟨⟩
    exact .inr (.inr (by decide +kernel))
  obtain ⟨owner, hpath, hsize⟩ := hpath
  exact ⟨owner, hpath, hsize, (sizes_agree hpath).1⟩

/-- The authority cannot hand out its answer; the resize is refused and two of the sizes are new. -/
theorem sizes_apart : ∃ owner,
    machine.Run (launched "terminal" "epoch" ⟨80, 24⟩)
      [.batch [.resize (.resize ⟨100, 40⟩ (.overflows "overflow"))] false] owner ∧
    ((launched "terminal" "epoch" ⟨80, 24⟩).handleResizes
      [.resize ⟨100, 40⟩ (.overflows "overflow")]).2 =
        [.refused (.runtime "terminal runtime failure: overflow")] ∧
    owner.ptySize = ⟨100, 40⟩ ∧ owner.authoritySize = ⟨100, 40⟩ ∧ owner.size = ⟨80, 24⟩ :=
  ⟨_, .cons trivial rfl (.nil _), by decide +kernel, by decide +kernel, by decide +kernel,
    by decide +kernel⟩

end OwnedTerminal
end PiDeck.Terminal
