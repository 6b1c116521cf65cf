import Mathlib
import PiDeck.Render.Builder
import PiDeck.Transition.Machine

/-! When the worker of a terminal posts an update. While the terminal is hidden, while its program
draws a frame of its own, and while no slot is free, it remembers what is to be posted later. -/
namespace PiDeck.Render
open PiDeck.Transition

/-- Whether updates wait for the program to end its frame (mode 2026). -/
inductive SyncState
  | inactive
  | suppressing
  | timedOut
  deriving DecidableEq

/-- A snapshot is restored and fitted, or it is rejected: before the core changed, or after. -/
inductive SnapshotOutcome
  | restored
  | undecoded
  | unfitted
  deriving DecidableEq

/-- A command of a terminal that was created, with what of it matters to the updates. -/
inductive TerminalWorkerCommand
  | writeBytes
  | writeReplayBytes
  | resetAndWriteBytes
  | restoreSnapshot (outcome : SnapshotOutcome)
  | recycleRenderUpdate (lease : Lease)
  | resize
  | setTheme
  | setPresentationState (visible focused : Bool)
  | setFontMetrics
  | key
  | paste
  | text
  | mouse
  | setSelection
  | clearSelection
  | selectAll
  | selectWord
  | selectLine
  | scroll
  | scrollToBottom
  | viewportPointToScreen
  | screenPointToViewport
  | requestFullFrame

/-- What the core answers: the mode that a call leaves, and the frame that it would build. A frame is
whole of itself when the dimensions changed or all rows are dirty. -/
structure CoreAnswer where
  synchronized : Bool
  frame : Frame
  whole : Bool

/-- An update that was put off. Where its timer is not armed, it waits for a slot. -/
structure PendingUpdate where
  command : ℕ
  forceFull : Bool
  armed : Bool
  deriving DecidableEq

/-- An update that was posted, and the state of the core that it shows. -/
structure PostedUpdate where
  command : ℕ
  full : Bool
  revision : ℕ
  deriving DecidableEq

/-- `RuntimeEntry`, with its core and its entry of `pendingUpdates`. Commands are known by their
sequence. -/
structure RuntimeEntry where
  /-- The state of the core, as how many calls may have changed it. -/
  revision : ℕ
  synchronized : Bool
  builder : Builder
  visible : Bool
  focused : Bool
  sync : SyncState
  /-- The command that armed the timer. -/
  syncTimer : Option ℕ
  pendingFull : Bool
  pendingCommand : Option ℕ
  pendingUpdate : Option PendingUpdate
  posted : List PostedUpdate
  /-- How many updates had been posted when a full one was last asked for. -/
  requested : Option ℕ
  deriving DecidableEq

namespace RuntimeEntry
variable (s : RuntimeEntry)

def cancelPendingUpdate : RuntimeEntry := { s with pendingUpdate := none }

def markSuppressed (command : ℕ) (forceFull : Bool) : RuntimeEntry :=
  { s.cancelPendingUpdate with
    pendingCommand := some command
    pendingFull := s.pendingFull || forceFull }

def armSynchronizedTimeout (command : ℕ) : RuntimeEntry :=
  { s with syncTimer := some (s.syncTimer.getD command) }

/-- The first frame is full. Where no slot is free, the core is not even asked. -/
def emitUpdate (command : ℕ) (forceFull : Bool) (answer : CoreAnswer) : RuntimeEntry × Bool :=
  if s.builder.hasFreeSlot then
    ({ s with
        builder := (s.builder.tryBuild answer.frame).1
        posted := s.posted ++
          [⟨command, forceFull || answer.whole || s.posted.isEmpty, s.revision⟩] }, true)
  else (s, false)

/-- An update that waits takes the command and is full if either asks for it. -/
def scheduleUpdate (command : ℕ) (forceFull : Bool) : RuntimeEntry :=
  match s.pendingUpdate with
  | some pending => { s with pendingUpdate := some ⟨command, pending.forceFull || forceFull, true⟩ }
  | none => { s with pendingUpdate := some ⟨command, forceFull, true⟩ }

def emitOrSchedule (command : ℕ) (forceFull : Bool) (answer : CoreAnswer) : RuntimeEntry :=
  let emitted := s.emitUpdate command forceFull answer
  if emitted.2 then emitted.1 else emitted.1.scheduleUpdate command forceFull

def requestPresentation (command : ℕ) (forceFull : Bool) (answer : CoreAnswer) : RuntimeEntry :=
  if s.visible = false then
    let marked := s.markSuppressed command true
    if s.synchronized then
      if s.sync = .inactive then { marked with sync := .suppressing }.armSynchronizedTimeout command
      else marked
    else { marked with
      syncTimer := if s.sync = .inactive then s.syncTimer else none
      sync := .inactive }
  else if s.synchronized then
    if s.sync = .suppressing then s.markSuppressed command forceFull
    else ({ s with sync := .suppressing }.armSynchronizedTimeout command).markSuppressed command forceFull
  else if s.sync = .suppressing then
    { s with
      syncTimer := none
      sync := .inactive
      pendingCommand := none
      pendingFull := false }.emitOrSchedule (s.pendingCommand.getD command)
        (s.pendingFull || forceFull) answer
  else
    { s with
      sync := .inactive
      pendingCommand := none
      pendingFull := false }.emitOrSchedule command (s.pendingFull || forceFull) answer

/-- The timer of a frame that the program did not end. -/
def synchronizedTimeout (command : ℕ) (answer : CoreAnswer) : RuntimeEntry :=
  let fired := { s with syncTimer := none }
  if s.sync ≠ .suppressing then fired
  else if s.visible = false then { fired with sync := .timedOut, pendingFull := true }
  else { fired with
    sync := .timedOut
    pendingCommand := none
    pendingFull := false }.emitOrSchedule (s.pendingCommand.getD command) s.pendingFull answer

/-- The timer of an update that was put off. -/
def updateTimeout (pending : PendingUpdate) (answer : CoreAnswer) : RuntimeEntry :=
  let taken := { s with pendingUpdate := none }
  if s.visible = false ∨ s.sync = .suppressing then
    { taken with
      pendingCommand := some pending.command
      pendingFull := s.pendingFull || pending.forceFull || !s.visible }
  else
    let emitted := taken.emitUpdate pending.command pending.forceFull answer
    if emitted.2 then emitted.1
    else { emitted.1 with pendingUpdate := some { pending with armed := false } }

/-- A call that may change the core. -/
def change (answer : CoreAnswer) : RuntimeEntry :=
  { s with revision := s.revision + 1, synchronized := answer.synchronized }

/-- A full update is asked for. -/
def request : RuntimeEntry := { s with requested := some s.posted.length }

/-- A slot that came back lets the update that waits for it go on. -/
def recycle (lease : Lease) : RuntimeEntry :=
  let reclaimed := s.builder.reclaim lease
  let next := { s with builder := reclaimed.1 }
  match s.pendingUpdate with
  | some pending =>
    if reclaimed.2 ∧ pending.armed = false ∧ s.visible = true ∧ s.sync ≠ .suppressing then
      { next with pendingUpdate := some { pending with armed := true } }
    else next
  | none => next

def setPresentationState (command : ℕ) (visible focused : Bool) (answer : CoreAnswer) : RuntimeEntry :=
  if s.visible = visible ∧ s.focused = focused then s
  else
    let next := { s with visible := visible, focused := focused }
    if visible = false then
      { next.cancelPendingUpdate with pendingCommand := some command, pendingFull := true }
    else if s.visible = false then next.requestPresentation command true answer
    else next

def process (sequence : ℕ) (answer : CoreAnswer) : TerminalWorkerCommand → RuntimeEntry
  | .writeBytes | .writeReplayBytes | .setSelection | .clearSelection | .selectAll | .selectWord
  | .selectLine | .scroll | .scrollToBottom =>
    (s.change answer).requestPresentation sequence false answer
  | .resetAndWriteBytes => (s.change answer).request.requestPresentation sequence true answer
  | .restoreSnapshot .restored =>
    (s.cancelPendingUpdate.change answer).request.requestPresentation sequence true answer
  | .restoreSnapshot .undecoded => s.cancelPendingUpdate
  | .restoreSnapshot .unfitted => s.cancelPendingUpdate.change answer
  | .recycleRenderUpdate lease => s.recycle lease
  | .resize | .setTheme =>
    (s.cancelPendingUpdate.change answer).request.requestPresentation sequence true answer
  | .setPresentationState visible focused => s.setPresentationState sequence visible focused answer
  | .requestFullFrame => s.request.requestPresentation sequence true answer
  | .setFontMetrics | .key | .paste | .text | .mouse | .viewportPointToScreen
  | .screenPointToViewport => s

/-- `create`: a terminal that is visible posts its first update at once. -/
def create (visible focused : Bool) (answer : CoreAnswer) : RuntimeEntry :=
  let entry : RuntimeEntry :=
    { revision := 0
      synchronized := false
      builder := .create 3
      visible := visible
      focused := focused
      sync := .inactive
      syncTimer := none
      pendingFull := !visible
      pendingCommand := if visible then none else some 0
      pendingUpdate := none
      posted := []
      requested := none }
  if visible then entry.emitOrSchedule 0 false answer else entry

end RuntimeEntry

/-- A command, a timer that fires, or the interval that trims the buffers. -/
inductive RuntimeAction
  | command (sequence : ℕ) (command : TerminalWorkerCommand) (answer : CoreAnswer)
  | synchronizedTimeout (answer : CoreAnswer)
  | updateTimeout (answer : CoreAnswer)
  | trimRenderBuffers (idle : Bool)

namespace RuntimeEntry
variable (s : RuntimeEntry)

def next : RuntimeAction → Option RuntimeEntry
  | .command sequence command answer => some (s.process sequence answer command)
  | .synchronizedTimeout answer => s.syncTimer.map fun command => s.synchronizedTimeout command answer
  | .updateTimeout answer =>
    match s.pendingUpdate with
    | some pending => if pending.armed then some (s.updateTimeout pending answer) else none
    | none => none
  | .trimRenderBuffers idle =>
    if s.pendingUpdate.isSome ∨ s.pendingCommand.isSome then some s
    else some { s with builder := s.builder.trimIdle idle }

def machine : Machine RuntimeEntry RuntimeAction := ⟨next⟩

/-- No full update that waits is given up for a frame of the program, and no snapshot is rejected
where that gives up an update or leaves the core changed with none to come. -/
def Unharmed (s : RuntimeEntry) : RuntimeAction → Prop
  | .command _ command answer =>
    match command with
    | .writeBytes | .writeReplayBytes | .setSelection | .clearSelection | .selectAll | .selectWord
    | .selectLine | .scroll | .scrollToBottom => s.visible = true → answer.synchronized = true →
      ∀ pending, s.pendingUpdate = some pending → pending.forceFull = false
    | .restoreSnapshot .undecoded => s.pendingUpdate = none
    | .restoreSnapshot .unfitted => s.visible = false ∨ s.sync = .suppressing
    | _ => True
  | _ => True

/-- A full update was posted since one was last asked for. -/
def FullPosted : Prop := ∀ count, s.requested = some count →
  ∃ update ∈ s.posted.drop count, update.full = true

/-- The last update that was posted shows the core as it is. -/
def Current : Prop := s.posted.getLast?.map PostedUpdate.revision = some s.revision

/-- Nothing is left to be done: no timer is armed and no slot is out. -/
structure Quiet : Prop where
  visible : s.visible = true
  syncTimer : s.syncTimer = none
  pendingUpdate : ∀ pending, s.pendingUpdate = some pending → pending.armed = false
  slots : s.builder.leased = []

end RuntimeEntry

end PiDeck.Render
