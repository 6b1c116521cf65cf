import Mathlib
import PiDeck.Terminal.Owner
import PiDeck.Terminal.InputQueue

/-! The owner of one terminal with its PTY and its parser, the authority. Adjacent writes of a batch
enter the input queue together, and of adjacent resizes the last one counts. What the PTY, the
authority and the poller answer are arguments. -/
namespace PiDeck.Terminal
open PiDeck.Reactor PiDeck.Transition

def ownerCommandBatchMessages : ℕ := 64
def ownerWriteBatchBytes : ℕ := 256 * 1024

structure Size where
  cols : ℕ
  rows : ℕ
  deriving DecidableEq, Repr

def Size.clamp (size : Size) : Size := ⟨max 1 (min size.cols 1000), max 1 (min size.rows 1000)⟩

inductive OwnerError
  | terminal (error : TerminalError)
  | runtime (message : String)
  deriving DecidableEq

def inputQueueFull : String := "terminal input queue is full"

/-- A runtime error is passed on by its text. -/
def OwnerError.again (message : String) : OwnerError :=
  .runtime ("terminal runtime failure: " ++ message)

inductive Reply
  | done (lease : Option RuntimeTerminalLease)
  | refused (error : OwnerError)
  | answered
  deriving DecidableEq

/-- The answer to a write that the input queue has no room for. -/
def Reply.queueFull : Reply := .refused (.again inputQueueFull)

/-- The two calls of a resize, of the PTY and of the authority. `overflows` is an authority that has
been resized and cannot hand out its answers. -/
inductive ResizeAnswer
  | ptyFails (error : String)
  | authorityFails (error : String)
  | overflows (error : String)
  | resized (responses : List Bytes)
  deriving DecidableEq, Repr

inductive WriteCommand
  | write (data : Bytes)
  | authorizeAndWrite (request : AuthorizeRequest) (data : Bytes)
  deriving DecidableEq

inductive ResizeCommand
  | resize (size : Size) (answer : ResizeAnswer)
  | authorizeAndResize (request : AuthorizeRequest) (size : Size) (answer : ResizeAnswer)
  deriving DecidableEq

inductive OwnerCommand
  | write (command : WriteCommand)
  | resize (command : ResizeCommand)
  | other (command : TerminalCommand)

/-- Commands that are handled together. -/
inductive Batch
  | writes (commands : List WriteCommand)
  | resizes (commands : List ResizeCommand)
  | single (command : TerminalCommand)

def WriteCommand.data : WriteCommand → Bytes
  | .write data => data
  | .authorizeAndWrite _ data => data

def ResizeCommand.size : ResizeCommand → Size
  | .resize size _ => size
  | .authorizeAndResize _ size _ => size

def ResizeCommand.clientId : ResizeCommand → Option String
  | .resize _ _ => none
  | .authorizeAndResize request _ _ => some request.connectionId

def ResizeCommand.answer : ResizeCommand → ResizeAnswer
  | .resize _ answer => answer
  | .authorizeAndResize _ _ answer => answer

def batchBytes (commands : List WriteCommand) : ℕ :=
  (commands.map fun command => command.data.length).sum

namespace Batch

def start : OwnerCommand → Batch
  | .write command => .writes [command]
  | .resize command => .resizes [command]
  | .other command => .single command

/-- The batch with the next command, if that is handled together with it. -/
def add : Batch → OwnerCommand → Option Batch
  | .writes commands, .write next =>
    if commands.length < ownerCommandBatchMessages ∧
        ¬(0 < batchBytes commands ∧
          ownerWriteBatchBytes < batchBytes commands + next.data.length) then
      some (.writes (commands ++ [next]))
    else none
  | .resizes commands, .resize next =>
    if commands.length < ownerCommandBatchMessages then some (.resizes (commands ++ [next]))
    else none
  | _, _ => none

def groupInto : Batch → List OwnerCommand → List Batch
  | batch, [] => [batch]
  | batch, command :: commands =>
    match batch.add command with
    | some batch => groupInto batch commands
    | none => batch :: groupInto (start command) commands

def group : List OwnerCommand → List Batch
  | [] => []
  | command :: commands => groupInto (start command) commands

end Batch

/-- What the log keeps of the clients of a terminal. -/
inductive ClientEvent
  | attached (clientId : String)
  | ready (clientId : String)
  | detached (clientId : String)
  | released (clientId : String)
  | authorized (clientId : String)
  | restarted
  deriving DecidableEq, Repr

/-- Why the output of a terminal was closed. -/
inductive Cause
  | writeFailed
  | endOfFile
  | readFailed
  | parserFailed
  | inputQueueFull
  | pollFailed
  deriving DecidableEq, Repr

/-- `closed` is empty as long as the output is open. `responses` are the answers of the authority
that have been queued, `handed` is what the PTY has taken, `log` is what happened to the clients. -/
structure OwnedTerminal where
  runtime : TerminalRuntime
  input : InputQueue
  size : Size
  ptySize : Size
  authoritySize : Size
  closed : List Cause
  childKilled : Bool
  removed : Bool
  responses : List Bytes
  handed : List (Origin × UInt8)
  log : List ClientEvent

/-- What the authority makes of a chunk of output; the output may change the columns it has. -/
structure OutputEffects where
  ptyResponses : List Bytes
  resized : Option Size
  deriving DecidableEq, Repr

inductive ReadAnswer
  | bytes (data : Bytes) (effects : Option OutputEffects)
  | endOfFile
  | retry
  | failed
  deriving DecidableEq, Repr

inductive OwnerAct
  | batch (commands : List OwnerCommand) (pollFails : Bool)
  | ready (writable : Option (List WriteOutcome)) (readable : Option ReadAnswer)
      (pollFails : Bool)
  | releaseConnection (connectionId : String) (now : ℤ) (draw : String)
  | restart (terminalEpoch : String) (size : Size)

/-- A write of a client, or of the host itself, with what its authorization said. -/
structure Verdict where
  clientId : Option String
  data : Bytes
  result : Except TerminalError (Option RuntimeTerminalLease)

namespace Verdict

/-- The bytes of the write, if it is authorized. -/
def authorized (verdict : Verdict) : Bytes :=
  match verdict.result with
  | .ok _ => verdict.data
  | .error _ => []

/-- An authorized input of a client. -/
def event (verdict : Verdict) : Option ClientEvent :=
  match verdict.result with
  | .ok _ => verdict.clientId.map .authorized
  | .error _ => none

def reply (room : Bool) (verdict : Verdict) : Reply :=
  match verdict.result with
  | .error error => .refused (.terminal error)
  | .ok lease => if room then .done lease else .queueFull

end Verdict

namespace TerminalRuntime

def authorizeWrite (runtime : TerminalRuntime) : WriteCommand → TerminalRuntime × Verdict
  | .write data => (runtime, ⟨none, data, .ok none⟩)
  | .authorizeAndWrite request data =>
    let authorized := runtime.authorizeAndWrite request
    (authorized.1, ⟨some request.connectionId, data, authorized.2.map some⟩)

def authorizeWrites (runtime : TerminalRuntime) :
    List WriteCommand → TerminalRuntime × List Verdict
  | [] => (runtime, [])
  | command :: commands =>
    let first := runtime.authorizeWrite command
    let rest := first.1.authorizeWrites commands
    (rest.1, first.2 :: rest.2)

def authorizeResizeCommand (runtime : TerminalRuntime) :
    ResizeCommand → TerminalRuntime × Except TerminalError (Option RuntimeTerminalLease)
  | .resize _ _ => (runtime, .ok none)
  | .authorizeAndResize request _ _ =>
    let authorized := runtime.authorizeAndResize request
    (authorized.1, authorized.2.map some)

def authorizeResizes (runtime : TerminalRuntime) : List ResizeCommand →
    TerminalRuntime × List (ResizeCommand × Except TerminalError (Option RuntimeTerminalLease))
  | [] => (runtime, [])
  | command :: commands =>
    let first := runtime.authorizeResizeCommand command
    let rest := first.1.authorizeResizes commands
    (rest.1, (command, first.2) :: rest.2)

end TerminalRuntime

/-- Answers that go to the end of the queue, until one finds no room. -/
def InputQueue.enqueueAll (queue : InputQueue) : List Bytes → InputQueue × Bool
  | [] => (queue, true)
  | response :: responses =>
    match queue.enqueue response .input false with
    | some queue => queue.enqueueAll responses
    | none => (queue, false)

namespace OwnedTerminal

/-- What is written together. -/
def scratch (verdicts : List Verdict) : Bytes := verdicts.flatMap Verdict.authorized

/-- The queue with the bytes of the authorized writes, if there is room for all of them. -/
def enqueueScratch (input : InputQueue) (verdicts : List Verdict) : Option InputQueue :=
  if scratch verdicts = [] then some input else input.enqueue (scratch verdicts) .input false

def handleWrites (owner : OwnedTerminal) (commands : List WriteCommand) :
    OwnedTerminal × List Reply :=
  let authorized := owner.runtime.authorizeWrites commands
  let queued := enqueueScratch owner.input authorized.2
  ({ owner with
    runtime := authorized.1
    input := queued.getD owner.input
    log := owner.log ++ authorized.2.filterMap Verdict.event }, authorized.2.map (Verdict.reply queued.isSome))

/-- `resize_terminal`: the PTY, the authority, the answers of the authority, and then the record. -/
def resizeTerminal (owner : OwnedTerminal) (size : Size) (answer : ResizeAnswer) :
    OwnedTerminal × Except String Unit :=
  let size := size.clamp
  match answer with
  | .ptyFails error => (owner, .error error)
  | .authorityFails error => ({ owner with ptySize := size }, .error error)
  | .overflows error => ({ owner with ptySize := size, authoritySize := size }, .error error)
  | .resized responses =>
    let queued := owner.input.enqueueAll responses
    let resized := { owner with input := queued.1, ptySize := size, authoritySize := size }
    if queued.2 then ({ resized with size := size }, .ok ())
    else (resized, .error inputQueueFull)

/-- The last resize that is authorized. -/
def latest (verdicts : List (ResizeCommand × Except TerminalError (Option RuntimeTerminalLease))) :
    Option ResizeCommand :=
  (verdicts.filter fun verdict => verdict.2.toBool).getLast?.map Prod.fst

/-- An authorized resize of a client. -/
def resizeEvent
    (verdict : ResizeCommand × Except TerminalError (Option RuntimeTerminalLease)) :
    Option ClientEvent :=
  match verdict.2 with
  | .ok _ => verdict.1.clientId.map .authorized
  | .error _ => none

def resizeReply (outcome : Except String Unit)
    (verdict : ResizeCommand × Except TerminalError (Option RuntimeTerminalLease)) : Reply :=
  match verdict.2, outcome with
  | .error error, _ => .refused (.terminal error)
  | .ok lease, .ok () => .done lease
  | .ok _, .error message => .refused (.again message)

def handleResizes (owner : OwnedTerminal) (commands : List ResizeCommand) :
    OwnedTerminal × List Reply :=
  let authorized := owner.runtime.authorizeResizes commands
  let owner := { owner with
    runtime := authorized.1
    log := owner.log ++ authorized.2.filterMap resizeEvent }
  match latest authorized.2 with
  | none => (owner, authorized.2.map (resizeReply (.ok ())))
  | some command =>
    let resized := owner.resizeTerminal command.size command.answer
    (resized.1, authorized.2.map (resizeReply resized.2))

/-- What a command of a client leaves in the log. -/
def logged (runtime : TerminalRuntime) : TerminalCommand → List ClientEvent
  | .attach clientId => [.attached clientId]
  | .markReplayReady clientId =>
    if clientId ∈ runtime.attachedClients then [.ready clientId] else []
  | .detach clientId => [.detached clientId]
  | _ => []

/-- `handle_terminal_command`, and whether the terminal goes on. Writes and resizes do not get here,
and connections are released by the reactor. -/
def handleTerminalCommand (owner : OwnedTerminal) (command : TerminalCommand) :
    Option (OwnedTerminal × Bool) :=
  match command with
  | .authorizeAndWrite _ | .authorizeAndResize _ | .releaseConnection _ _ _ => none
  | command =>
    let runtime := owner.runtime.handle command
    some ({ owner with
      runtime := runtime
      log := owner.log ++ logged owner.runtime command }, !runtime.disposed)

def handleBatch (owner : OwnedTerminal) : Batch → Option (OwnedTerminal × List Reply × Bool)
  | .writes commands =>
    let handled := owner.handleWrites commands
    some (handled.1, handled.2, true)
  | .resizes commands =>
    let handled := owner.handleResizes commands
    some (handled.1, handled.2, true)
  | .single command =>
    (owner.handleTerminalCommand command).map fun handled => (handled.1, [.answered], handled.2)

def handleBatches (owner : OwnedTerminal) : List Batch → Option (OwnedTerminal × List Reply × Bool)
  | [] => some (owner, [], true)
  | batch :: batches =>
    (owner.handleBatch batch).bind fun (owner, replies, goesOn) =>
      if goesOn then
        (owner.handleBatches batches).map fun (owner, more, goesOn) =>
          (owner, replies ++ more, goesOn)
      else some (owner, replies, false)

/-- `handle_terminal_command_batch`: the replies are in the order of the commands. -/
def handleTerminalCommandBatch (owner : OwnedTerminal) (commands : List OwnerCommand) :
    Option (OwnedTerminal × List Reply × Bool) :=
  owner.handleBatches (Batch.group commands)

/-- The output is closed and the child killed. -/
def fail (owner : OwnedTerminal) (cause : Cause) : OwnedTerminal :=
  { owner with closed := owner.closed ++ [cause], childKilled := true }

def close (owner : OwnedTerminal) (cause : Cause) : OwnedTerminal :=
  { owner with closed := owner.closed ++ [cause] }

def isOpen (owner : OwnedTerminal) : Bool := owner.closed.isEmpty

/-- The poller is told what to wait for, as long as the output is open. -/
def setRuntimeInterest (owner : OwnedTerminal) (pollFails : Bool) : OwnedTerminal :=
  if owner.isOpen && pollFails then owner.fail .pollFailed else owner

def flushInput (owner : OwnedTerminal) : Option (List WriteOutcome) → Option OwnedTerminal
  | none => some owner
  | some outcomes =>
    (owner.input.flush outcomes reactorWriteBudgetPerTurn).map fun flushed =>
      let taken := { owner with
        input := flushed.queue
        handed := owner.handed ++ flushed.handed }
      if flushed.failed then taken.fail .writeFailed else taken

/-- The answers of the authority to one chunk of output, until one finds no room. -/
def enqueueResponses (owner : OwnedTerminal) : List Bytes → OwnedTerminal × Bool
  | [] => (owner, true)
  | response :: responses =>
    match owner.input.enqueue response (.response owner.responses.length) true with
    | some input =>
      { owner with input := input, responses := owner.responses ++ [response] }.enqueueResponses
        responses
    | none => (owner, false)

/-- `process_terminal_output`, with the end of the output if it fails. -/
def processTerminalOutput (owner : OwnedTerminal) : Option OutputEffects → OwnedTerminal
  | none => owner.fail .parserFailed
  | some effects =>
    let owner := { owner with authoritySize := effects.resized.getD owner.authoritySize }
    let queued := owner.enqueueResponses effects.ptyResponses
    if queued.2 then queued.1 else queued.1.fail .inputQueueFull

/-- `drain_runtime_output` reads once. -/
def drainOutput (owner : OwnedTerminal) : Option ReadAnswer → OwnedTerminal
  | none | some .retry => owner
  | some .endOfFile => owner.close .endOfFile
  | some .failed => owner.close .readFailed
  | some (.bytes _ effects) => owner.processTerminalOutput effects

def ready (owner : OwnedTerminal) (writable : Option (List WriteOutcome))
    (readable : Option ReadAnswer) (pollFails : Bool) : Option OwnedTerminal :=
  if owner.isOpen then
    (owner.flushInput writable).map fun flushed =>
      (flushed.drainOutput readable).setRuntimeInterest pollFails
  else none

def batch (owner : OwnedTerminal) (commands : List OwnerCommand) (pollFails : Bool) :
    Option OwnedTerminal :=
  (owner.handleTerminalCommandBatch commands).map fun (handled, _, goesOn) =>
    if goesOn then
      let polled := handled.setRuntimeInterest pollFails
      { polled with removed := handled.isOpen && pollFails }
    else { handled with removed := true }

def releaseConnection (owner : OwnedTerminal) (connectionId : String) (now : ℤ) (draw : String) :
    OwnedTerminal :=
  { owner with
    runtime := owner.runtime.releaseConnection connectionId now draw
    log := owner.log ++ [.released connectionId] }

/-- A new runtime, with a new PTY of the given size. -/
def launched (id terminalEpoch : String) (size : Size) : OwnedTerminal where
  runtime := TerminalRuntime.initializeRuntime id terminalEpoch
  input := .empty
  size := size.clamp
  ptySize := size.clamp
  authoritySize := size.clamp
  closed := []
  childKilled := false
  removed := false
  responses := []
  handed := []
  log := []

/-- A terminal that is gone is launched again. -/
def restart (owner : OwnedTerminal) (terminalEpoch : String) (size : Size) : OwnedTerminal :=
  { launched owner.runtime.id terminalEpoch size with log := owner.log ++ [.restarted] }

def step (owner : OwnedTerminal) : OwnerAct → Option OwnedTerminal
  | .batch commands pollFails => if owner.removed then none else owner.batch commands pollFails
  | .ready writable readable pollFails =>
    if owner.removed then none else owner.ready writable readable pollFails
  | .releaseConnection connectionId now draw =>
    if owner.removed then none else some (owner.releaseConnection connectionId now draw)
  | .restart terminalEpoch size =>
    if owner.removed then some (owner.restart terminalEpoch size) else none

def machine : Machine OwnedTerminal OwnerAct := ⟨step⟩

end OwnedTerminal
end PiDeck.Terminal
