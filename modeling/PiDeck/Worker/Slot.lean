import Mathlib
import PiDeck.Worker.Flight

/-! A slot of the pool: the cores of the terminals assigned to it, the scheduler in front of its
worker, the worker, and what travels between them. The messages to the worker and from it arrive in
order. Of the messages from the worker those are modelled that the pool or the core acts on; what
the core only hands on (output, render updates, selections) is left out, and an update it gives
back of its own accord is a call like one of the surface. The slots of a pool share nothing. -/
namespace PiDeck.Worker
open PiDeck.Collections PiDeck.Transition

/-- Finite numbers; the core refuses any other with an exception and is left as it was. -/
structure Geometry where
  cols : ℚ
  rows : ℚ
  cellWidth : ℚ
  cellHeight : ℚ
  deriving DecidableEq

structure Settings (θ : Type*) where
  geometry : Geometry
  theme : θ
  presentation : WorkerPriority
  deriving DecidableEq

/-- `other` is a command that changes none of the settings, with the bytes it counts. -/
inductive Payload (θ : Type*)
  | create (settings : Settings θ)
  | resize (geometry : Geometry)
  | setTheme (theme : θ)
  | setPresentationState (presentation : WorkerPriority)
  | dispose
  | other (bytes : ℕ)
  deriving DecidableEq

/-- The key of a command, `generation:sequence`. -/
abbrev CommandKey := ℕ ×ₗ ℕ

structure Command (θ : Type*) where
  generation : ℕ
  sequence : ℕ
  payload : Payload θ
  deriving DecidableEq

/-- A `create` under way. -/
structure Creation (θ : Type*) where
  generation : ℕ
  sequence : ℕ
  settings : Settings θ
  deriving DecidableEq

inductive EventKind
  | ready
  | completed
  | recoverableError
  | fatalError
  deriving DecidableEq, Repr

structure Event where
  generation : ℕ
  sequence : ℕ
  kind : EventKind
  deriving DecidableEq

structure RuntimeEntry (θ : Type*) where
  generation : ℕ
  settings : Settings θ
  deriving DecidableEq

/-- The worker with its port in both directions. -/
structure TerminalWorker (θ : Type*) where
  inbox : List (String × Command θ)
  creating : String → List (Creation θ)
  runtimes : String → Option (RuntimeEntry θ)
  outbox : List (String × Event)

inductive ReadyListener
  | creation
  | recovery
  deriving DecidableEq, Repr

/-- `requested` is not a field of the source: the settings last asked for, by the options or by a
call. -/
structure WorkerTerminalCore (θ : Type*) where
  options : Settings θ
  sequence : ℕ
  generation : ℕ
  lastEventSequence : ℕ
  presentation : WorkerPriority
  disposed : Bool
  recovering : Bool
  initializationReject : Bool
  readyListener : Option ReadyListener
  requested : Settings θ
  deriving DecidableEq

def WorkerTerminalCore.new {θ : Type*} (options : Settings θ) : WorkerTerminalCore θ where
  options
  sequence := 0
  generation := 1
  lastEventSequence := 0
  presentation := options.presentation
  disposed := false
  recovering := false
  initializationReject := true
  readyListener := some .creation
  requested := options

/-- `cores` holds the released ones too; the map `terminals` has those that are not disposed, in
this order. -/
structure Slot (θ : Type*) where
  scheduler : FairWorkerScheduler CommandKey (Command θ)
  priorities : String → Option WorkerPriority
  worker : TerminalWorker θ
  cores : List (String × WorkerTerminalCore θ)

variable {θ : Type*}

def Command.key (command : Command θ) : CommandKey := toLex (command.generation, command.sequence)

def Creation.key (creation : Creation θ) : CommandKey :=
  toLex (creation.generation, creation.sequence)

def Event.key (event : Event) : CommandKey := toLex (event.generation, event.sequence)

def Creation.command (creation : Creation θ) : Command θ :=
  ⟨creation.generation, creation.sequence, .create creation.settings⟩

def EventKind.failed : EventKind → Bool
  | recoverableError | fatalError => true
  | ready | completed => false

namespace Payload

def workerCommandBytes : Payload θ → ℕ
  | other bytes => bytes
  | _ => 256

/-- What a command makes of the settings. -/
def apply (settings : Settings θ) : Payload θ → Settings θ
  | create settings => settings
  | resize geometry => { settings with geometry }
  | setTheme theme => { settings with theme }
  | setPresentationState presentation => { settings with presentation }
  | dispose | other _ => settings

/-- `process`, as far as it changes the entry or removes it. -/
def process (payload : Payload θ) (entry : RuntimeEntry θ) : Option (RuntimeEntry θ) :=
  match payload with
  | dispose => none
  | payload => some { entry with settings := payload.apply entry.settings }

end Payload

/-- How `process` ends: a command that throws may have changed the entry before. -/
inductive Outcome
  | completed
  | threw (changed : Bool)
  deriving DecidableEq, Repr

/-- How `create` ends: it may also throw after it has reported to be ready. -/
inductive CreateOutcome
  | ready
  | readyThenFatal
  | fatal
  deriving DecidableEq, Repr

namespace TerminalWorker

def fresh : TerminalWorker θ := ⟨[], fun _ => [], fun _ => none, []⟩

def post (w : TerminalWorker θ) (terminalId : String) (generation sequence : ℕ)
    (kinds : List EventKind) : TerminalWorker θ :=
  { w with outbox := w.outbox ++ kinds.map fun kind => (terminalId, ⟨generation, sequence, kind⟩) }

/-- The message listener: a create goes on beside it, any other command runs through. -/
def handle (w : TerminalWorker θ) (outcome : Outcome) : Option (TerminalWorker θ) :=
  match w.inbox with
  | [] => none
  | (id, command) :: inbox =>
    let w := { w with inbox }
    match command.payload with
    | .create settings =>
      let creation : Creation θ := ⟨command.generation, command.sequence, settings⟩
      some { w with creating := Function.update w.creating id (w.creating id ++ [creation]) }
    | payload =>
      match w.runtimes id with
      | none => some w
      | some entry =>
        if entry.generation ≠ command.generation then some w
        else
          let changed := { w with runtimes := Function.update w.runtimes id (payload.process entry) }
          match outcome with
          | .completed => some (changed.post id command.generation command.sequence [.completed])
          | .threw applied =>
            some ((if applied then changed else w).post id command.generation command.sequence
              [.recoverableError])

/-- A create under way ends. -/
def created (w : TerminalWorker θ) (id : String) (index : ℕ) (outcome : CreateOutcome) :
    Option (TerminalWorker θ) :=
  match (w.creating id)[index]? with
  | none => none
  | some creation =>
    let w := { w with creating := Function.update w.creating id ((w.creating id).eraseIdx index) }
    let entry : RuntimeEntry θ := ⟨creation.generation, creation.settings⟩
    let running := { w with runtimes := Function.update w.runtimes id (some entry) }
    match outcome with
    | .ready => some (running.post id creation.generation creation.sequence [.ready])
    | .readyThenFatal =>
      some (running.post id creation.generation creation.sequence [.ready, .fatalError])
    | .fatal => some (w.post id creation.generation creation.sequence [.fatalError])

end TerminalWorker

/-- A call of the surface. A `dispose` gives back the updates that wait, by their bytes. -/
inductive SurfaceCall (θ : Type*)
  | resize (geometry : Geometry)
  | setTheme (theme : θ)
  | setPresentationState (presentation : WorkerPriority)
  | other (bytes : ℕ)
  | dispose (updates : List ℕ)

namespace Slot

def start : Slot θ := ⟨.empty, fun _ => none, .fresh, []⟩

def core (slot : Slot θ) (id : String) : Option (WorkerTerminalCore θ) :=
  (findRow Prod.fst slot.cores id).map Prod.snd

def setCore (slot : Slot θ) (id : String) (core : WorkerTerminalCore θ) : Slot θ :=
  { slot with cores := modifyRow Prod.fst id (fun row => (row.1, core)) slot.cores }

def setPriority (slot : Slot θ) (id : String) (priority : WorkerPriority) : Slot θ :=
  { slot with
    priorities := Function.update slot.priorities id (some priority)
    scheduler := slot.scheduler.setPriority id priority }

/-- Some commands carry the priority of their terminal. -/
def prioritize (slot : Slot θ) (id : String) : Payload θ → Slot θ
  | .create settings => slot.setPriority id settings.presentation
  | .setPresentationState presentation => slot.setPriority id presentation
  | _ => slot

/-- `channel.post` of a channel that is not released; `false` is the exception of a full
scheduler. -/
def post (slot : Slot θ) (id : String) (command : Command θ) : Slot θ × Bool :=
  let slot := slot.prioritize id command.payload
  let priority := (slot.priorities id).getD ⟨true, false⟩
  match slot.scheduler.enqueue id command command.payload.workerCommandBytes priority
      command.key with
  | some scheduler => ({ slot with scheduler }, true)
  | none => (slot, false)

def send (slot : Slot θ) (id : String) (core : WorkerTerminalCore θ) (payload : Payload θ) :
    Slot θ × Bool :=
  let core := { core with sequence := core.sequence + 1 }
  (slot.setCore id core).post id ⟨core.generation, core.sequence, payload⟩

def command (slot : Slot θ) (id : String) (core : WorkerTerminalCore θ) (payload : Payload θ) :
    Slot θ × Bool :=
  if core.disposed || core.recovering then (slot.setCore id core, true)
  else slot.send id core payload

/-- Several commands; an exception stops them. -/
def commands (slot : Slot θ) (id : String) : List (Payload θ) → Slot θ × Bool
  | [] => (slot, true)
  | payload :: payloads =>
    match slot.core id with
    | none => (slot, true)
    | some core =>
      let first := slot.command id core payload
      if first.2 then first.1.commands id payloads else first

/-- `channel.release` of a core that is now disposed. -/
def release (slot : Slot θ) (id : String) (core : WorkerTerminalCore θ) : Slot θ :=
  { slot.setCore id { core with disposed := true } with
    scheduler := slot.scheduler.cancel id
    priorities := Function.update slot.priorities id none }

def dispose (slot : Slot θ) (id : String) (updates : List ℕ) : Slot θ × Bool :=
  match slot.core id with
  | none => (slot, true)
  | some core =>
    if core.disposed then (slot, true)
    else
      let sent := slot.commands id (updates.map .other ++ [.dispose])
      if sent.2 then
        match sent.1.core id with
        | none => sent
        | some core => (sent.1.release id core, true)
      else sent

/-- A call on a core whose promise has resolved. What it asks for is noted, whatever comes of it. -/
def call (slot : Slot θ) (id : String) (core : WorkerTerminalCore θ) :
    SurfaceCall θ → Slot θ × Bool
  | .resize geometry =>
    slot.command id { core with requested := { core.requested with geometry } } (.resize geometry)
  | .setTheme theme =>
    slot.command id { core with requested := { core.requested with theme } } (.setTheme theme)
  | .setPresentationState presentation =>
    if core.presentation = presentation then
      (slot.setCore id { core with requested := { core.requested with presentation } }, true)
    else
      slot.command id
        { core with presentation, requested := { core.requested with presentation } }
        (.setPresentationState presentation)
  | .other bytes => slot.command id core (.other bytes)
  | .dispose updates => slot.dispose id updates

/-- `fail` of the core. -/
def fail (slot : Slot θ) (id : String) (core : WorkerTerminalCore θ) : Slot θ × Bool :=
  if core.disposed || core.recovering then (slot.setCore id core, true)
  else if core.initializationReject then
    (slot.release id { core with initializationReject := false, readyListener := none }, true)
  else
    let core := { core with
      recovering := true
      generation := core.generation + 1
      sequence := 0
      lastEventSequence := 0
      readyListener := some .recovery }
    slot.send id core (.create { core.options with presentation := core.presentation })

/-- What the listener for `ready` does. -/
def heard (core : WorkerTerminalCore θ) (event : Event) : WorkerTerminalCore θ :=
  if event.kind = .ready then
    match core.readyListener with
    | some .creation => { core with readyListener := none, initializationReject := false }
    | some .recovery =>
      if event.generation = core.generation then
        { core with readyListener := none, recovering := false }
      else core
    | none => core
  else core

/-- `receive` of a core that is not disposed. -/
def receive (slot : Slot θ) (id : String) (core : WorkerTerminalCore θ) (event : Event) : Slot θ :=
  let core := heard core event
  if event.generation ≠ core.generation ∨ event.sequence < core.lastEventSequence then
    slot.setCore id core
  else
    let core := { core with lastEventSequence := event.sequence }
    if event.kind.failed then (slot.fail id core).1 else slot.setCore id core

/-- A message from the worker. -/
def deliver (slot : Slot θ) : Option (Slot θ) :=
  match slot.worker.outbox with
  | [] => none
  | (id, event) :: outbox =>
    let slot := { slot with
      worker := { slot.worker with outbox }
      scheduler := slot.scheduler.complete id event.key }
    match slot.core id with
    | none => some slot
    | some core => if core.disposed then some slot else some (slot.receive id core event)

/-- The listeners for an error, in turn; an exception stops them. -/
def failAll (slot : Slot θ) : List String → Slot θ
  | [] => slot
  | id :: ids =>
    match slot.core id with
    | none => slot.failAll ids
    | some core =>
      let failed := slot.fail id core
      if failed.2 then failed.1.failAll ids else failed.1

/-- The terminals that are registered. -/
def terminals (slot : Slot θ) : List String :=
  (slot.cores.filter fun row => !row.2.disposed).map Prod.fst

/-- The worker reports an error: it is replaced, and every core is told. -/
def workerFailed (slot : Slot θ) : Slot θ :=
  { slot with scheduler := slot.scheduler.reset, worker := .fresh }.failAll slot.terminals

def microtask (slot : Slot θ) : Option (Slot θ) :=
  if slot.scheduler.scheduled then
    let pumped := slot.scheduler.microtask
    some { slot with
      scheduler := pumped.1
      worker := { slot.worker with inbox := slot.worker.inbox ++ pumped.2 } }
  else none

/-- `acquire`, as far as it registers the terminal at the slot. -/
def acquire (slot : Slot θ) (id : String) (core : WorkerTerminalCore θ) : Slot θ :=
  { slot with cores := slot.cores ++ [(id, core)] }

/-- `WorkerTerminalCore.create`, with a terminal id not used before. -/
def create (slot : Slot θ) (id : String) (options : Settings θ) : Slot θ :=
  ((slot.acquire id (.new options)).send id (.new options) (.create options)).1

/-- The timer of `create`. -/
def initializationTimeout (slot : Slot θ) (id : String) (core : WorkerTerminalCore θ) : Slot θ :=
  ((slot.setCore id { core with initializationReject := false }).dispose id []).1

end Slot

inductive SlotStep (θ : Type*)
  | create (id : String) (options : Settings θ)
  | initializationTimeout (id : String)
  | call (id : String) (call : SurfaceCall θ)
  | microtask
  | deliver
  | handle (outcome : Outcome)
  | created (id : String) (index : ℕ) (outcome : CreateOutcome)
  | workerFailed

namespace Slot

def step (slot : Slot θ) : SlotStep θ → Option (Slot θ)
  | .create id options => if slot.core id = none then some (slot.create id options) else none
  | .initializationTimeout id =>
    match slot.core id with
    | some core =>
      -- The timer is cleared when the promise resolves, not when it is rejected.
      if core.readyListener = some .creation ∨ core.disposed then
        some (slot.initializationTimeout id core)
      else none
    | none => none
  | .call id call =>
    match slot.core id with
    | some core =>
      if core.readyListener = some .creation then none else some (slot.call id core call).1
    | none => none
  | .microtask => slot.microtask
  | .deliver => slot.deliver
  | .handle outcome => (slot.worker.handle outcome).map fun worker => { slot with worker }
  | .created id index outcome =>
    (slot.worker.created id index outcome).map fun worker => { slot with worker }
  | .workerFailed => some slot.workerFailed

def machine : Machine (Slot θ) (SlotStep θ) := ⟨step⟩

end Slot
end PiDeck.Worker
