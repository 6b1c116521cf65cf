import Mathlib
import PiDeck.Collections.Keyed
import PiDeck.Collections.Statements
import PiDeck.Transition.Machine

/-! The inbox and the extension calls that wait for its items. A statement on the items and what the
code does once it has the answer are separate steps, so anything may come between them. -/
namespace PiDeck.Supervisor
open PiDeck.Collections PiDeck.Transition

inductive InboxStatus
  | pending
  | resolved
  | cancelled
  deriving DecidableEq, Repr

inductive InboxItemKind
  | approval
  | question
  deriving DecidableEq, Repr

structure InboxInput where
  kind : InboxItemKind
  runId : Option String
  title : String
  body : String
  options : List String
  deriving DecidableEq, Repr

structure InboxRow where
  id : String
  kind : InboxItemKind
  runId : Option String
  title : String
  body : String
  options : List String
  status : InboxStatus
  response : Option String
  createdAt : String
  resolvedAt : Option String
  deriving DecidableEq, Repr

def InboxInput.values (input : InboxInput) (id now : String) : InboxRow where
  id := id
  kind := input.kind
  runId := input.runId
  title := input.title
  body := input.body
  options := input.options
  status := .pending
  response := none
  createdAt := now
  resolvedAt := none

/-- Whether `toInbox` can read the row; an extension may ask under an empty title. -/
def InboxRow.readable (row : InboxRow) : Bool := row.title ≠ ""

def InboxRow.resolve (response now : String) (row : InboxRow) : InboxRow :=
  { row with status := .resolved, response := some response, resolvedAt := some now }

def InboxRow.cancel (now : String) (row : InboxRow) : InboxRow :=
  { row with status := .cancelled, resolvedAt := some now }

/-- The look at the item that follows the registration of a waiter. -/
inductive InboxCheck
  | reading
  | read (status : InboxStatus) (response : Option String)
  | done
  deriving DecidableEq, Repr

/-- The timeout of a waiter. `cancelled` and `refused` are the two answers to its `cancelInbox`. -/
inductive InboxTimer
  | off
  | armed
  | cancelling
  | cancelled
  | refused
  deriving DecidableEq, Repr

/-- A registered waiter with what its promise has been resolved with; until then it is in
`pendingInboxResponses`. -/
structure InboxWaiter where
  check : InboxCheck
  timer : InboxTimer
  answer : Option (Option String)
  deriving DecidableEq, Repr

/-- `settle`; a promise keeps its first answer. -/
def InboxWaiter.settle (waiter : InboxWaiter) (response : Option String) : InboxWaiter where
  check := waiter.check
  timer := if waiter.timer = .armed then .off else waiter.timer
  answer := waiter.answer.or (some response)

inductive InboxCall
  | created (id : String) (timeout : Bool)
  | resolved (id response : String)
  | cancelled (id : String)
  | selected (ids : List String)
  | settling (ids : List String)
  deriving DecidableEq, Repr

structure InboxService where
  items : List InboxRow
  waiter : String → Option InboxWaiter
  call : ℕ → Option InboxCall

inductive InboxAct
  | createInbox (id now : String) (input : InboxInput)
  | requestExtensionInput (call : ℕ) (id now : String) (input : InboxInput) (timeout : Bool)
  | registerWaiter (call : ℕ)
  | readItem (id : String)
  | checkItem (id : String)
  | timerFires (id : String)
  | timerCancels (id now : String)
  | timerAnswers (id : String)
  | resolveInbox (call : ℕ) (id response now : String)
  | cancelInbox (call : ℕ) (id now : String)
  | answerInbox (call : ℕ)
  | cancelExtensionRequests (call : ℕ) (runId : String)
  | cancelSelected (call : ℕ) (now : String)
  | answerSelected (call : ℕ)
  deriving DecidableEq, Repr

namespace InboxService

def getItem (service : InboxService) (id : String) : Option InboxRow :=
  findRow InboxRow.id service.items id

def setItems (service : InboxService) (items : List InboxRow) : InboxService :=
  { service with items := items }

def setWaiter (service : InboxService) (id : String) (waiter : InboxWaiter) : InboxService :=
  { service with waiter := Function.update service.waiter id (some waiter) }

def setCall (service : InboxService) (call : ℕ) (phase : Option InboxCall) : InboxService :=
  { service with call := Function.update service.call call phase }

def settleInboxResponse (service : InboxService) (id : String) (response : Option String) :
    InboxService :=
  match service.waiter id with
  | some waiter =>
    if waiter.answer = none then service.setWaiter id (waiter.settle response) else service
  | none => service

/-- The row is there and `requireInbox` can read it. -/
def reads (service : InboxService) (id : String) : Bool :=
  (service.getItem id).any InboxRow.readable

/-- An update of one item that is still pending. -/
def updatePending (service : InboxService) (id : String) (f : InboxRow → InboxRow) :
    Option InboxService :=
  match service.getItem id with
  | some row =>
    if row.status = .pending then
      some (service.setItems (updateWhere (fun row => row.id = id && row.status = .pending) f
        service.items))
    else none
  | none => none

def createInbox (service : InboxService) (id now : String) (input : InboxInput) :
    Option InboxService :=
  if service.getItem id = none then some (service.setItems (service.items ++ [input.values id now]))
  else none

def requestExtensionInput (service : InboxService) (call : ℕ) (id now : String)
    (input : InboxInput) (timeout : Bool) : Option InboxService :=
  if service.call call = none then
    (service.createInbox id now input).map fun created =>
      created.setCall call (some (.created id timeout))
  else none

/-- The new item is read, and the waiter is registered with its timeout. -/
def registerWaiter (service : InboxService) (call : ℕ) : Option InboxService :=
  match service.call call with
  | some (.created id timeout) =>
    if service.reads id then
      some ((service.setWaiter id ⟨.reading, if timeout then .armed else .off, none⟩).setCall call
        none)
    else some (service.setCall call none)
  | _ => none

def readItem (service : InboxService) (id : String) : Option InboxService :=
  match service.waiter id, service.getItem id with
  | some ⟨.reading, timer, answer⟩, some row =>
    some (service.setWaiter id ⟨.read row.status row.response, timer, answer⟩)
  | _, _ => none

/-- An item that is no longer pending answers the waiter directly. -/
def checkItem (service : InboxService) (id : String) : Option InboxService :=
  match service.waiter id with
  | some ⟨.read status response, timer, answer⟩ =>
    let waiter : InboxWaiter := ⟨.done, timer, answer⟩
    some (service.setWaiter id (if status ≠ .pending then waiter.settle response else waiter))
  | _ => none

def timerFires (service : InboxService) (id : String) : Option InboxService :=
  match service.waiter id with
  | some ⟨check, .armed, answer⟩ => some (service.setWaiter id ⟨check, .cancelling, answer⟩)
  | _ => none

/-- The update of the `cancelInbox` of a timeout. -/
def timerCancels (service : InboxService) (id now : String) : Option InboxService :=
  match service.waiter id with
  | some ⟨check, .cancelling, answer⟩ =>
    match service.updatePending id (InboxRow.cancel now) with
    | some updated => some (updated.setWaiter id ⟨check, .cancelled, answer⟩)
    | none => some (service.setWaiter id ⟨check, .refused, answer⟩)
  | _ => none

/-- The rest of the `cancelInbox` of a timeout; its failure answers the waiter as well. -/
def timerAnswers (service : InboxService) (id : String) : Option InboxService :=
  match service.waiter id with
  | some ⟨check, timer, answer⟩ =>
    if timer = .cancelled ∨ timer = .refused then
      some (service.setWaiter id (InboxWaiter.settle ⟨check, .off, answer⟩ none))
    else none
  | none => none

def resolveInbox (service : InboxService) (call : ℕ) (id response now : String) :
    Option InboxService :=
  if service.call call = none then
    (service.updatePending id (InboxRow.resolve response now)).map fun updated =>
      updated.setCall call (some (.resolved id response))
  else none

def cancelInbox (service : InboxService) (call : ℕ) (id now : String) : Option InboxService :=
  if service.call call = none then
    (service.updatePending id (InboxRow.cancel now)).map fun updated =>
      updated.setCall call (some (.cancelled id))
  else none

/-- The rest of `resolveInbox` and `cancelInbox`; an item that cannot be read answers nobody. -/
def answerInbox (service : InboxService) (call : ℕ) : Option InboxService :=
  match service.call call with
  | some (.resolved id response) =>
    if service.reads id then
      some ((service.settleInboxResponse id (some response)).setCall call none)
    else some (service.setCall call none)
  | some (.cancelled id) =>
    if service.reads id then some ((service.settleInboxResponse id none).setCall call none)
    else some (service.setCall call none)
  | _ => none

def cancelExtensionRequests (service : InboxService) (call : ℕ) (runId : String) :
    Option InboxService :=
  if service.call call = none then
    let pending := service.items.filter fun row => row.runId = some runId && row.status = .pending
    if pending = [] then none
    else some (service.setCall call (some (.selected (pending.map InboxRow.id))))
  else none

/-- The update is of all selected items, whatever their status is by now. -/
def cancelSelected (service : InboxService) (call : ℕ) (now : String) : Option InboxService :=
  match service.call call with
  | some (.selected ids) =>
    some ((service.setItems (updateWhere (fun row => row.id ∈ ids) (InboxRow.cancel now)
      service.items)).setCall call (some (.settling ids)))
  | _ => none

def answerSelected (service : InboxService) (call : ℕ) : Option InboxService :=
  match service.call call with
  | some (.settling ids) =>
    some ((ids.foldl (fun service id => service.settleInboxResponse id none) service).setCall call
      none)
  | _ => none

def step (service : InboxService) : InboxAct → Option InboxService
  | .createInbox id now input => service.createInbox id now input
  | .requestExtensionInput call id now input timeout =>
    service.requestExtensionInput call id now input timeout
  | .registerWaiter call => service.registerWaiter call
  | .readItem id => service.readItem id
  | .checkItem id => service.checkItem id
  | .timerFires id => service.timerFires id
  | .timerCancels id now => service.timerCancels id now
  | .timerAnswers id => service.timerAnswers id
  | .resolveInbox call id response now => service.resolveInbox call id response now
  | .cancelInbox call id now => service.cancelInbox call id now
  | .answerInbox call => service.answerInbox call
  | .cancelExtensionRequests call runId => service.cancelExtensionRequests call runId
  | .cancelSelected call now => service.cancelSelected call now
  | .answerSelected call => service.answerSelected call

def machine : Machine InboxService InboxAct := ⟨step⟩

def fresh : InboxService := ⟨[], fun _ => none, fun _ => none⟩

end InboxService
end PiDeck.Supervisor
