import Mathlib
import PiDeck.Collections.Increasing
import PiDeck.Transition.Machine

/-! The event stream of an agent or a run. A publisher commits its event to the table and then, in
a step of its own, broadcasts it. A subscriber subscribes to the broadcast channel, replays the
table in pages from its cursor, and then follows the channel, dropping what it has already sent. -/
namespace PiDeck.Agents
open PiDeck.Collections PiDeck.Transition

structure AgentEvent where
  agentId : String
  runId : Option String
  sequence : ℕ
  eventType : String
  payload : String
  createdAt : String
  deriving DecidableEq

/-- What a stream is opened on. -/
inductive EventSource
  | agent (id : String)
  | run (id : String)
  deriving DecidableEq

def EventSource.selects : EventSource → AgentEvent → Bool
  | .agent id, event => decide (event.agentId = id)
  | .run id, event => decide (event.runId = some id)

structure EventsQuery where
  afterSequence : Option ℕ
  beforeSequence : Option ℕ
  limit : Option ℕ

structure EventPage where
  events : List AgentEvent
  nextSequence : Option ℕ
  previousSequence : Option ℕ
  hasMore : Bool
  deriving DecidableEq

/-- One page of the table. A cursor is not negative here: the stream's admission checks it. -/
def eventPage (table : List AgentEvent) (source : EventSource) (query : EventsQuery) :
    Except String EventPage :=
  let after := query.afterSequence.getD 0
  let limit := query.limit.getD 100
  if ¬ (1 ≤ limit ∧ limit ≤ 500) ∨ query.beforeSequence.any (fun value => decide (value < 1)) then
    .error "Event cursor or page limit is invalid"
  else
    let rows := table.filter source.selects
    let ascending := fun (a b : AgentEvent) => a.sequence ≤ b.sequence
    let selected :=
      match query.beforeSequence with
      | some before =>
        ((rows.filter fun (event : AgentEvent) => decide (event.sequence < before)).insertionSort
          fun a b => ascending b a).take (limit + 1)
      | none =>
        ((rows.filter fun (event : AgentEvent) => decide (after < event.sequence)).insertionSort
          ascending).take (limit + 1)
    let descending := query.beforeSequence.isSome
    let hasMore := decide (limit < selected.length)
    let values := if descending then (selected.take limit).reverse else selected.take limit
    .ok
      { events := values
        nextSequence :=
          if !descending && hasMore then values.getLast?.map (·.sequence) else none
        previousSequence := if descending && hasMore then values.head?.map (·.sequence) else none
        hasMore := hasMore }

/-- Where a subscriber's task stands. -/
inductive StreamPhase
  | reading
  | sending (rest : List AgentEvent) (hasMore : Bool)
  | live
  | closed
  deriving DecidableEq

/-- A subscriber with its receiver. `delivered` is what it has sent to its socket. -/
structure Subscriber where
  source : EventSource
  after : ℕ
  lastSequence : ℕ
  phase : StreamPhase
  queue : List AgentEvent
  lagged : Bool
  delivered : List AgentEvent
  deriving DecidableEq

def channelCapacity : ℕ := 1024

/-- The broadcast channel keeps the newest messages; a receiver that falls behind is told so. -/
def Subscriber.push (subscriber : Subscriber) (event : AgentEvent) : Subscriber :=
  if subscriber.queue.length < channelCapacity then
    { subscriber with queue := subscriber.queue ++ [event] }
  else { subscriber with queue := subscriber.queue.tail ++ [event], lagged := true }

def Subscriber.deliver (subscriber : Subscriber) (event : AgentEvent) : Subscriber :=
  { subscriber with
    lastSequence := event.sequence
    delivered := subscriber.delivered ++ [event] }

/-- The table, the events whose publishers have committed but not yet broadcast them, and the
subscribers. Each run belongs to one agent. -/
structure EventSystem where
  runAgent : String → String
  events : List AgentEvent
  pending : List AgentEvent
  subscribers : ℕ → Option Subscriber

inductive EventAction
  | commit (agentId : String) (runId : Option String) (eventType payload createdAt : String)
  | broadcast (event : AgentEvent)
  | subscribe (id : ℕ) (source : EventSource) (after : ℕ)
  | readPage (id : ℕ)
  | send (id : ℕ)
  | receive (id : ℕ)
  | disconnect (id : ℕ)

namespace EventSystem

/-- `COALESCE(MAX(sequence), 0) + 1` over the events of an agent. -/
def nextSequence (s : EventSystem) (agentId : String) : ℕ :=
  ((s.events.filter fun event => decide (event.agentId = agentId)).map (·.sequence)).foldr max 0 + 1

/-- Let a subscriber take a step of its task. -/
def advance (s : EventSystem) (id : ℕ) (task : Subscriber → Option Subscriber) :
    Option EventSystem :=
  (s.subscribers id).bind fun subscriber => (task subscriber).map fun after =>
    { s with subscribers := Function.update s.subscribers id (some after) }

def readPage (s : EventSystem) (subscriber : Subscriber) : Option Subscriber :=
  if subscriber.phase = .reading then
    match eventPage s.events subscriber.source
        { afterSequence := some subscriber.lastSequence, beforeSequence := none, limit := some 500 } with
    | .ok page => some { subscriber with phase := .sending page.events page.hasMore }
    | .error _ => some { subscriber with phase := .closed }
  else none

def send (subscriber : Subscriber) : Option Subscriber :=
  match subscriber.phase with
  | .sending (event :: rest) hasMore =>
    let subscriber := { subscriber with phase := .sending rest hasMore }
    some (if event.sequence ≤ subscriber.lastSequence then subscriber
      else subscriber.deliver event)
  | .sending [] true => some { subscriber with phase := .reading }
  | .sending [] false => some { subscriber with phase := .live }
  | _ => none

def receive (subscriber : Subscriber) : Option Subscriber :=
  match subscriber.phase with
  | .live =>
    if subscriber.lagged then some { subscriber with phase := .closed }
    else
      match subscriber.queue with
      | [] => none
      | event :: rest =>
        let subscriber := { subscriber with queue := rest }
        some (if subscriber.source.selects event && decide (subscriber.lastSequence < event.sequence)
          then subscriber.deliver event else subscriber)
  | _ => none

def step (s : EventSystem) : EventAction → Option EventSystem
  | .commit agentId runId eventType payload createdAt =>
    if runId.all fun run => decide (s.runAgent run = agentId) then
      let event : AgentEvent :=
        { agentId := agentId
          runId := runId
          sequence := s.nextSequence agentId
          eventType := eventType
          payload := payload
          createdAt := createdAt }
      some { s with events := s.events ++ [event], pending := s.pending ++ [event] }
    else none
  | .broadcast event =>
    if event ∈ s.pending then
      some { s with
        pending := s.pending.erase event
        subscribers := fun id => (s.subscribers id).map fun subscriber =>
          if subscriber.phase = .closed then subscriber else subscriber.push event }
    else none
  | .subscribe id source after =>
    if s.subscribers id = none then
      some { s with
        subscribers := Function.update s.subscribers id (some
          { source := source
            after := after
            lastSequence := after
            phase := .reading
            queue := []
            lagged := false
            delivered := [] }) }
    else none
  | .readPage id => s.advance id s.readPage
  | .send id => s.advance id send
  | .receive id => s.advance id receive
  | .disconnect id => s.advance id fun subscriber => some { subscriber with phase := .closed }

def initial (runAgent : String → String) : EventSystem := ⟨runAgent, [], [], fun _ => none⟩

def machine : Machine EventSystem EventAction := ⟨step⟩

/-- The committed events of a source. -/
def log (s : EventSystem) (source : EventSource) : List AgentEvent :=
  s.events.filter source.selects

end EventSystem

namespace Subscriber

/-- The sequence through which the pages read so far go. -/
def readThrough (subscriber : Subscriber) : ℕ :=
  match subscriber.phase with
  | .sending rest _ => (rest.getLast?.map (·.sequence)).getD subscriber.lastSequence
  | _ => subscriber.lastSequence

/-- No further page will be read: only the channel can bring new events. -/
def PastReplay (subscriber : Subscriber) : Prop :=
  subscriber.lagged = false ∧
    match subscriber.phase with
    | .sending _ false | .live => True
    | _ => False

instance (subscriber : Subscriber) : Decidable subscriber.PastReplay := by
  unfold PastReplay
  cases subscriber.phase with
  | sending rest hasMore => cases hasMore <;> infer_instance
  | _ => infer_instance

end Subscriber

/-- No subscriber that depends on the channel is passed an event before an earlier one of its
source that it has not read and that is still to be broadcast. -/
def EventSystem.InOrder (s : EventSystem) : EventAction → Prop
  | .broadcast event => ∀ id subscriber, s.subscribers id = some subscriber →
      subscriber.PastReplay → subscriber.source.selects event = true →
      ∀ earlier ∈ s.pending, subscriber.source.selects earlier = true →
        subscriber.readThrough < earlier.sequence → event.sequence ≤ earlier.sequence
  | _ => True

/-- A subscriber has sent exactly the committed events past its cursor up to the last one it sent,
in strictly increasing order; and once nothing of its source is on the way to it, all of them. -/
def EventSystem.Complete (s : EventSystem) (subscriber : Subscriber) : Prop :=
  subscriber.delivered =
      between (·.sequence) subscriber.after subscriber.lastSequence (s.log subscriber.source) ∧
    Increasing (·.sequence) subscriber.delivered ∧
    (subscriber.phase = .live → subscriber.lagged = false → subscriber.queue = [] →
      (∀ event ∈ s.pending, subscriber.source.selects event = false) →
      subscriber.delivered = above (·.sequence) subscriber.after (s.log subscriber.source))

end PiDeck.Agents
