import PiDeck.Transition.Broadcast

/-! The host's event hub: one sequence for all events, assigned and broadcast under one lock. The
retained history, which only a reconnect of the older protocol reads, is left out. -/
namespace PiDeck.Server
open PiDeck.Transition

/-- An argument of an event, as far as the connections read it. -/
inductive EventArgument
  | string (value : String)
  | other (json : String)
  deriving DecidableEq

def EventArgument.asStr : EventArgument → Option String
  | .string value => some value
  | .other _ => none

structure HostEvent where
  sequence : ℕ
  channel : String
  args : List EventArgument
  deriving DecidableEq

structure EventHub where
  sequence : ℕ
  sender : Broadcast HostEvent

namespace EventHub

def defaultEventCapacity : ℕ := 1024

def new : EventHub := ⟨0, ⟨defaultEventCapacity, []⟩⟩

/-- The sequence is a saturating `u64`. -/
def nextSequence (hub : EventHub) : ℕ := min (hub.sequence + 1) (2 ^ 64 - 1)

def emit (hub : EventHub) (channel : String) (args : List EventArgument) : EventHub :=
  let event : HostEvent := ⟨hub.nextSequence, channel, args⟩
  ⟨hub.nextSequence, hub.sender.send event⟩

/-- Terminal output takes a sequence too, but goes to the attached connections directly. -/
def emitTerminal (hub : EventHub) : EventHub := { hub with sequence := hub.nextSequence }

def lastSequence (hub : EventHub) : ℕ := hub.sequence

end EventHub
end PiDeck.Server
