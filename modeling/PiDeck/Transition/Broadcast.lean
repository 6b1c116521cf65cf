import Mathlib

/-! A broadcast channel with bounded retention. Every receiver keeps a position in the sequence of
what was sent; one that falls behind by more than the capacity is told so and moved to the oldest
message that is still retained. -/
namespace PiDeck.Transition

structure Broadcast (α : Type*) where
  capacity : ℕ
  sent : List α

inductive Received (α : Type*)
  | message (value : α)
  | lagged (skipped : ℕ)
  deriving DecidableEq

namespace Broadcast
variable {α : Type*} {channel : Broadcast α} {position next : ℕ} {value : α} {received : Received α}

def send (channel : Broadcast α) (value : α) : Broadcast α :=
  { channel with sent := channel.sent ++ [value] }

/-- A new receiver gets what is sent from now on. -/
def subscribe (channel : Broadcast α) : ℕ := channel.sent.length

/-- The next thing that a receiver gets, with its new position. -/
def recv (channel : Broadcast α) (position : ℕ) : Option (Received α × ℕ) :=
  let oldest := channel.sent.length - channel.capacity
  if position < oldest then some (.lagged (oldest - position), oldest)
  else channel.sent[position]?.map fun value => (.message value, position + 1)

@[simp] theorem send_sent (channel : Broadcast α) (value : α) :
    (channel.send value).sent = channel.sent ++ [value] := rfl

/-- A message is the one at the receiver's position, which moves over it. -/
theorem recv_message (h : channel.recv position = some (.message value, next)) :
    channel.sent[position]? = some value ∧ next = position + 1 := by
  unfold recv at h
  dsimp only at h
  split at h
  · cases h
  · obtain ⟨sent, hsent, heq⟩ := Option.map_eq_some_iff.mp h
    cases heq
    exact ⟨hsent, rfl⟩

theorem le_of_recv (h : channel.recv position = some (received, next)) :
    next ≤ channel.sent.length := by
  unfold recv at h
  dsimp only at h
  split at h
  · cases h
    exact Nat.sub_le _ _
  · obtain ⟨sent, hsent, heq⟩ := Option.map_eq_some_iff.mp h
    cases heq
    obtain ⟨hlt, -⟩ := List.getElem?_eq_some_iff.mp hsent
    exact hlt

/-- What was sent stays where it is. -/
theorem getElem?_send (h : channel.sent[position]? = some value) (more : α) :
    (channel.send more).sent[position]? = some value := by
  obtain ⟨hlt, -⟩ := List.getElem?_eq_some_iff.mp h
  rw [send_sent, List.getElem?_append_left hlt]
  exact h

end Broadcast
end PiDeck.Transition
