import Mathlib
import PiDeck.Wire.Frame

/-! The bounded queue of one client: a priority and an ordinary lane for reliable frames, a lane
for live terminal data and a lane for history. Each operation has a lemma that says what it does
to the lanes. -/
namespace PiDeck.Outbound
open PiDeck.Wire

structure MailboxLimits where
  reliableMaxFrames : ℕ
  reliableMaxBytes : ℕ
  legacyMaxFrames : ℕ
  legacyMaxBytes : ℕ
  historyMaxFrames : ℕ
  historyMaxBytes : ℕ

instance : Inhabited MailboxLimits where
  default :=
    { reliableMaxFrames := 256
      reliableMaxBytes := 10 * 1024 * 1024
      legacyMaxFrames := 8192
      legacyMaxBytes := 32 * 1024 * 1024
      historyMaxFrames := 1024
      historyMaxBytes := 2 * 1024 * 1024 }

inductive Overflow
  | reliable
  | legacy
  | history
  deriving DecidableEq

structure EnqueueResult where
  accepted : Bool
  replaced : Bool
  requiresResync : Bool
  overflow : Option Overflow
  deriving DecidableEq

/-- The data of a frame; the constructor is its `OutboundFrameKind`. -/
inductive FrameData
  | text (data : Bytes)
  | binary (frame : Frame)
  deriving DecidableEq

structure OutboundFrame where
  data : FrameData
  terminalId : Option String
  terminalSequence : Option ℕ
  deriving DecidableEq

namespace OutboundFrame

def text (data : Bytes) : OutboundFrame := ⟨.text data, none, none⟩
def binary (frame : Frame) : OutboundFrame := ⟨.binary frame, none, none⟩
def terminal (terminalId : String) (sequence : ℕ) (frame : Frame) : OutboundFrame :=
  ⟨.binary frame, some terminalId, some sequence⟩

def bytes (frame : OutboundFrame) : ℕ :=
  match frame.data with
  | .text data => data.length
  | .binary frame => frame.encodedLength

end OutboundFrame

structure QueuedFrame where
  frame : OutboundFrame
  order : ℕ
  deriving DecidableEq

structure OutboundMailbox where
  limits : MailboxLimits
  priority : List QueuedFrame
  reliable : List QueuedFrame
  reliableBytes : ℕ
  legacy : List QueuedFrame
  legacyBytes : ℕ
  history : List QueuedFrame
  historyBytes : ℕ
  nextOrder : ℕ

def accepted (replaced requiresResync : Bool) : EnqueueResult :=
  ⟨true, replaced, requiresResync, none⟩

def rejected (overflow : Overflow) (requiresResync : Bool) : EnqueueResult :=
  ⟨false, false, requiresResync, some overflow⟩

namespace OutboundMailbox

def new (limits : MailboxLimits) : OutboundMailbox :=
  { limits := limits
    priority := []
    reliable := []
    reliableBytes := 0
    legacy := []
    legacyBytes := 0
    history := []
    historyBytes := 0
    nextOrder := 0 }

variable (mailbox : OutboundMailbox)

/-- The order counter is a saturating `u64`. -/
def advance : OutboundMailbox :=
  { mailbox with nextOrder := min (mailbox.nextOrder + 1) (2 ^ 64 - 1) }

def queued (frame : OutboundFrame) : QueuedFrame := ⟨frame, mailbox.nextOrder⟩

/-- The bound shared by the two reliable lanes. -/
def reliableFull (bytes : ℕ) : Bool :=
  decide (mailbox.limits.reliableMaxBytes < bytes ∨
    mailbox.limits.reliableMaxFrames ≤ mailbox.priority.length + mailbox.reliable.length ∨
    mailbox.limits.reliableMaxBytes < mailbox.reliableBytes + bytes)

def enqueueReliablePriority (frame : OutboundFrame) : OutboundMailbox × EnqueueResult :=
  if mailbox.reliableFull frame.bytes then (mailbox, rejected .reliable false)
  else
    ({ mailbox.advance with
      priority := mailbox.priority ++ [mailbox.queued frame]
      reliableBytes := mailbox.reliableBytes + frame.bytes }, accepted false false)

def enqueueReliable (frame : OutboundFrame) : OutboundMailbox × EnqueueResult :=
  if mailbox.reliableFull frame.bytes then (mailbox, rejected .reliable false)
  else
    ({ mailbox.advance with
      reliable := mailbox.reliable ++ [mailbox.queued frame]
      reliableBytes := mailbox.reliableBytes + frame.bytes }, accepted false false)

def enqueueLegacy (terminalId : String) (frame : OutboundFrame) :
    OutboundMailbox × EnqueueResult :=
  if terminalId = "" ∨ mailbox.limits.legacyMaxBytes < frame.bytes ∨
      mailbox.limits.legacyMaxFrames ≤ mailbox.legacy.length ∨
      mailbox.limits.legacyMaxBytes < mailbox.legacyBytes + frame.bytes then
    (mailbox, rejected .legacy false)
  else
    ({ mailbox.advance with
      legacy := mailbox.legacy ++ [mailbox.queued { frame with terminalId := some terminalId }]
      legacyBytes := mailbox.legacyBytes + frame.bytes }, accepted false false)

def pushHistory (frame : OutboundFrame) : OutboundMailbox :=
  { mailbox.advance with history := mailbox.history ++ [mailbox.queued frame] }

/-- A scrollback response is enqueued whole or not at all. -/
def enqueueHistoryBatch (frames : List OutboundFrame) : OutboundMailbox × EnqueueResult :=
  let bytes := (frames.map (·.bytes)).sum
  if frames = [] ∨ mailbox.limits.historyMaxFrames < mailbox.history.length + frames.length ∨
      mailbox.limits.historyMaxBytes < mailbox.historyBytes + bytes then
    (mailbox, rejected .history false)
  else
    let pushed := frames.foldl pushHistory mailbox
    ({ pushed with historyBytes := pushed.historyBytes + bytes }, accepted false false)

/-- Priority frames first, then the older of the next reliable and the next live frame, then
history. -/
def popNext : Option (OutboundFrame × OutboundMailbox) :=
  match mailbox.priority with
  | queued :: rest =>
    some (queued.frame, { mailbox with
      priority := rest
      reliableBytes := mailbox.reliableBytes - queued.frame.bytes })
  | [] =>
    let popReliable (queued : QueuedFrame) (rest : List QueuedFrame) :=
      (queued.frame, { mailbox with
        reliable := rest
        reliableBytes := mailbox.reliableBytes - queued.frame.bytes })
    let popLegacy (queued : QueuedFrame) (rest : List QueuedFrame) :=
      (queued.frame, { mailbox with
        legacy := rest
        legacyBytes := mailbox.legacyBytes - queued.frame.bytes })
    match mailbox.reliable, mailbox.legacy with
    | r :: rs, l :: ls => some (if l.order < r.order then popLegacy l ls else popReliable r rs)
    | r :: rs, [] => some (popReliable r rs)
    | [], l :: ls => some (popLegacy l ls)
    | [], [] =>
      match mailbox.history with
      | queued :: rest =>
        some (queued.frame, { mailbox with
          history := rest
          historyBytes := mailbox.historyBytes - queued.frame.bytes })
      | [] => none

/-- Whether a discard removes a queued frame. -/
def discards (terminalId : String) (predicate : ℕ → Bool) (queued : QueuedFrame) : Bool :=
  decide (queued.frame.terminalId = some terminalId) && queued.frame.terminalSequence.any predicate

def discardTerminalWhere (terminalId : String) (predicate : ℕ → Bool) : OutboundMailbox :=
  { mailbox with
    legacy := mailbox.legacy.filter fun queued => !discards terminalId predicate queued
    legacyBytes := mailbox.legacyBytes -
      ((mailbox.legacy.filter (discards terminalId predicate)).map (·.frame.bytes)).sum }

def discardTerminalThrough (terminalId : String) (sequence : ℕ) : OutboundMailbox :=
  mailbox.discardTerminalWhere terminalId fun value => decide (value ≤ sequence)

def discardTerminal (terminalId : String) : OutboundMailbox :=
  mailbox.discardTerminalWhere terminalId fun _ => true

/-- The frames waiting in the priority lane. -/
def controlFrames : List OutboundFrame := mailbox.priority.map (·.frame)

/-- The frames waiting in the live lane. -/
def liveFrames : List OutboundFrame := mailbox.legacy.map (·.frame)

/-- The frames waiting in the lanes that carry no live data. -/
def otherFrames : List OutboundFrame :=
  (mailbox.priority ++ mailbox.reliable ++ mailbox.history).map (·.frame)

variable {mailbox}

/-- The lanes agree except for the given additions at their ends. -/
structure Extends (before after : OutboundMailbox) (control live : List OutboundFrame) : Prop where
  control : after.controlFrames = before.controlFrames ++ control
  live : after.liveFrames = before.liveFrames ++ live

theorem Extends.refl (mailbox : OutboundMailbox) : Extends mailbox mailbox [] [] :=
  ⟨by simp, by simp⟩

theorem enqueueReliablePriority_spec (mailbox : OutboundMailbox) (frame : OutboundFrame) :
    ((mailbox.enqueueReliablePriority frame).2.accepted = true →
      Extends mailbox (mailbox.enqueueReliablePriority frame).1 [frame] []) ∧
    ((mailbox.enqueueReliablePriority frame).2.accepted = false →
      (mailbox.enqueueReliablePriority frame).1 = mailbox) ∧
    ∀ f ∈ (mailbox.enqueueReliablePriority frame).1.otherFrames,
      f ∈ mailbox.otherFrames ∨ f = frame := by
  unfold enqueueReliablePriority
  split
  · refine ⟨by simp [rejected], fun _ => rfl, fun f hf => .inl hf⟩
  · refine ⟨fun _ => ⟨by simp [controlFrames, queued], by simp [liveFrames, advance]⟩, by simp [accepted], ?_⟩
    intro f hf
    simp only [otherFrames, advance, queued, List.map_append, List.map_cons, List.map_nil,
      List.mem_append, List.mem_singleton] at hf ⊢
    tauto

theorem enqueueReliable_spec (mailbox : OutboundMailbox) (frame : OutboundFrame) :
    Extends mailbox (mailbox.enqueueReliable frame).1 [] [] ∧
    ∀ f ∈ (mailbox.enqueueReliable frame).1.otherFrames,
      f ∈ mailbox.otherFrames ∨ f = frame := by
  unfold enqueueReliable
  split
  · exact ⟨.refl _, fun f hf => .inl hf⟩
  · refine ⟨⟨by simp [controlFrames, advance], by simp [liveFrames, advance]⟩, ?_⟩
    intro f hf
    simp only [otherFrames, advance, queued, List.map_append, List.map_cons, List.map_nil,
      List.mem_append, List.mem_singleton] at hf ⊢
    tauto

theorem enqueueLegacy_spec (mailbox : OutboundMailbox) (terminalId : String) (frame : OutboundFrame) :
    ((mailbox.enqueueLegacy terminalId frame).2.accepted = true →
      Extends mailbox (mailbox.enqueueLegacy terminalId frame).1 []
        [{ frame with terminalId := some terminalId }]) ∧
    ((mailbox.enqueueLegacy terminalId frame).2.accepted = false →
      (mailbox.enqueueLegacy terminalId frame).1 = mailbox) ∧
    (mailbox.enqueueLegacy terminalId frame).1.otherFrames = mailbox.otherFrames := by
  unfold enqueueLegacy
  split
  · exact ⟨by simp [rejected], fun _ => rfl, rfl⟩
  · exact ⟨fun _ => ⟨by simp [controlFrames, advance], by simp [liveFrames, queued]⟩, by simp [accepted], rfl⟩

theorem foldl_pushHistory (frames : List OutboundFrame) (mailbox : OutboundMailbox) :
    let after := frames.foldl pushHistory mailbox
    after.priority = mailbox.priority ∧ after.reliable = mailbox.reliable ∧
      after.legacy = mailbox.legacy ∧
      after.history.map (·.frame) = mailbox.history.map (·.frame) ++ frames := by
  induction frames generalizing mailbox with
  | nil => simp
  | cons frame frames ih =>
    obtain ⟨hp, hr, hl, hh⟩ := ih (mailbox.pushHistory frame)
    refine ⟨hp, hr, hl, ?_⟩
    rw [List.foldl_cons, hh]
    simp [pushHistory, queued]

theorem enqueueHistoryBatch_spec (mailbox : OutboundMailbox) (frames : List OutboundFrame) :
    Extends mailbox (mailbox.enqueueHistoryBatch frames).1 [] [] ∧
    ∀ f ∈ (mailbox.enqueueHistoryBatch frames).1.otherFrames,
      f ∈ mailbox.otherFrames ∨ f ∈ frames := by
  unfold enqueueHistoryBatch
  dsimp only
  split
  · exact ⟨.refl _, fun f hf => .inl hf⟩
  · obtain ⟨hp, hr, hl, hh⟩ := foldl_pushHistory frames mailbox
    refine ⟨⟨by simp [controlFrames, hp], by simp [liveFrames, hl]⟩, ?_⟩
    intro f hf
    simp only [otherFrames, List.map_append, hp, hr, hh, List.mem_append] at hf ⊢
    tauto

/-- A pop takes the head of the priority lane, and only without one a frame of another lane. -/
theorem popNext_spec {frame : OutboundFrame} {after : OutboundMailbox}
    (h : mailbox.popNext = some (frame, after)) :
    (∃ rest, mailbox.controlFrames = frame :: rest ∧ after.controlFrames = rest ∧
        after.liveFrames = mailbox.liveFrames ∧ frame ∈ mailbox.otherFrames ∧
        ∀ f ∈ after.otherFrames, f ∈ mailbox.otherFrames) ∨
    (mailbox.controlFrames = [] ∧ after.controlFrames = [] ∧
        after.liveFrames = mailbox.liveFrames ∧ frame ∈ mailbox.otherFrames ∧
        ∀ f ∈ after.otherFrames, f ∈ mailbox.otherFrames) ∨
    (mailbox.controlFrames = [] ∧ after.controlFrames = [] ∧
        mailbox.liveFrames = frame :: after.liveFrames ∧
        after.otherFrames = mailbox.otherFrames) := by
  unfold popNext at h
  split at h
  · rename_i q rest hp
    obtain ⟨rfl, rfl⟩ := Prod.mk.inj (Option.some.inj h)
    refine .inl ⟨rest.map (·.frame), by simp [controlFrames, hp], rfl, rfl, ?_, ?_⟩
    · simp [otherFrames, hp]
    · intro f hf
      simp only [otherFrames, List.map_append, List.mem_append, hp, List.map_cons,
        List.mem_cons] at hf ⊢
      tauto
  · rename_i hp
    have hc : mailbox.controlFrames = [] := by simp [controlFrames, hp]
    dsimp only at h
    split at h
    · rename_i r rs l ls hr hl
      split at h
      · obtain ⟨rfl, rfl⟩ := Prod.mk.inj (Option.some.inj h)
        exact .inr (.inr ⟨hc, hc, by simp [liveFrames, hl], rfl⟩)
      · obtain ⟨rfl, rfl⟩ := Prod.mk.inj (Option.some.inj h)
        refine .inr (.inl ⟨hc, hc, rfl, by simp [otherFrames, hr], ?_⟩)
        intro f hf
        simp only [otherFrames, List.map_append, List.mem_append, hr, List.map_cons,
          List.mem_cons] at hf ⊢
        tauto
    · rename_i r rs hr hl
      obtain ⟨rfl, rfl⟩ := Prod.mk.inj (Option.some.inj h)
      refine .inr (.inl ⟨hc, hc, rfl, by simp [otherFrames, hr], ?_⟩)
      intro f hf
      simp only [otherFrames, List.map_append, List.mem_append, hr, List.map_cons,
        List.mem_cons] at hf ⊢
      tauto
    · rename_i l ls hr hl
      obtain ⟨rfl, rfl⟩ := Prod.mk.inj (Option.some.inj h)
      exact .inr (.inr ⟨hc, hc, by simp [liveFrames, hl], rfl⟩)
    · split at h
      · rename_i q rest hh
        obtain ⟨rfl, rfl⟩ := Prod.mk.inj (Option.some.inj h)
        refine .inr (.inl ⟨hc, hc, rfl, by simp [otherFrames, hh], ?_⟩)
        intro f hf
        simp only [otherFrames, List.map_append, List.mem_append, hh, List.map_cons,
          List.mem_cons] at hf ⊢
        tauto
      · cases h

/-- A discard removes live frames of one terminal only. -/
theorem liveFrames_discardTerminalWhere (terminalId : String) (predicate : ℕ → Bool) :
    (mailbox.discardTerminalWhere terminalId predicate).liveFrames =
      mailbox.liveFrames.filter fun frame =>
        !(decide (frame.terminalId = some terminalId) && frame.terminalSequence.any predicate) := by
  simp only [liveFrames, discardTerminalWhere, List.filter_map]
  rfl

@[simp] theorem controlFrames_discardTerminalWhere (terminalId : String) (predicate : ℕ → Bool) :
    (mailbox.discardTerminalWhere terminalId predicate).controlFrames = mailbox.controlFrames := rfl

@[simp] theorem otherFrames_discardTerminalWhere (terminalId : String) (predicate : ℕ → Bool) :
    (mailbox.discardTerminalWhere terminalId predicate).otherFrames = mailbox.otherFrames := rfl

end OutboundMailbox
end PiDeck.Outbound
