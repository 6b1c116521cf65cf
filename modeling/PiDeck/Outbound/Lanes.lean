import Mathlib
import PiDeck.Outbound.Mailbox
import PiDeck.Collections.Departures

/-! The four lanes of a mailbox as one queue. Every accepted frame gets a ticket, the number of
frames accepted before it, and the mailbox refines the list of the tickets that wait: each lane
holds its own tickets in order, and a pop takes the ticket the lanes' precedence names. The order
number stored with a frame is its ticket, saturated at the largest `u64`. -/
namespace PiDeck.Outbound

inductive Lane
  | priority
  | reliable
  | legacy
  | history
  deriving DecidableEq

/-- The two lanes a pop merges by order number. -/
def Lane.merged : Lane → Bool
  | .reliable | .legacy => true
  | .priority | .history => false

/-- An accepted frame. -/
structure Entry where
  ticket : ℕ
  lane : Lane
  frame : OutboundFrame
  deriving DecidableEq

/-- The largest order number. -/
def lastOrder : ℕ := 2 ^ 64 - 1

def Entry.queued (entry : Entry) : QueuedFrame := ⟨entry.frame, min entry.ticket lastOrder⟩

/-- The order in which the merged lanes are drained: by ticket, as long as order numbers are
left to tell two tickets apart. -/
def Entry.Before (a b : Entry) : Prop :=
  a.ticket < b.ticket ∨ lastOrder ≤ a.ticket ∧ lastOrder ≤ b.ticket

inductive Enqueue
  | reliablePriority (frame : OutboundFrame)
  | reliable (frame : OutboundFrame)
  | legacy (terminalId : String) (frame : OutboundFrame)
  | historyBatch (frames : List OutboundFrame)

inductive Operation
  | enqueue (enqueue : Enqueue)
  | popNext
  | discardTerminalThrough (terminalId : String) (sequence : ℕ)
  | discardTerminal (terminalId : String)

/-- Consecutive tickets of one lane. -/
def entriesFrom (ticket : ℕ) (lane : Lane) : List OutboundFrame → List Entry
  | [] => []
  | frame :: frames => ⟨ticket, lane, frame⟩ :: entriesFrom (ticket + 1) lane frames

namespace Enqueue

/-- The call of the mailbox. -/
def call (mailbox : OutboundMailbox) : Enqueue → OutboundMailbox × EnqueueResult
  | reliablePriority frame => mailbox.enqueueReliablePriority frame
  | reliable frame => mailbox.enqueueReliable frame
  | legacy terminalId frame => mailbox.enqueueLegacy terminalId frame
  | historyBatch frames => mailbox.enqueueHistoryBatch frames

def lane : Enqueue → Lane
  | reliablePriority _ => .priority
  | reliable _ => .reliable
  | legacy _ _ => .legacy
  | historyBatch _ => .history

/-- The frames the call queues when it is accepted. -/
def frames : Enqueue → List OutboundFrame
  | reliablePriority frame | reliable frame => [frame]
  | legacy terminalId frame => [{ frame with terminalId := some terminalId }]
  | historyBatch frames => frames

end Enqueue

/-- The first ticket of a lane. -/
def front (waiting : List Entry) (lane : Lane) : Option Entry :=
  waiting.find? (·.lane = lane)

/-- The ticket a pop takes: a priority frame, else the older of the first reliable and the first
live frame, else history. -/
def nextEntry (waiting : List Entry) : Option Entry :=
  match front waiting .priority, front waiting .reliable, front waiting .legacy with
  | some p, _, _ => some p
  | none, some r, some l => some (if l.queued.order < r.queued.order then l else r)
  | none, some r, none => some r
  | none, none, some l => some l
  | none, none, none => front waiting .history

/-- A mailbox with the tickets that wait in it and those it has accepted, popped and discarded;
`returned` are the frames its pops gave back. -/
structure Spool where
  mailbox : OutboundMailbox
  accepted : List Entry
  waiting : List Entry
  popped : List Entry
  discarded : List Entry
  returned : List OutboundFrame

namespace Spool

def new (limits : MailboxLimits) : Spool := ⟨.new limits, [], [], [], [], []⟩

def enqueue (spool : Spool) (enqueue : Enqueue) : Spool :=
  let (mailbox, result) := enqueue.call spool.mailbox
  if result.accepted then
    let entries := entriesFrom spool.accepted.length enqueue.lane enqueue.frames
    { spool with
      mailbox := mailbox
      accepted := spool.accepted ++ entries
      waiting := spool.waiting ++ entries }
  else { spool with mailbox := mailbox }

def popNext (spool : Spool) : Spool :=
  match spool.mailbox.popNext with
  | none => spool
  | some (frame, mailbox) =>
    let entry := nextEntry spool.waiting
    { spool with
      mailbox := mailbox
      waiting := spool.waiting.filter fun e => decide (entry ≠ some e)
      popped := spool.popped ++ entry.toList
      returned := spool.returned ++ [frame] }

def discardWhere (spool : Spool) (mailbox : OutboundMailbox) (terminalId : String)
    (predicate : ℕ → Bool) : Spool :=
  let gone (entry : Entry) : Bool :=
    decide (entry.lane = .legacy) && OutboundMailbox.discards terminalId predicate entry.queued
  { spool with
    mailbox := mailbox
    waiting := spool.waiting.filter fun entry => !gone entry
    discarded := spool.discarded ++ spool.waiting.filter gone }

def step (spool : Spool) : Operation → Spool
  | .enqueue enqueue => spool.enqueue enqueue
  | .popNext => spool.popNext
  | .discardTerminalThrough terminalId sequence =>
    spool.discardWhere (spool.mailbox.discardTerminalThrough terminalId sequence) terminalId
      fun value => decide (value ≤ sequence)
  | .discardTerminal terminalId =>
    spool.discardWhere (spool.mailbox.discardTerminal terminalId) terminalId fun _ => true

def run (spool : Spool) (operations : List Operation) : Spool := operations.foldl step spool

end Spool

/-! What the calls do to the lanes of a mailbox. -/

def frameBytes (frames : List QueuedFrame) : ℕ := (frames.map (·.frame.bytes)).sum

@[simp] theorem frameBytes_nil : frameBytes [] = 0 := rfl

@[simp] theorem frameBytes_cons (queued : QueuedFrame) (frames : List QueuedFrame) :
    frameBytes (queued :: frames) = queued.frame.bytes + frameBytes frames := by
  simp [frameBytes]

@[simp] theorem frameBytes_append (left right : List QueuedFrame) :
    frameBytes (left ++ right) = frameBytes left + frameBytes right := by
  simp [frameBytes]

theorem frameBytes_filter (p : QueuedFrame → Bool) (frames : List QueuedFrame) :
    frameBytes (frames.filter p) + frameBytes (frames.filter fun queued => !p queued) =
      frameBytes frames := by
  induction frames with
  | nil => rfl
  | cons queued frames ih =>
    cases hp : p queued <;> simp only [List.filter_cons, hp, Bool.not_true, Bool.not_false,
      if_true, Bool.false_eq_true, if_false, frameBytes_cons] <;> omega

namespace OutboundMailbox

def lane (mailbox : OutboundMailbox) : Lane → List QueuedFrame
  | .priority => mailbox.priority
  | .reliable => mailbox.reliable
  | .legacy => mailbox.legacy
  | .history => mailbox.history

/-- Every counter is the sum of the sizes in its lanes, and within its limit. -/
structure Counted (mailbox : OutboundMailbox) : Prop where
  reliable : mailbox.reliableBytes = frameBytes mailbox.priority + frameBytes mailbox.reliable
  legacy : mailbox.legacyBytes = frameBytes mailbox.legacy
  history : mailbox.historyBytes = frameBytes mailbox.history
  reliableWithin : mailbox.reliableBytes ≤ mailbox.limits.reliableMaxBytes
  legacyWithin : mailbox.legacyBytes ≤ mailbox.limits.legacyMaxBytes
  historyWithin : mailbox.historyBytes ≤ mailbox.limits.historyMaxBytes

theorem counted_new (limits : MailboxLimits) : (new limits).Counted := by
  constructor <;> simp [new]

variable {mailbox after : OutboundMailbox} {frame : OutboundFrame}

/-- The lane a pop takes its frame from. -/
def nextLane (mailbox : OutboundMailbox) : Option Lane :=
  match (mailbox.lane .priority).head?, (mailbox.lane .reliable).head?,
    (mailbox.lane .legacy).head? with
  | some _, _, _ => some .priority
  | none, some r, some l => some (if l.order < r.order then .legacy else .reliable)
  | none, some _, none => some .reliable
  | none, none, some _ => some .legacy
  | none, none, none => (mailbox.lane .history).head?.map fun _ => .history

/-- One frame taken from the head of a lane. -/
structure Takes (mailbox after : OutboundMailbox) (lane : Lane) (frame : OutboundFrame) :
    Prop where
  next : mailbox.nextLane = some lane
  head : ∃ queued, mailbox.lane lane = queued :: after.lane lane ∧ queued.frame = frame
  other : ∀ other, other ≠ lane → after.lane other = mailbox.lane other
  limits : after.limits = mailbox.limits
  nextOrder : after.nextOrder = mailbox.nextOrder
  counted : mailbox.Counted → after.Counted

theorem takes_priority {queued : QueuedFrame} {rest : List QueuedFrame}
    (hp : mailbox.priority = queued :: rest) :
    mailbox.Takes { mailbox with
      priority := rest
      reliableBytes := mailbox.reliableBytes - queued.frame.bytes } .priority queued.frame where
  next := by simp [nextLane, lane, hp]
  head := ⟨queued, hp, rfl⟩
  other := by intro other h; cases other <;> first | rfl | exact absurd rfl h
  limits := rfl
  nextOrder := rfl
  counted := by
    intro h
    have hsum := h.reliable
    rw [hp, frameBytes_cons] at hsum
    have hle := h.reliableWithin
    exact ⟨by dsimp only; omega, h.legacy, h.history, by dsimp only; omega, h.legacyWithin,
      h.historyWithin⟩

theorem takes_reliable {queued : QueuedFrame} {rest : List QueuedFrame}
    (hn : mailbox.nextLane = some .reliable) (hr : mailbox.reliable = queued :: rest) :
    mailbox.Takes { mailbox with
      reliable := rest
      reliableBytes := mailbox.reliableBytes - queued.frame.bytes } .reliable queued.frame where
  next := hn
  head := ⟨queued, hr, rfl⟩
  other := by intro other h; cases other <;> first | rfl | exact absurd rfl h
  limits := rfl
  nextOrder := rfl
  counted := by
    intro h
    have hsum := h.reliable
    rw [hr, frameBytes_cons] at hsum
    have hle := h.reliableWithin
    exact ⟨by dsimp only; omega, h.legacy, h.history, by dsimp only; omega, h.legacyWithin,
      h.historyWithin⟩

theorem takes_legacy {queued : QueuedFrame} {rest : List QueuedFrame}
    (hn : mailbox.nextLane = some .legacy) (hl : mailbox.legacy = queued :: rest) :
    mailbox.Takes { mailbox with
      legacy := rest
      legacyBytes := mailbox.legacyBytes - queued.frame.bytes } .legacy queued.frame where
  next := hn
  head := ⟨queued, hl, rfl⟩
  other := by intro other h; cases other <;> first | rfl | exact absurd rfl h
  limits := rfl
  nextOrder := rfl
  counted := by
    intro h
    have hsum := h.legacy
    rw [hl, frameBytes_cons] at hsum
    have hle := h.legacyWithin
    exact ⟨h.reliable, by dsimp only; omega, h.history, h.reliableWithin, by dsimp only; omega,
      h.historyWithin⟩

theorem takes_history {queued : QueuedFrame} {rest : List QueuedFrame}
    (hn : mailbox.nextLane = some .history) (hh : mailbox.history = queued :: rest) :
    mailbox.Takes { mailbox with
      history := rest
      historyBytes := mailbox.historyBytes - queued.frame.bytes } .history queued.frame where
  next := hn
  head := ⟨queued, hh, rfl⟩
  other := by intro other h; cases other <;> first | rfl | exact absurd rfl h
  limits := rfl
  nextOrder := rfl
  counted := by
    intro h
    have hsum := h.history
    rw [hh, frameBytes_cons] at hsum
    have hle := h.historyWithin
    exact ⟨h.reliable, h.legacy, by dsimp only; omega, h.reliableWithin, h.legacyWithin,
      by dsimp only; omega⟩

/-- A pop takes a frame from the lane `nextLane` names. -/
theorem popNext_takes (h : mailbox.popNext = some (frame, after)) :
    ∃ lane, mailbox.Takes after lane frame := by
  unfold popNext at h
  split at h
  next queued rest hp =>
    obtain ⟨rfl, rfl⟩ := Prod.mk.inj (Option.some.inj h)
    exact ⟨.priority, takes_priority hp⟩
  next hp =>
    dsimp only at h
    split at h
    next r rs l ls hr hl =>
      split at h
      next hlt =>
        obtain ⟨rfl, rfl⟩ := Prod.mk.inj (Option.some.inj h)
        exact ⟨.legacy, takes_legacy (by simp [nextLane, lane, hp, hr, hl, hlt]) hl⟩
      next hlt =>
        obtain ⟨rfl, rfl⟩ := Prod.mk.inj (Option.some.inj h)
        exact ⟨.reliable, takes_reliable (by simp [nextLane, lane, hp, hr, hl, hlt]) hr⟩
    next r rs hr hl =>
      obtain ⟨rfl, rfl⟩ := Prod.mk.inj (Option.some.inj h)
      exact ⟨.reliable, takes_reliable (by simp [nextLane, lane, hp, hr, hl]) hr⟩
    next l ls hr hl =>
      obtain ⟨rfl, rfl⟩ := Prod.mk.inj (Option.some.inj h)
      exact ⟨.legacy, takes_legacy (by simp [nextLane, lane, hp, hr, hl]) hl⟩
    next hr hl =>
      split at h
      next queued rest hh =>
        obtain ⟨rfl, rfl⟩ := Prod.mk.inj (Option.some.inj h)
        exact ⟨.history, takes_history (by simp [nextLane, lane, hp, hr, hl, hh]) hh⟩
      next => cases h

/-- A pop fails only when nothing waits. -/
theorem popNext_eq_none (h : mailbox.popNext = none) (lane : Lane) : mailbox.lane lane = [] := by
  unfold popNext at h
  split at h
  next => cases h
  next hp =>
    dsimp only at h
    split at h
    next => cases h
    next => cases h
    next => cases h
    next hr hl =>
      split at h
      next => cases h
      next hh => cases lane <;> assumption

/-- Frames added at the end of one lane, from the given ticket on. -/
structure Adds (mailbox after : OutboundMailbox) (lane : Lane) (ticket : ℕ)
    (frames : List OutboundFrame) : Prop where
  tail : after.lane lane = mailbox.lane lane ++ (entriesFrom ticket lane frames).map Entry.queued
  other : ∀ other, other ≠ lane → after.lane other = mailbox.lane other
  limits : after.limits = mailbox.limits
  nextOrder : after.nextOrder = min (ticket + frames.length) lastOrder
  counted : mailbox.Counted → after.Counted

variable {ticket : ℕ}

theorem queued_eq (hn : mailbox.nextOrder = min ticket lastOrder) (lane : Lane)
    (frame : OutboundFrame) : mailbox.queued frame = Entry.queued ⟨ticket, lane, frame⟩ := by
  simp [queued, Entry.queued, hn]

theorem advance_nextOrder (hn : mailbox.nextOrder = min ticket lastOrder) :
    mailbox.advance.nextOrder = min (ticket + 1) lastOrder := by
  simp only [advance, hn, lastOrder]
  omega

theorem enqueueReliablePriority_adds (hn : mailbox.nextOrder = min ticket lastOrder)
    (h : (mailbox.enqueueReliablePriority frame).2.accepted = true) :
    mailbox.Adds (mailbox.enqueueReliablePriority frame).1 .priority ticket [frame] := by
  unfold enqueueReliablePriority at h ⊢
  split at h
  next => cases h
  next hfull =>
    rw [if_neg hfull]
    have hfit : ¬ mailbox.limits.reliableMaxBytes < mailbox.reliableBytes + frame.bytes := by
      simp only [reliableFull, decide_eq_true_eq, not_or] at hfull
      exact hfull.2.2
    refine ⟨?_, ?_, rfl, advance_nextOrder hn, fun hc => ?_⟩
    · simp only [lane, entriesFrom, List.map_cons, List.map_nil]
      rw [queued_eq hn .priority]
    · intro other ho
      cases other <;> first | rfl | exact absurd rfl ho
    · have hsum := hc.reliable
      exact ⟨by
        simp only [frameBytes_append, frameBytes_cons, frameBytes_nil, queued]
        dsimp only [advance]
        omega, hc.legacy, hc.history, by dsimp only [advance]; omega, hc.legacyWithin,
        hc.historyWithin⟩

theorem enqueueReliable_adds (hn : mailbox.nextOrder = min ticket lastOrder)
    (h : (mailbox.enqueueReliable frame).2.accepted = true) :
    mailbox.Adds (mailbox.enqueueReliable frame).1 .reliable ticket [frame] := by
  unfold enqueueReliable at h ⊢
  split at h
  next => cases h
  next hfull =>
    rw [if_neg hfull]
    have hfit : ¬ mailbox.limits.reliableMaxBytes < mailbox.reliableBytes + frame.bytes := by
      simp only [reliableFull, decide_eq_true_eq, not_or] at hfull
      exact hfull.2.2
    refine ⟨?_, ?_, rfl, advance_nextOrder hn, fun hc => ?_⟩
    · simp only [lane, entriesFrom, List.map_cons, List.map_nil]
      rw [queued_eq hn .reliable]
    · intro other ho
      cases other <;> first | rfl | exact absurd rfl ho
    · have hsum := hc.reliable
      exact ⟨by
        simp only [frameBytes_append, frameBytes_cons, frameBytes_nil, queued]
        dsimp only [advance]
        omega, hc.legacy, hc.history, by dsimp only [advance]; omega, hc.legacyWithin,
        hc.historyWithin⟩

theorem enqueueLegacy_adds {terminalId : String} (hn : mailbox.nextOrder = min ticket lastOrder)
    (h : (mailbox.enqueueLegacy terminalId frame).2.accepted = true) :
    mailbox.Adds (mailbox.enqueueLegacy terminalId frame).1 .legacy ticket
      [{ frame with terminalId := some terminalId }] := by
  unfold enqueueLegacy at h ⊢
  split at h
  next => cases h
  next hfull =>
    rw [if_neg hfull]
    have hfit : ¬ mailbox.limits.legacyMaxBytes < mailbox.legacyBytes + frame.bytes := by
      simp only [not_or] at hfull
      exact hfull.2.2.2
    refine ⟨?_, ?_, rfl, advance_nextOrder hn, fun hc => ?_⟩
    · simp only [lane, entriesFrom, List.map_cons, List.map_nil]
      rw [queued_eq hn .legacy]
    · intro other ho
      cases other <;> first | rfl | exact absurd rfl ho
    · have hsum := hc.legacy
      have hsize : ({ frame with terminalId := some terminalId } : OutboundFrame).bytes =
          frame.bytes := rfl
      exact ⟨hc.reliable, by
        simp only [frameBytes_append, frameBytes_cons, frameBytes_nil, queued, hsize]
        omega, hc.history, hc.reliableWithin, by dsimp only [advance]; omega, hc.historyWithin⟩

/-- The batch is pushed frame by frame, so its tickets are consecutive. -/
theorem foldl_pushHistory_adds (frames : List OutboundFrame) (mailbox : OutboundMailbox)
    (ticket : ℕ) (hn : mailbox.nextOrder = min ticket lastOrder) :
    let pushed := frames.foldl pushHistory mailbox
    pushed = { mailbox with
      history := mailbox.history ++ (entriesFrom ticket .history frames).map Entry.queued
      nextOrder := min (ticket + frames.length) lastOrder } := by
  induction frames generalizing mailbox ticket with
  | nil =>
    simp only [List.foldl_nil, entriesFrom, List.map_nil, List.append_nil, List.length_nil,
      Nat.add_zero, ← hn]
  | cons frame frames ih =>
    dsimp only [List.foldl_cons]
    rw [ih (mailbox.pushHistory frame) (ticket + 1) (advance_nextOrder hn)]
    simp only [pushHistory, advance, entriesFrom, List.map_cons, queued_eq hn .history,
      List.append_assoc, List.singleton_append, List.length_cons]
    rw [Nat.add_right_comm, Nat.add_assoc]

theorem frameBytes_entriesFrom (ticket : ℕ) (lane : Lane) (frames : List OutboundFrame) :
    frameBytes ((entriesFrom ticket lane frames).map Entry.queued) =
      (frames.map (·.bytes)).sum := by
  induction frames generalizing ticket with
  | nil => rfl
  | cons frame frames ih =>
    rw [entriesFrom, List.map_cons, frameBytes_cons, ih, List.map_cons, List.sum_cons]
    rfl

theorem enqueueHistoryBatch_adds {frames : List OutboundFrame}
    (hn : mailbox.nextOrder = min ticket lastOrder)
    (h : (mailbox.enqueueHistoryBatch frames).2.accepted = true) :
    mailbox.Adds (mailbox.enqueueHistoryBatch frames).1 .history ticket frames := by
  unfold enqueueHistoryBatch at h ⊢
  dsimp only at h ⊢
  split at h
  next => cases h
  next hfull =>
    rw [if_neg hfull]
    have hfit : ¬ mailbox.limits.historyMaxBytes <
        mailbox.historyBytes + (frames.map (·.bytes)).sum := by
      simp only [not_or] at hfull
      exact hfull.2.2
    have hpush := foldl_pushHistory_adds frames mailbox ticket hn
    dsimp only at hpush
    rw [hpush]
    refine ⟨rfl, ?_, rfl, rfl, fun hc => ?_⟩
    · intro other ho
      cases other <;> first | rfl | exact absurd rfl ho
    · have hsum := hc.history
      exact ⟨hc.reliable, hc.legacy, by
        simp only [frameBytes_append, frameBytes_entriesFrom]
        omega, hc.reliableWithin, hc.legacyWithin, by dsimp only; omega⟩

end OutboundMailbox

open OutboundMailbox in
/-- An accepted call adds its frames to its lane. -/
theorem Enqueue.call_adds {mailbox : OutboundMailbox} {ticket : ℕ} {enqueue : Enqueue}
    (hn : mailbox.nextOrder = min ticket lastOrder)
    (h : (enqueue.call mailbox).2.accepted = true) :
    mailbox.Adds (enqueue.call mailbox).1 enqueue.lane ticket enqueue.frames := by
  cases enqueue with
  | reliablePriority frame => exact enqueueReliablePriority_adds hn h
  | reliable frame => exact enqueueReliable_adds hn h
  | legacy terminalId frame => exact enqueueLegacy_adds hn h
  | historyBatch frames => exact enqueueHistoryBatch_adds hn h

/-- A refused call leaves the mailbox as it was. -/
theorem Enqueue.call_refused {mailbox : OutboundMailbox} {enqueue : Enqueue}
    (h : (enqueue.call mailbox).2.accepted = false) : (enqueue.call mailbox).1 = mailbox := by
  cases enqueue with
  | reliablePriority frame =>
    exact (OutboundMailbox.enqueueReliablePriority_spec mailbox frame).2.1 h
  | reliable frame =>
    simp only [call, OutboundMailbox.enqueueReliable] at h ⊢
    split at h
    next hfull => rw [if_pos hfull]
    next => cases h
  | legacy terminalId frame =>
    exact (OutboundMailbox.enqueueLegacy_spec mailbox terminalId frame).2.1 h
  | historyBatch frames =>
    simp only [call, OutboundMailbox.enqueueHistoryBatch] at h ⊢
    split at h
    next hfull => rw [if_pos hfull]
    next => cases h

/-! The tickets of a queue, in order. -/

theorem length_entriesFrom (ticket : ℕ) (lane : Lane) (frames : List OutboundFrame) :
    (entriesFrom ticket lane frames).length = frames.length := by
  induction frames generalizing ticket with
  | nil => rfl
  | cons frame frames ih => simp [entriesFrom, ih]

theorem map_ticket_entriesFrom (ticket : ℕ) (lane : Lane) (frames : List OutboundFrame) :
    (entriesFrom ticket lane frames).map Entry.ticket = List.range' ticket frames.length := by
  induction frames generalizing ticket with
  | nil => rfl
  | cons frame frames ih => simp [entriesFrom, ih, List.range'_succ]

theorem mem_entriesFrom {ticket : ℕ} {lane : Lane} {frames : List OutboundFrame} {entry : Entry}
    (h : entry ∈ entriesFrom ticket lane frames) :
    entry.lane = lane ∧ ticket ≤ entry.ticket ∧ entry.ticket < ticket + frames.length := by
  induction frames generalizing ticket with
  | nil => exact absurd h List.not_mem_nil
  | cons frame frames ih =>
    simp only [entriesFrom, List.mem_cons] at h
    rcases h with rfl | h
    · exact ⟨rfl, le_rfl, by simp⟩
    · obtain ⟨hl, hle, hlt⟩ := ih h
      exact ⟨hl, by omega, by simp only [List.length_cons]; omega⟩

theorem pairwise_entriesFrom (ticket : ℕ) (lane : Lane) (frames : List OutboundFrame) :
    (entriesFrom ticket lane frames).Pairwise (·.ticket < ·.ticket) := by
  induction frames generalizing ticket with
  | nil => exact .nil
  | cons frame frames ih =>
    refine .cons (fun entry h => ?_) (ih (ticket + 1))
    have hle := (mem_entriesFrom h).2.1
    dsimp only
    omega

/-- Tickets wait in the order they were given. -/
def InOrder (waiting : List Entry) : Prop := waiting.Pairwise (·.ticket < ·.ticket)

namespace InOrder
variable {waiting : List Entry} {lane : Lane} {e w : Entry}

theorem eq_of_ticket (h : InOrder waiting) (he : e ∈ waiting) (hw : w ∈ waiting)
    (heq : e.ticket = w.ticket) : e = w := by
  obtain ⟨before, after, rfl⟩ := List.append_of_mem he
  obtain ⟨-, hafter, hcross⟩ := List.pairwise_append.mp h
  rcases List.mem_append.mp hw with hw | hw
  · have hlt := hcross w hw e List.mem_cons_self
    omega
  · rcases List.mem_cons.mp hw with rfl | hw
    · rfl
    · have hlt := (List.pairwise_cons.mp hafter).1 w hw
      omega

/-- The first ticket of a lane is the head of that lane, and leaves the others as they are. -/
theorem front_spec (h : InOrder waiting) (hf : front waiting lane = some e) :
    e ∈ waiting ∧ e.lane = lane ∧
    waiting.filter (·.lane = lane) =
      e :: (waiting.filter fun w => decide (some e ≠ some w)).filter (·.lane = lane) ∧
    ∀ other, other ≠ lane →
      (waiting.filter fun w => decide (some e ≠ some w)).filter (·.lane = other) =
        waiting.filter (·.lane = other) := by
  obtain ⟨hlane, before, after, rfl, hbefore⟩ := List.find?_eq_some_iff_append.mp hf
  have hlane : e.lane = lane := by simpa using hlane
  obtain ⟨-, hafter, hcross⟩ := List.pairwise_append.mp h
  have hrest : (before ++ e :: after).filter (fun w => decide (some e ≠ some w)) =
      before ++ after := by
    have hb : before.filter (fun w => decide (some e ≠ some w)) = before :=
      List.filter_eq_self.mpr fun w hw => by
        have hlt := hcross w hw e List.mem_cons_self
        simp only [ne_eq, Option.some.injEq, decide_not, Bool.not_eq_true', decide_eq_false_iff_not]
        rintro rfl
        omega
    have ha : after.filter (fun w => decide (some e ≠ some w)) = after :=
      List.filter_eq_self.mpr fun w hw => by
        have hlt := (List.pairwise_cons.mp hafter).1 w hw
        simp only [ne_eq, Option.some.injEq, decide_not, Bool.not_eq_true', decide_eq_false_iff_not]
        rintro rfl
        omega
    rw [List.filter_append, List.filter_cons, hb, ha]
    simp
  refine ⟨by simp, hlane, ?_, fun other hother => ?_⟩
  · have hnone : before.filter (fun w => decide (w.lane = lane)) = [] :=
      List.filter_eq_nil_iff.mpr fun w hw => by simpa using hbefore w hw
    rw [hrest, List.filter_append, List.filter_append, hnone, List.filter_cons]
    simp [hlane]
  · have hne : ¬ e.lane = other := fun heq => hother (heq.symm.trans hlane)
    rw [hrest, List.filter_append, List.filter_append, List.filter_cons]
    simp [hne]

/-- A waiting ticket and the others. -/
theorem perm_cons (h : InOrder waiting) (he : e ∈ waiting) :
    (e :: waiting.filter fun w => decide (some e ≠ some w)).Perm waiting := by
  have hnodup : waiting.Nodup := h.imp fun {a b} hab heq => by
    rw [heq] at hab
    exact lt_irrefl _ hab
  have herase : waiting.filter (fun w => decide (some e ≠ some w)) = waiting.erase e := by
    rw [hnodup.erase_eq_filter]
    apply List.filter_congr
    intro w _
    simp only [ne_eq, Option.some.injEq, bne, beq_eq_decide, decide_not, eq_comm]
  rw [herase]
  exact (List.perm_cons_erase he).symm

theorem front_le (h : InOrder waiting) (hf : front waiting lane = some e) (hw : w ∈ waiting)
    (hl : w.lane = lane) (hne : w ≠ e) : e.ticket < w.ticket := by
  obtain ⟨-, before, after, rfl, hbefore⟩ := List.find?_eq_some_iff_append.mp hf
  rcases List.mem_append.mp hw with hw | hw
  · exact absurd hl (by simpa using hbefore w hw)
  · rcases List.mem_cons.mp hw with rfl | hw
    · exact absurd rfl hne
    · exact (List.pairwise_cons.mp (List.pairwise_append.mp h).2.1).1 w hw

theorem front_none (hf : front waiting lane = none) (hw : w ∈ waiting) : w.lane ≠ lane := by
  simpa using List.find?_eq_none.mp hf w hw

/-- The precedence of a pop over the tickets that stay. -/
structure Precedes (e w : Entry) : Prop where
  lane : e.lane = w.lane → e.ticket < w.ticket
  merged : e.lane.merged = true → w.lane.merged = true → e.Before w
  priority : e.lane ≠ .priority → w.lane ≠ .priority
  history : e.lane = .history → w.lane = .history

theorem nextEntry_precedes (h : InOrder waiting) (hn : nextEntry waiting = some e)
    (hw : w ∈ waiting) (hne : w ≠ e) : Precedes e w := by
  unfold nextEntry at hn
  split at hn
  next p _ _ hp =>
    obtain rfl := Option.some.inj hn
    have hl := (h.front_spec hp).2.1
    refine ⟨fun heq => h.front_le hp hw (heq.symm.trans hl) hne, fun hm => ?_, fun hnp => ?_,
      fun hh => ?_⟩
    · rw [hl] at hm
      cases hm
    · exact absurd hl hnp
    · rw [hl] at hh
      cases hh
  next r l hp hr hl =>
    obtain ⟨hmr, hlr, -⟩ := h.front_spec hr
    obtain ⟨hml, hll, -⟩ := h.front_spec hl
    have hnp := front_none hp hw
    have hsame : w.lane = e.lane → e.ticket < w.ticket := by
      intro heq
      split at hn
      · obtain rfl := Option.some.inj hn
        exact h.front_le hl hw (heq.trans hll) hne
      · obtain rfl := Option.some.inj hn
        exact h.front_le hr hw (heq.trans hlr) hne
    have hel : e.lane = .reliable ∨ e.lane = .legacy := by
      split at hn <;> obtain rfl := Option.some.inj hn
      · exact .inr hll
      · exact .inl hlr
    refine ⟨fun heq => hsame heq.symm, fun _ hm => ?_, fun _ => hnp, fun hh => ?_⟩
    · -- The other merged lane's front is not older than `e` by order number.
      by_cases heq : w.lane = e.lane
      · exact .inl (hsame heq)
      · split at hn
        next hlt =>
          obtain rfl := Option.some.inj hn
          have hwr : w.lane = .reliable := by
            cases hlane : w.lane <;> simp_all [Lane.merged]
          have hle : r.ticket ≤ w.ticket := by
            by_cases hwe : w = r
            · rw [hwe]
            · exact (h.front_le hr hw hwr hwe).le
          simp only [Entry.queued] at hlt
          left
          omega
        next hlt =>
          obtain rfl := Option.some.inj hn
          have hwl : w.lane = .legacy := by
            cases hlane : w.lane <;> simp_all [Lane.merged]
          have hle : l.ticket ≤ w.ticket := by
            by_cases hwe : w = l
            · rw [hwe]
            · exact (h.front_le hl hw hwl hwe).le
          have htick : r.ticket ≠ w.ticket := fun heq => hne (h.eq_of_ticket hmr hw heq).symm
          simp only [Entry.queued] at hlt
          simp only [Entry.Before]
          omega
    · rcases hel with hel | hel <;> rw [hel] at hh <;> cases hh
  next r hp hr hl =>
    obtain rfl := Option.some.inj hn
    have hlr := (h.front_spec hr).2.1
    have hsame : w.lane = .reliable → r.ticket < w.ticket := fun heq => h.front_le hr hw heq hne
    refine ⟨fun heq => hsame (heq.symm.trans hlr), fun _ hm => .inl (hsame ?_),
      fun _ => front_none hp hw, fun hh => ?_⟩
    · have hnl := front_none hl hw
      cases hlane : w.lane <;> simp_all [Lane.merged]
    · rw [hlr] at hh
      cases hh
  next l hp hr hl =>
    obtain rfl := Option.some.inj hn
    have hll := (h.front_spec hl).2.1
    have hsame : w.lane = .legacy → l.ticket < w.ticket := fun heq => h.front_le hl hw heq hne
    refine ⟨fun heq => hsame (heq.symm.trans hll), fun _ hm => .inl (hsame ?_),
      fun _ => front_none hp hw, fun hh => ?_⟩
    · have hnr := front_none hr hw
      cases hlane : w.lane <;> simp_all [Lane.merged]
    · rw [hll] at hh
      cases hh
  next hp hr hl =>
    have hlh := (h.front_spec hn).2.1
    have hwh : w.lane = .history := by
      have h₁ := front_none hp hw
      have h₂ := front_none hr hw
      have h₃ := front_none hl hw
      cases hlane : w.lane <;> simp_all
    refine ⟨fun _ => h.front_le hn hw hwh hne, fun hm => ?_, fun _ => front_none hp hw,
      fun _ => hwh⟩
    rw [hlh] at hm
    cases hm

end InOrder

/-- The mailbox holds the waiting tickets, lane by lane. -/
structure Refines (mailbox : OutboundMailbox) (accepted waiting : List Entry) : Prop where
  lane : ∀ lane, mailbox.lane lane = (waiting.filter (·.lane = lane)).map Entry.queued
  nextOrder : mailbox.nextOrder = min accepted.length lastOrder
  counted : mailbox.Counted
  inOrder : InOrder waiting
  below : ∀ entry ∈ waiting, entry.ticket < accepted.length

namespace Refines
variable {mailbox after : OutboundMailbox} {accepted waiting : List Entry} {frame : OutboundFrame}

theorem new (limits : MailboxLimits) : Refines (.new limits) [] [] where
  lane lane := by cases lane <;> rfl
  nextOrder := rfl
  counted := OutboundMailbox.counted_new limits
  inOrder := .nil
  below := fun _ h => absurd h List.not_mem_nil

theorem head?_lane (h : Refines mailbox accepted waiting) (lane : Lane) :
    (mailbox.lane lane).head? = (front waiting lane).map Entry.queued := by
  rw [h.lane, List.head?_map, List.head?_filter]
  rfl

/-- The two descriptions of what a pop takes. -/
theorem nextEntry_eq (h : Refines mailbox accepted waiting) :
    nextEntry waiting = mailbox.nextLane.bind (front waiting) := by
  unfold nextEntry OutboundMailbox.nextLane
  simp only [h.head?_lane]
  cases hp : front waiting .priority with
  | some p => simp [hp]
  | none =>
    cases hr : front waiting .reliable with
    | some r =>
      cases hl : front waiting .legacy with
      | some l =>
        by_cases hlt : l.queued.order < r.queued.order <;> simp [hlt, hr, hl]
      | none => simp [hr]
    | none =>
      cases hl : front waiting .legacy with
      | some l => simp [hl]
      | none => cases hh : front waiting .history <;> simp [hh]

theorem popNext (h : Refines mailbox accepted waiting)
    (hpop : mailbox.popNext = some (frame, after)) :
    ∃ e, nextEntry waiting = some e ∧ e ∈ waiting ∧ e.frame = frame ∧
      Refines after accepted (waiting.filter fun w => decide (some e ≠ some w)) := by
  obtain ⟨lane, htakes⟩ := OutboundMailbox.popNext_takes hpop
  obtain ⟨queued, hhead, hframe⟩ := htakes.head
  have hfront : (front waiting lane).map Entry.queued = some queued := by
    rw [← h.head?_lane, hhead]
    rfl
  obtain ⟨e, he, rfl⟩ := Option.map_eq_some_iff.mp hfront
  obtain ⟨hmem, hl, hsame, hother⟩ := h.inOrder.front_spec he
  refine ⟨e, ?_, hmem, hframe, ?_, ?_, htakes.counted h.counted, h.inOrder.filter _, ?_⟩
  · rw [h.nextEntry_eq, htakes.next]
    exact he
  · intro other
    by_cases heq : other = lane
    · subst heq
      have hrest := h.lane other
      rw [hhead, hsame, List.map_cons] at hrest
      exact (List.cons.inj hrest).2
    · rw [htakes.other other heq, h.lane other, hother other heq]
  · rw [htakes.nextOrder, h.nextOrder]
  · intro w hw
    exact h.below w (List.mem_of_mem_filter hw)

theorem popNext_none (h : Refines mailbox accepted waiting) (hpop : mailbox.popNext = none) :
    waiting = [] := by
  apply List.eq_nil_iff_forall_not_mem.mpr
  intro e he
  have hempty := h.lane e.lane
  rw [OutboundMailbox.popNext_eq_none hpop e.lane] at hempty
  have hmem : e.queued ∈ (waiting.filter (·.lane = e.lane)).map Entry.queued :=
    List.mem_map_of_mem (List.mem_filter.mpr ⟨he, by simp⟩)
  rw [← hempty] at hmem
  exact absurd hmem List.not_mem_nil

theorem enqueue (h : Refines mailbox accepted waiting) {enqueue : Enqueue}
    (hacc : (enqueue.call mailbox).2.accepted = true) :
    let entries := entriesFrom accepted.length enqueue.lane enqueue.frames
    Refines (enqueue.call mailbox).1 (accepted ++ entries) (waiting ++ entries) := by
  have hadds := Enqueue.call_adds h.nextOrder hacc
  have hsame : (entriesFrom accepted.length enqueue.lane enqueue.frames).filter
      (·.lane = enqueue.lane) = entriesFrom accepted.length enqueue.lane enqueue.frames :=
    List.filter_eq_self.mpr fun e he => by simpa using (mem_entriesFrom he).1
  refine ⟨fun lane => ?_, ?_, hadds.counted h.counted, ?_, fun e he => ?_⟩
  · rw [List.filter_append, List.map_append, ← h.lane]
    by_cases heq : lane = enqueue.lane
    · subst heq
      rw [hadds.tail, hsame]
    · have hnone : (entriesFrom accepted.length enqueue.lane enqueue.frames).filter
          (·.lane = lane) = [] :=
        List.filter_eq_nil_iff.mpr fun e he => by
          have hl := (mem_entriesFrom he).1
          simpa using fun hcontra => heq (hcontra.symm.trans hl)
      rw [hadds.other lane heq, hnone, List.map_nil, List.append_nil]
  · rw [hadds.nextOrder, List.length_append, length_entriesFrom]
  · refine List.pairwise_append.mpr ⟨h.inOrder, pairwise_entriesFrom _ _ _, fun a ha b hb => ?_⟩
    have hlt := h.below a ha
    have hle := (mem_entriesFrom hb).2.1
    omega
  · rw [List.length_append, length_entriesFrom]
    rcases List.mem_append.mp he with he | he
    · have hlt := h.below e he
      omega
    · exact (mem_entriesFrom he).2.2

theorem discardWhere (h : Refines mailbox accepted waiting) (terminalId : String)
    (predicate : ℕ → Bool) :
    Refines (mailbox.discardTerminalWhere terminalId predicate) accepted
      (waiting.filter fun entry => !(decide (entry.lane = .legacy) &&
        OutboundMailbox.discards terminalId predicate entry.queued)) where
  lane lane := by
    rw [List.filter_filter]
    have hlane := h.lane lane
    cases lane with
    | legacy =>
      change mailbox.legacy = _ at hlane
      change mailbox.legacy.filter _ = _
      rw [hlane, List.filter_map, List.filter_filter]
      congr 1
      apply List.filter_congr
      intro entry _
      by_cases hl : entry.lane = .legacy <;> simp [hl]
    | priority | reliable | history =>
      refine hlane.trans (congrArg _ (List.filter_congr fun entry _ => ?_))
      by_cases hl : entry.lane = .legacy <;> simp [hl]
  nextOrder := h.nextOrder
  counted := by
    have hc := h.counted
    have hsum := frameBytes_filter (OutboundMailbox.discards terminalId predicate) mailbox.legacy
    have hle := hc.legacyWithin
    have heq := hc.legacy
    simp only [frameBytes] at hsum heq
    exact ⟨hc.reliable, by
      simp only [OutboundMailbox.discardTerminalWhere, frameBytes]
      omega, hc.history, hc.reliableWithin, by
      simp only [OutboundMailbox.discardTerminalWhere]
      omega, hc.historyWithin⟩
  inOrder := h.inOrder.filter _
  below := fun entry he => h.below entry (List.mem_of_mem_filter he)

end Refines

namespace OutboundMailbox

/-- Only live frames of one terminal are missing. -/
structure DiscardsOnly (mailbox after : OutboundMailbox) (terminalId : String) : Prop where
  other : ∀ lane, lane ≠ .legacy → after.lane lane = mailbox.lane lane
  sublist : after.legacy.Sublist mailbox.legacy
  kept : ∀ queued ∈ mailbox.legacy, queued.frame.terminalId ≠ some terminalId →
    queued ∈ after.legacy

theorem discardsOnly (mailbox : OutboundMailbox) (terminalId : String) (predicate : ℕ → Bool) :
    mailbox.DiscardsOnly (mailbox.discardTerminalWhere terminalId predicate) terminalId where
  other lane h := by
    cases lane <;> first | rfl | exact absurd rfl h
  sublist := List.filter_sublist
  kept queued hq hne := by
    refine List.mem_filter.mpr ⟨hq, ?_⟩
    simp [discards, hne]

end OutboundMailbox

open Collections in
/-- What holds of a mailbox and its tickets at every moment. -/
structure Spool.Exact (limits : MailboxLimits) (spool : Spool) : Prop where
  refines : Refines spool.mailbox spool.accepted spool.waiting
  limits : spool.mailbox.limits = limits
  tickets : spool.accepted.map Entry.ticket = List.range spool.accepted.length
  complete : (spool.popped ++ spool.discarded ++ spool.waiting).Perm spool.accepted
  returned : spool.returned = spool.popped.map (·.frame)
  lanes : ∀ lane, Departed (·.lane = lane) (·.ticket < ·.ticket) spool.popped spool.waiting
  merged : Departed (·.lane.merged) Entry.Before spool.popped spool.waiting

namespace Spool
open Collections
variable {limits : MailboxLimits} {spool : Spool}

theorem exact_new (limits : MailboxLimits) : (new limits).Exact limits where
  refines := .new limits
  limits := rfl
  tickets := rfl
  complete := .nil
  returned := rfl
  lanes _ := .nil
  merged := .nil

namespace Exact

theorem ticket_lt (h : spool.Exact limits) {entry : Entry} (he : entry ∈ spool.popped) :
    entry.ticket < spool.accepted.length := by
  have hmem : entry ∈ spool.accepted :=
    h.complete.subset (List.mem_append_left _ (List.mem_append_left _ he))
  have hticket := List.mem_map_of_mem (f := Entry.ticket) hmem
  rw [h.tickets, List.mem_range] at hticket
  exact hticket

theorem enqueue (h : spool.Exact limits) (enqueue : Enqueue) :
    (spool.enqueue enqueue).Exact limits := by
  unfold Spool.enqueue
  dsimp only
  cases hacc : (enqueue.call spool.mailbox).2.accepted with
  | false =>
    rw [Enqueue.call_refused hacc]
    exact h
  | true =>
    rw [if_pos rfl]
    have hlater : ∀ a ∈ spool.popped,
        ∀ b ∈ entriesFrom spool.accepted.length enqueue.lane enqueue.frames,
        a.ticket < b.ticket := by
      intro a ha b hb
      have hlt := h.ticket_lt ha
      have hle := (mem_entriesFrom hb).2.1
      omega
    refine ⟨h.refines.enqueue hacc, (Enqueue.call_adds h.refines.nextOrder hacc).limits.trans
      h.limits, ?_, ?_, h.returned, fun lane => ?_, ?_⟩
    · rw [List.map_append, h.tickets, map_ticket_entriesFrom, List.length_append,
        length_entriesFrom, List.range_eq_range', List.range_eq_range', ← List.range'_append_1,
        Nat.zero_add]
    · rw [← List.append_assoc]
      exact h.complete.append_right _
    · exact (h.lanes lane).join fun a ha b hb _ _ => hlater a ha b hb
    · exact h.merged.join fun a ha b hb _ _ => .inl (hlater a ha b hb)

theorem popNext (h : spool.Exact limits) : spool.popNext.Exact limits := by
  unfold Spool.popNext
  split
  next => exact h
  next frame after hpop =>
    obtain ⟨lane, htakes⟩ := OutboundMailbox.popNext_takes hpop
    obtain ⟨e, he, hmem, rfl, hrefines⟩ := h.refines.popNext hpop
    have hsub : ∀ w ∈ spool.waiting.filter (fun w => decide (some e ≠ some w)),
        w ∈ spool.waiting := fun w hw => List.mem_of_mem_filter hw
    have hprecedes : ∀ w ∈ spool.waiting.filter (fun w => decide (some e ≠ some w)),
        InOrder.Precedes e w := by
      intro w hw
      have hne : some e ≠ some w := by simpa using (List.mem_filter.mp hw).2
      exact h.refines.inOrder.nextEntry_precedes he (hsub w hw) fun heq => hne (heq ▸ rfl)
    dsimp only
    rw [he]
    refine ⟨hrefines, htakes.limits.trans h.limits, h.tickets, ?_, ?_, fun other => ?_, ?_⟩
    · have hwaiting := (h.refines.inOrder.perm_cons hmem).append_left spool.discarded
      have hmoved : (e :: (spool.discarded ++
          spool.waiting.filter fun w => decide (some e ≠ some w))).Perm
          (spool.discarded ++ spool.waiting) := List.perm_middle.symm.trans hwaiting
      have hcomplete := h.complete
      rw [List.append_assoc] at hcomplete
      have hall := (hmoved.append_left spool.popped).trans hcomplete
      simpa only [Option.toList_some, List.append_assoc, List.cons_append,
        List.nil_append] using hall
    · rw [h.returned]
      simp
    · exact (h.lanes other).leave hmem hsub fun w hw hpe hpw =>
        (hprecedes w hw).lane ((of_decide_eq_true hpe).trans (of_decide_eq_true hpw).symm)
    · exact h.merged.leave hmem hsub fun w hw => (hprecedes w hw).merged

theorem discardWhere (h : spool.Exact limits) (terminalId : String) (predicate : ℕ → Bool) :
    (spool.discardWhere (spool.mailbox.discardTerminalWhere terminalId predicate) terminalId
      predicate).Exact limits := by
  have hsub : ∀ (p : Entry → Bool), ∀ w ∈ spool.waiting.filter p, w ∈ spool.waiting :=
    fun p w hw => List.mem_of_mem_filter hw
  refine ⟨h.refines.discardWhere terminalId predicate, h.limits, h.tickets, ?_, h.returned,
    fun lane => (h.lanes lane).abandon (hsub _), h.merged.abandon (hsub _)⟩
  refine .trans ?_ h.complete
  simp only [Spool.discardWhere, List.append_assoc]
  exact ((List.filter_append_perm _ spool.waiting).append_left _).append_left _

theorem step (h : spool.Exact limits) (operation : Operation) :
    (spool.step operation).Exact limits := by
  cases operation with
  | enqueue enqueue => exact h.enqueue enqueue
  | popNext => exact h.popNext
  | discardTerminalThrough terminalId sequence => exact h.discardWhere terminalId _
  | discardTerminal terminalId => exact h.discardWhere terminalId _

theorem run (h : spool.Exact limits) (operations : List Operation) :
    (spool.run operations).Exact limits := by
  induction operations generalizing spool with
  | nil => exact h
  | cons operation operations ih => exact ih (h.step operation)

/-- History is popped only when no other lane has a frame. -/
theorem history_last (h : spool.Exact limits) {frame : OutboundFrame} {after : OutboundMailbox}
    (hpop : spool.mailbox.popNext = some (frame, after))
    (hhistory : after.lane .history ≠ spool.mailbox.lane .history) (lane : Lane)
    (hlane : lane ≠ .history) : spool.mailbox.lane lane = [] := by
  obtain ⟨taken, htakes⟩ := OutboundMailbox.popNext_takes hpop
  have htaken : taken = .history := by
    by_contra hne
    exact hhistory (htakes.other .history (fun heq => hne heq.symm))
  have hnext := htakes.next
  rw [htaken] at hnext
  have he := h.refines.nextEntry_eq
  rw [hnext] at he
  obtain ⟨queued, hhead, -⟩ := htakes.head
  have hfront := h.refines.head?_lane .history
  rw [← htaken, hhead, List.head?_cons] at hfront
  obtain ⟨e, hf, -⟩ := Option.map_eq_some_iff.mp hfront.symm
  rw [htaken] at hf
  obtain ⟨-, hl, -⟩ := h.refines.inOrder.front_spec hf
  rw [h.refines.lane]
  refine List.map_eq_nil_iff.mpr (List.filter_eq_nil_iff.mpr fun w hw => ?_)
  by_cases hwe : w = e
  · rw [hwe, hl]
    simpa using fun heq => hlane heq.symm
  · have hprecedes := h.refines.inOrder.nextEntry_precedes (he.trans hf) hw hwe
    rw [hprecedes.history hl]
    simpa using fun heq => hlane heq.symm

/-- Popping until nothing waits gives back every frame that has not been discarded. -/
theorem drains (h : spool.Exact limits) :
    let drained := spool.run (List.replicate spool.waiting.length .popNext)
    drained.waiting = [] ∧ drained.discarded = spool.discarded ∧
      drained.accepted = spool.accepted := by
  induction hn : spool.waiting.length generalizing spool with
  | zero => exact ⟨List.length_eq_zero_iff.mp hn, rfl, rfl⟩
  | succ n ih =>
    have hstep : spool.popNext.waiting.length = n ∧
        spool.popNext.discarded = spool.discarded ∧
        spool.popNext.accepted = spool.accepted := by
      unfold Spool.popNext
      split
      next hpop =>
        rw [h.refines.popNext_none hpop] at hn
        cases hn
      next frame after hpop =>
        obtain ⟨e, he, hmem, -, -⟩ := h.refines.popNext hpop
        have hlen := (h.refines.inOrder.perm_cons hmem).length_eq
        rw [List.length_cons, hn] at hlen
        refine ⟨?_, rfl, rfl⟩
        dsimp only
        rw [he]
        omega
    obtain ⟨hw, hd, ha⟩ := ih h.popNext hstep.1
    rw [List.replicate_succ]
    exact ⟨hw, hd.trans hstep.2.1, ha.trans hstep.2.2⟩

end Exact

open OutboundMailbox in
/-- After any calls, on any mailbox. Each counter is the sum of the sizes in its lanes and within
its limit; a refused call changes nothing; every accepted frame has been popped, been discarded
or waits, in its lane, once, and popping drains what waits; a lane's frames leave in the order
they came, and the reliable and live frames together do while order numbers last; history is
popped from an otherwise empty mailbox; a discard removes live frames of its terminal only. -/
theorem lanes_exact (limits : MailboxLimits) (operations : List Operation) :
    let spool := (Spool.new limits).run operations
    (spool.mailbox.Counted ∧ spool.mailbox.limits = limits) ∧
    (∀ enqueue : Enqueue, (enqueue.call spool.mailbox).2.accepted = false →
      (enqueue.call spool.mailbox).1 = spool.mailbox) ∧
    (spool.accepted.map Entry.ticket = List.range spool.accepted.length ∧
      (spool.popped ++ spool.discarded ++ spool.waiting).Perm spool.accepted ∧
      spool.returned = spool.popped.map (·.frame) ∧
      (∀ lane, spool.mailbox.lane lane =
        (spool.waiting.filter (·.lane = lane)).map Entry.queued) ∧
      (spool.run (List.replicate spool.waiting.length .popNext)).waiting = []) ∧
    (∀ lane, Departed (·.lane = lane) (·.ticket < ·.ticket) spool.popped spool.waiting) ∧
    Departed (·.lane.merged) Entry.Before spool.popped spool.waiting ∧
    (∀ frame after, spool.mailbox.popNext = some (frame, after) →
      after.lane .history ≠ spool.mailbox.lane .history →
      ∀ lane, lane ≠ .history → spool.mailbox.lane lane = []) ∧
    (∀ terminalId sequence,
      spool.mailbox.DiscardsOnly (spool.mailbox.discardTerminalThrough terminalId sequence)
        terminalId ∧
      spool.mailbox.DiscardsOnly (spool.mailbox.discardTerminal terminalId) terminalId) := by
  intro spool
  have h : spool.Exact limits := (exact_new limits).run operations
  refine ⟨⟨h.refines.counted, h.limits⟩, fun enqueue hrefused => Enqueue.call_refused hrefused,
    ⟨h.tickets, h.complete, h.returned, h.refines.lane, h.drains.1⟩, h.lanes, h.merged,
    fun frame after hpop hhistory lane => h.history_last hpop hhistory lane,
    fun terminalId sequence => ⟨?_, ?_⟩⟩
  · exact discardsOnly spool.mailbox terminalId _
  · exact discardsOnly spool.mailbox terminalId _

/-- `n` frames enqueued and popped one by one. -/
def rounds (frame : OutboundFrame) (n : ℕ) : List Operation :=
  (List.replicate n [.enqueue (.reliable frame), .popNext]).flatten

theorem popNext_singleton (mailbox : OutboundMailbox) (frame : OutboundFrame)
    (hempty : ∀ lane, mailbox.lane lane = [])
    (hacc : (mailbox.enqueueReliable frame).2.accepted = true) :
    (mailbox.enqueueReliable frame).1.popNext = some (frame, mailbox.advance) := by
  have hp : mailbox.priority = [] := hempty .priority
  have hr : mailbox.reliable = [] := hempty .reliable
  have hl : mailbox.legacy = [] := hempty .legacy
  unfold OutboundMailbox.enqueueReliable at hacc ⊢
  split at hacc
  next => cases hacc
  next hfull =>
    rw [if_neg hfull]
    simp [OutboundMailbox.popNext, OutboundMailbox.advance, OutboundMailbox.queued, hp, hr, hl]

/-- An empty mailbox of the default limits that has accepted `n` frames. -/
structure Idle (spool : Spool) (n : ℕ) : Prop where
  mailbox : spool.mailbox = { OutboundMailbox.new default with nextOrder := min n lastOrder }
  accepted : spool.accepted.length = n
  waiting : spool.waiting = []

theorem Idle.round {n : ℕ} (h : spool.Idle n) :
    (spool.run [.enqueue (.reliable (.text [])), .popNext]).Idle (n + 1) := by
  have hacc : (spool.mailbox.enqueueReliable (.text [])).2.accepted = true := by
    rw [h.mailbox]
    rfl
  have hpop := popNext_singleton spool.mailbox (.text [])
    (fun lane => by rw [h.mailbox]; cases lane <;> rfl) hacc
  have hadvance : min (min n lastOrder + 1) lastOrder = min (n + 1) lastOrder := by omega
  have hstep : spool.run [.enqueue (.reliable (.text [])), .popNext] =
      { spool with
        mailbox := spool.mailbox.advance
        accepted := spool.accepted ++ [⟨n, .reliable, .text []⟩]
        waiting := []
        popped := spool.popped ++ [⟨n, .reliable, .text []⟩]
        returned := spool.returned ++ [.text []] } := by
    simp only [run, List.foldl_cons, List.foldl_nil, step, enqueue, Enqueue.call, hacc, if_true,
      popNext, hpop, Enqueue.lane, Enqueue.frames, entriesFrom, h.accepted, h.waiting]
    simp [nextEntry, front]
  rw [hstep]
  refine ⟨?_, by simp [h.accepted], rfl⟩
  dsimp only
  rw [h.mailbox]
  simp only [OutboundMailbox.advance, ← hadvance]
  rfl

theorem idle_rounds (n : ℕ) : ((new default).run (rounds (.text []) n)).Idle n := by
  induction n with
  | zero => exact ⟨by rw [Nat.zero_min]; rfl, rfl, rfl⟩
  | succ n ih =>
    have hlast : (new default).run (rounds (.text []) (n + 1)) =
        ((new default).run (rounds (.text []) n)).run
          [.enqueue (.reliable (.text [])), .popNext] := by
      simp only [rounds, List.replicate_succ', List.flatten_append, run, List.foldl_append]
      rfl
    rw [hlast]
    exact ih.round

/-- A call that is accepted queues its frames behind the others. -/
theorem enqueue_accepted {enqueue : Enqueue}
    (hacc : (enqueue.call spool.mailbox).2.accepted = true) :
    spool.enqueue enqueue =
      { spool with
        mailbox := (enqueue.call spool.mailbox).1
        accepted := spool.accepted ++
          entriesFrom spool.accepted.length enqueue.lane enqueue.frames
        waiting := spool.waiting ++
          entriesFrom spool.accepted.length enqueue.lane enqueue.frames } := by
  unfold Spool.enqueue
  dsimp only
  rw [hacc, if_pos rfl]

/-- A pop takes the next ticket. -/
theorem popNext_of_nextEntry (h : spool.Exact limits) {e : Entry}
    (he : nextEntry spool.waiting = some e) :
    spool.popNext.popped = spool.popped ++ [e] ∧
      spool.popNext.waiting = spool.waiting.filter fun w => decide (some e ≠ some w) := by
  unfold popNext
  split
  next hpop =>
    rw [h.refines.popNext_none hpop] at he
    cases he
  next frame after hpop =>
    dsimp only
    rw [he]
    exact ⟨rfl, rfl⟩

/-- Once order numbers have run out, a reliable frame overtakes the live frame before it. -/
theorem Idle.overtakes {n : ℕ} (h : spool.Idle n) (hexact : spool.Exact default)
    (hn : lastOrder ≤ n) :
    let after := spool.run [.enqueue (.legacy "t" (.text [])), .enqueue (.reliable (.text [])),
      .popNext]
    ⟨n + 1, .reliable, .text []⟩ ∈ after.popped ∧
      ⟨n, .legacy, { OutboundFrame.text [] with terminalId := some "t" }⟩ ∈ after.waiting := by
  have hlegacy : ((Enqueue.legacy "t" (.text [])).call spool.mailbox).2.accepted = true := by
    rw [h.mailbox]
    rfl
  have hone := enqueue_accepted hlegacy
  have hreliable : ((Enqueue.reliable (.text [])).call
      (spool.enqueue (.legacy "t" (.text []))).mailbox).2.accepted = true := by
    rw [hone, h.mailbox]
    rfl
  have htwo := enqueue_accepted hreliable
  have hwaiting : ((spool.enqueue (.legacy "t" (.text []))).enqueue
      (.reliable (.text []))).waiting =
      [⟨n, .legacy, { OutboundFrame.text [] with terminalId := some "t" }⟩,
        ⟨n + 1, .reliable, .text []⟩] := by
    rw [htwo, hone]
    simp [Enqueue.lane, Enqueue.frames, entriesFrom, h.accepted, h.waiting]
  have hnext : nextEntry ((spool.enqueue (.legacy "t" (.text []))).enqueue
      (.reliable (.text []))).waiting = some ⟨n + 1, .reliable, .text []⟩ := by
    have horder : ¬ min n lastOrder < min (n + 1) lastOrder := by omega
    rw [hwaiting]
    simp [nextEntry, front, Entry.queued, horder]
  obtain ⟨hpopped, hleft⟩ := popNext_of_nextEntry ((hexact.enqueue _).enqueue _) hnext
  intro after
  have hafter : after = ((spool.enqueue (.legacy "t" (.text []))).enqueue
      (.reliable (.text []))).popNext := rfl
  rw [hafter, hpopped, hleft, hwaiting]
  exact ⟨List.mem_append_right _ List.mem_cons_self, by simp⟩

/-- The merge of the reliable and the live lane does not follow the order of the calls for
ever. -/
theorem merge_order_runs_out :
    ¬ ∀ (limits : MailboxLimits) (operations : List Operation),
      Departed (·.lane.merged) (·.ticket < ·.ticket)
        ((Spool.new limits).run operations).popped
        ((Spool.new limits).run operations).waiting := by
  intro hclaim
  obtain ⟨n, hn⟩ : ∃ n, n = lastOrder := ⟨_, rfl⟩
  have hidle := idle_rounds n
  obtain ⟨hpopped, hwaiting⟩ := hidle.overtakes ((exact_new default).run _) hn.ge
  have hdeparted := hclaim default (rounds (.text []) n ++
    [.enqueue (.legacy "t" (.text [])), .enqueue (.reliable (.text [])), .popNext])
  have hrun : (new default).run (rounds (.text []) n ++ [.enqueue (.legacy "t" (.text [])),
      .enqueue (.reliable (.text [])), .popNext]) =
      ((new default).run (rounds (.text []) n)).run [.enqueue (.legacy "t" (.text [])),
        .enqueue (.reliable (.text [])), .popNext] := List.foldl_append
  rw [hrun] at hdeparted
  have hlt := hdeparted.later _ hpopped _ hwaiting rfl rfl
  dsimp only at hlt
  omega

end Spool

end PiDeck.Outbound
