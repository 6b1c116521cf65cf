import Mathlib
import PiDeck.Terminal.Turns

/-! The answers of the authority on their way to the PTY. They keep their order as long as none waits
when the next one is queued, and they end the terminal only when the input queue has no room. -/
namespace PiDeck.Terminal
open PiDeck.Reactor PiDeck.Transition

/-- Pieces of input in the order in which the PTY got them. -/
def flat (pieces : List (Origin × Bytes)) : List (Origin × UInt8) :=
  pieces.flatMap fun piece => mark piece.1 piece.2

def numbers (pieces : List (Origin × Bytes)) : List ℕ :=
  pieces.filterMap fun piece => piece.1.number

/-- What the PTY got is whole pieces and at most one that has only been begun. The answers of the
authority among them are the first ones, in order, each in one piece. -/
def InOrder (handed : List (Origin × UInt8)) (responses : List Bytes) : Prop :=
  ∃ done last : List (Origin × Bytes), handed = flat (done ++ last) ∧ last.length ≤ 1 ∧
    (∃ count, numbers (done ++ last) = List.range count) ∧
    (∀ piece ∈ done, ∀ number, piece.1 = .response number →
      responses[number]? = some piece.2) ∧
    ∀ piece ∈ last, ∀ number, piece.1 = .response number →
      ∃ response, responses[number]? = some response ∧ piece.2 <+: response

/-- The part of the front chunk that has been handed over. -/
def InputQueue.front (queue : InputQueue) : List (Origin × Bytes) :=
  queue.chunks.head?.toList.map fun front => (front.origin, front.data.take front.offset)

/-- The waiting answers continue the ones that were handed over. -/
structure Lined (queue : InputQueue) (handed : List (Origin × UInt8)) (responses : List Bytes)
    (done : List (Origin × Bytes)) : Prop where
  handed : handed = flat (done ++ queue.front)
  inLine : numbers done ++ queue.chunks.filterMap (fun chunk => chunk.origin.number) =
    List.range responses.length
  done : ∀ piece ∈ done, ∀ number, piece.1 = .response number →
    responses[number]? = some piece.2
  waiting : ∀ chunk ∈ queue.chunks, ∀ number, chunk.origin = .response number →
    responses[number]? = some chunk.data
  begun : ∀ chunk ∈ queue.chunks.tail, chunk.offset = 0

section Order
variable {queue queue' : InputQueue} {handed : List (Origin × UInt8)} {responses : List Bytes}
  {done : List (Origin × Bytes)} {outcomes : List WriteOutcome} {budget : ℕ} {flushed : Flushed}

@[simp] theorem flat_append (done last : List (Origin × Bytes)) :
    flat (done ++ last) = flat done ++ flat last := List.flatMap_append

@[simp] theorem numbers_append (done last : List (Origin × Bytes)) :
    numbers (done ++ last) = numbers done ++ numbers last := List.filterMap_append

/-- A list that is continued to a range is a range. -/
theorem eq_range_of_append {xs ys : List ℕ} {n : ℕ} (h : xs ++ ys = List.range n) :
    xs = List.range xs.length := by
  have htake := congrArg (List.take xs.length) h
  rw [List.take_left, List.take_range] at htake
  have hle : xs.length ≤ n := by
    have := congrArg List.length h
    rw [List.length_append, List.length_range] at this
    omega
  rwa [Nat.min_eq_left hle] at htake

/-- The order of answers of which no more is known to be handed over. -/
theorem InOrder.mono (h : InOrder handed responses) (more : List Bytes) :
    InOrder handed (responses ++ more) := by
  obtain ⟨done, last, hhanded, hone, hnumbers, hdone, hlast⟩ := h
  have hget : ∀ (number : ℕ) (response : Bytes), responses[number]? = some response →
      (responses ++ more)[number]? = some response := by
    intro number response hr
    obtain ⟨hlt, -⟩ := List.getElem?_eq_some_iff.mp hr
    rwa [List.getElem?_append_left hlt]
  refine ⟨done, last, hhanded, hone, hnumbers, ?_, ?_⟩
  · exact fun piece hpiece number hn => hget _ _ (hdone piece hpiece number hn)
  · intro piece hpiece number hn
    obtain ⟨response, hr, hprefix⟩ := hlast piece hpiece number hn
    exact ⟨response, hget _ _ hr, hprefix⟩

/-- If an answer comes first, it is the first one. -/
theorem InOrder.sorted (h : InOrder handed responses) :
    (handed.filterMap fun byte => byte.1.number).Pairwise (· ≤ ·) := by
  obtain ⟨done, last, rfl, -, ⟨count, hnumbers⟩, -, -⟩ := h
  generalize done ++ last = pieces at hnumbers
  have hsorted : (numbers pieces).Pairwise (· ≤ ·) := by
    rw [hnumbers]
    exact List.pairwise_le_range
  clear hnumbers
  induction pieces with
  | nil => exact List.Pairwise.nil
  | cons piece pieces ih =>
    have hmark : ∀ data : Bytes, (mark piece.1 data).filterMap (fun byte => byte.1.number) =
        data.filterMap fun _ => piece.1.number := by
      intro data
      rw [mark, List.filterMap_map]
      rfl
    rw [flat, List.flatMap_cons, List.filterMap_append, hmark]
    cases hn : piece.1.number with
    | none =>
      have hrest : numbers (piece :: pieces) = numbers pieces := by simp [numbers, hn]
      rw [hrest] at hsorted
      simpa [flat] using ih hsorted
    | some number =>
      have hrest : numbers (piece :: pieces) = number :: numbers pieces := by simp [numbers, hn]
      rw [hrest, List.pairwise_cons] at hsorted
      rw [List.pairwise_append]
      refine ⟨?_, ih hsorted.2, ?_⟩
      · rw [List.filterMap_eq_map', List.pairwise_map]
        exact List.pairwise_of_forall fun _ _ => le_rfl
      · intro x hx y hy
        obtain ⟨byte, -, hbyte⟩ := List.mem_filterMap.mp hx
        cases hbyte
        refine hsorted.1 y ?_
        obtain ⟨marked, hmarked, hnumber⟩ := List.mem_filterMap.mp hy
        obtain ⟨source, hsource, hin⟩ := List.mem_flatMap.mp hmarked
        obtain ⟨value, -, rfl⟩ := List.mem_map.mp hin
        exact List.mem_filterMap.mpr ⟨source, hsource, hnumber⟩

theorem Lined.inOrder (h : Lined queue handed responses done) : InOrder handed responses := by
  refine ⟨done, queue.front, h.handed, ?_, ?_, h.done, ?_⟩
  · cases hq : queue.chunks <;> simp [InputQueue.front, hq]
  · have hfront : ∃ rest, numbers done ++ numbers queue.front ++ rest =
        List.range responses.length := by
      rw [← h.inLine]
      cases hq : queue.chunks with
      | nil => exact ⟨[], by simp [InputQueue.front, hq, numbers]⟩
      | cons front rest =>
        refine ⟨rest.filterMap fun chunk => chunk.origin.number, ?_⟩
        rw [List.append_assoc]
        congr 1
        cases hn : front.origin.number <;> simp [InputQueue.front, hq, numbers, hn]
    obtain ⟨rest, hrest⟩ := hfront
    rw [← numbers_append] at hrest
    exact ⟨_, eq_range_of_append hrest⟩
  · intro piece hpiece number hn
    obtain ⟨front, hfront, rfl⟩ := List.mem_map.mp hpiece
    have hmem : front ∈ queue.chunks := by
      rw [Option.mem_toList] at hfront
      exact List.mem_of_mem_head? hfront
    exact ⟨front.data, h.waiting front hmem number hn, List.take_prefix _ _⟩

/-- A write call hands over more of the front chunk. -/
theorem flat_wrote {front : Chunk} {rest : List Chunk} (count : ℕ)
    (hhanded : handed = flat (done ++ queue.front)) (hq : queue.chunks = front :: rest) :
    handed ++ mark front.origin ((front.data.drop front.offset).take count) =
      flat (done ++ [(front.origin, front.data.take (front.offset + count))]) := by
  have htaken : front.data.take front.offset ++ (front.data.drop front.offset).take count =
      front.data.take (front.offset + count) := (List.take_add ..).symm
  rw [hhanded, ← htaken]
  simp [InputQueue.front, hq, flat, mark]

/-- Nothing of a front that has not been begun is handed over. -/
theorem flat_front {rest : List Chunk} {bytes : ℕ} (htail : ∀ chunk ∈ rest, chunk.offset = 0) :
    flat (done ++ InputQueue.front ⟨rest, bytes⟩) = flat done := by
  cases rest with
  | nil => simp [InputQueue.front]
  | cons next rest =>
    have hnext := htail next (List.mem_cons_self ..)
    simp [InputQueue.front, hnext, flat, mark]

/-- One write call of a flush. -/
theorem Lined.wrote {front : Chunk} {rest : List Chunk} {count : ℕ} (bytes : ℕ)
    (h : Lined queue handed responses done) (hq : queue.chunks = front :: rest) :
    ∃ done', Lined
      ⟨if front.offset + count = front.data.length then rest
        else { front with offset := front.offset + count } :: rest, bytes⟩
      (handed ++ mark front.origin ((front.data.drop front.offset).take count)) responses done' := by
  have hbytes := flat_wrote count h.handed hq
  have htail : ∀ chunk ∈ rest, chunk.offset = 0 := by simpa [hq] using h.begun
  have hwaiting : ∀ chunk ∈ rest, ∀ number, chunk.origin = .response number →
      responses[number]? = some chunk.data := fun chunk hchunk =>
    h.waiting chunk (hq ▸ List.mem_cons_of_mem _ hchunk)
  have hfront : ∀ number, front.origin = .response number →
      responses[number]? = some front.data := h.waiting front (hq ▸ List.mem_cons_self ..)
  have hnumbers := h.inLine
  rw [hq] at hnumbers
  by_cases hwhole : front.offset + count = front.data.length
  · rw [if_pos hwhole]
    rw [hwhole, List.take_length] at hbytes
    refine ⟨done ++ [(front.origin, front.data)], ?_, ?_, ?_, hwaiting, ?_⟩
    · exact hbytes.trans (flat_front htail).symm
    · rw [← hnumbers]
      cases hn : front.origin.number <;> simp [numbers, hn]
    · intro piece hpiece number hn
      rcases List.mem_append.mp hpiece with hpiece | hpiece
      · exact h.done piece hpiece number hn
      · obtain rfl := List.mem_singleton.mp hpiece
        exact hfront number hn
    · exact fun chunk hchunk => htail chunk (List.mem_of_mem_tail hchunk)
  · rw [if_neg hwhole]
    refine ⟨done, hbytes, ?_, h.done, ?_, htail⟩
    · rw [← hnumbers]
      cases hn : front.origin.number <;> simp [hn]
    · intro chunk hchunk number hn
      rcases List.mem_cons.mp hchunk with rfl | hchunk
      · exact hfront number hn
      · exact hwaiting chunk hchunk number hn

/-- A flush hands answers over in order, and unless a write fails the rest stays in line. -/
theorem Lined.flush (h : Lined queue handed responses done)
    (hflush : queue.flush outcomes budget = some flushed) :
    InOrder (handed ++ flushed.handed) responses ∧ (flushed.failed = false →
      ∃ done', Lined flushed.queue (handed ++ flushed.handed) responses done') := by
  obtain ⟨reached, ⟨done', hdone⟩, hqueue⟩ := InputQueue.flush_invariant
    (fun queue handed => ∃ done, Lined queue handed responses done)
    (fun queue handed front rest count hq _ ⟨_, h⟩ => h.wrote (queue.bytes - count) hq)
    ⟨done, h⟩ hflush
  refine ⟨hdone.inOrder, fun hfailed => ⟨done', ?_⟩⟩
  rwa [hqueue, if_neg (by simp [hfailed])]

/-- Input of commands goes to the end. -/
theorem Lined.appended (h : Lined queue handed responses done) (happended : queue.Appended queue') :
    Lined queue' handed responses done := by
  obtain ⟨more, hmore⟩ := happended
  have hinput : ∀ chunk ∈ more.map (fun data => (⟨data, 0, .input⟩ : Chunk)),
      chunk.origin = .input ∧ chunk.offset = 0 := by
    intro chunk hchunk
    obtain ⟨data, -, rfl⟩ := List.mem_map.mp hchunk
    exact ⟨rfl, rfl⟩
  refine ⟨?_, ?_, h.done, ?_, ?_⟩
  · rw [h.handed]
    cases hq : queue.chunks with
    | nil =>
      cases more with
      | nil => simp [InputQueue.front, hmore, hq]
      | cons data more => simp [InputQueue.front, hmore, hq, flat, mark]
    | cons front rest => simp [InputQueue.front, hmore, hq]
  · have hnone : (more.map fun data => (⟨data, 0, .input⟩ : Chunk)).filterMap
        (fun chunk => chunk.origin.number) = [] := by
      rw [List.filterMap_eq_nil_iff]
      intro chunk hchunk
      rw [(hinput chunk hchunk).1]
      rfl
    rw [hmore, List.filterMap_append, hnone, List.append_nil, h.inLine]
  · intro chunk hchunk number hn
    rw [hmore] at hchunk
    rcases List.mem_append.mp hchunk with hchunk | hchunk
    · exact h.waiting chunk hchunk number hn
    · rw [(hinput chunk hchunk).1] at hn
      cases hn
  · intro chunk hchunk
    rw [hmore] at hchunk
    cases hq : queue.chunks with
    | nil =>
      rw [hq] at hchunk
      exact (hinput chunk (List.mem_of_mem_tail hchunk)).2
    | cons front rest =>
      rw [hq] at hchunk
      rcases List.mem_append.mp hchunk with hchunk | hchunk
      · exact h.begun chunk (by rwa [hq])
      · exact (hinput chunk hchunk).2

/-- An answer of the authority that finds none waiting is the last in line. -/
theorem Lined.response {data : Bytes} (h : Lined queue handed responses done)
    (hnone : ∀ chunk ∈ queue.notBegun, chunk.origin = .input)
    (hqueue : queue.enqueue data (.response responses.length) true = some queue') :
    Lined queue' handed (responses ++ [data]) done := by
  have hchunks := InputQueue.enqueue_response hqueue
  have hsplit := queue.begun_append_notBegun
  have hget : ∀ (number : ℕ) (response : Bytes), responses[number]? = some response →
      (responses ++ [data])[number]? = some response := by
    intro number response hr
    obtain ⟨hlt, -⟩ := List.getElem?_eq_some_iff.mp hr
    rwa [List.getElem?_append_left hlt]
  refine ⟨?_, ?_, ?_, ?_, ?_⟩
  · -- The front stays if it has been begun; else the new front has nothing handed over.
    rw [h.handed]
    unfold InputQueue.front
    rw [hchunks]
    unfold InputQueue.begun InputQueue.notBegun
    cases hq : queue.chunks with
    | nil => simp [flat, mark]
    | cons front rest =>
      by_cases hoffset : 0 < front.offset
      · simp [hoffset]
      · simp [Nat.eq_zero_of_not_pos hoffset, flat, mark]
  · have hnumbers := h.inLine
    have hwaiting : queue.notBegun.filterMap (fun chunk => chunk.origin.number) = [] := by
      rw [List.filterMap_eq_nil_iff]
      intro chunk hchunk
      rw [hnone chunk hchunk]
      rfl
    rw [← hsplit, List.filterMap_append, hwaiting, List.append_nil] at hnumbers
    rw [hchunks, List.filterMap_append, List.filterMap_cons, hwaiting, ← List.append_assoc,
      hnumbers, List.length_append, List.length_singleton, List.range_succ]
    rfl
  · exact fun piece hpiece number hn => hget _ _ (h.done piece hpiece number hn)
  · intro chunk hchunk number hn
    rw [hchunks] at hchunk
    rcases List.mem_append.mp hchunk with hchunk | hchunk
    · exact hget _ _ (h.waiting chunk (hsplit ▸ List.mem_append_left _ hchunk) number hn)
    rcases List.mem_cons.mp hchunk with rfl | hchunk
    · cases hn
      rw [List.getElem?_append_right le_rfl, Nat.sub_self]
      rfl
    · exact hget _ _ (h.waiting chunk (hsplit ▸ List.mem_append_right _ hchunk) number hn)
  · intro chunk hchunk
    rw [hchunks] at hchunk
    unfold InputQueue.begun InputQueue.notBegun at hchunk
    cases hq : queue.chunks with
    | nil => simp [hq] at hchunk
    | cons front rest =>
      have htail : ∀ chunk ∈ rest, chunk.offset = 0 := by simpa [hq] using h.begun
      rw [hq] at hchunk
      by_cases hoffset : 0 < front.offset
      · simp only [List.head?_cons, Option.any_some, hoffset, decide_true, if_true,
          List.take_succ_cons, List.take_zero, List.drop_succ_cons, List.drop_zero,
          List.cons_append, List.nil_append, List.tail_cons, List.mem_cons] at hchunk
        rcases hchunk with rfl | hchunk
        · rfl
        · exact htail chunk hchunk
      · simp only [List.head?_cons, Option.any_some, hoffset, decide_false, Bool.false_eq_true,
          if_false, List.take_zero, List.drop_zero, List.nil_append, List.tail_cons,
          List.mem_cons] at hchunk
        rcases hchunk with rfl | hchunk
        · exact Nat.eq_zero_of_not_pos hoffset
        · exact htail chunk hchunk

end Order

namespace OwnedTerminal
variable {owner owner' : OwnedTerminal} {act : OwnerAct}

/-- A chunk of output brings at most one answer, and none waits that has not been begun. -/
def Solitary (input : InputQueue) : Option ReadAnswer → Prop
  | some (.bytes _ (some effects)) => effects.ptyResponses = [] ∨
    effects.ptyResponses.length = 1 ∧ ∀ chunk ∈ input.notBegun, chunk.origin = .input
  | _ => True

/-- The queue has room for all answers to a chunk of output. -/
def Roomy (input : InputQueue) : Option ReadAnswer → Prop
  | some (.bytes _ (some effects)) => input.FitsAll effects.ptyResponses
  | _ => True

/-- The condition holds of the queue as the flush of the same event leaves it. -/
def WhenRead (condition : InputQueue → Option ReadAnswer → Prop) (owner : OwnedTerminal) :
    OwnerAct → Prop
  | .ready writable readable _ => ∀ flushed, owner.flushInput writable = some flushed →
    condition flushed.input readable
  | _ => True

/-- What the PTY got is in order, and as long as the output is open the rest is in line. -/
def Ordered (owner : OwnedTerminal) : Prop :=
  InOrder owner.handed owner.responses ∧
    (owner.closed = [] → ∃ done, Lined owner.input owner.handed owner.responses done)

theorem ordered_launched (id terminalEpoch : String) (size : Size) :
    (launched id terminalEpoch size).Ordered := by
  have hlined : Lined InputQueue.empty [] [] [] :=
    ⟨rfl, rfl, nofun, nofun, nofun⟩
  exact ⟨hlined.inOrder, fun _ => ⟨[], hlined⟩⟩

theorem Ordered.kept (h : owner.Ordered) (hkept : owner.Kept owner') : owner'.Ordered := by
  unfold Ordered
  rw [hkept.handed, hkept.responses, hkept.closed]
  refine ⟨h.1, fun hopen => ?_⟩
  obtain ⟨done, hdone⟩ := h.2 hopen
  exact ⟨done, hdone.appended hkept.appended⟩

theorem Ordered.fail (h : owner.Ordered) (cause : Cause) : (owner.fail cause).Ordered :=
  ⟨h.1, fun hopen => absurd hopen (by simp [OwnedTerminal.fail])⟩

theorem Ordered.close (h : owner.Ordered) (cause : Cause) : (owner.close cause).Ordered :=
  ⟨h.1, fun hopen => absurd hopen (by simp [OwnedTerminal.close])⟩

theorem Ordered.flushInput {writable : Option (List WriteOutcome)} (h : owner.Ordered)
    (hopen : owner.closed = []) (hflush : owner.flushInput writable = some owner') :
    owner'.Ordered := by
  cases writable with
  | none =>
    cases hflush
    exact h
  | some outcomes =>
    obtain ⟨flushed, hflushed, rfl⟩ := Option.map_eq_some_iff.mp hflush
    obtain ⟨done, hdone⟩ := h.2 hopen
    obtain ⟨hinOrder, hlined⟩ := hdone.flush hflushed
    cases hfailed : flushed.failed with
    | true => exact ⟨hinOrder, fun hopen => absurd hopen (by simp [OwnedTerminal.fail])⟩
    | false => exact ⟨hinOrder, fun _ => hlined hfailed⟩

theorem Ordered.drainOutput {readable : Option ReadAnswer} (h : owner.Ordered)
    (hsolitary : Solitary owner.input readable) : (owner.drainOutput readable).Ordered := by
  unfold OwnedTerminal.drainOutput
  split
  · exact h
  · exact h
  · exact h.close _
  · exact h.close _
  · rename_i data effects
    cases effects with
    | none => exact h.fail _
    | some effects =>
      have hresized : ({ owner with
        authoritySize := effects.resized.getD owner.authoritySize } : OwnedTerminal).Ordered := h
      unfold OwnedTerminal.processTerminalOutput
      dsimp only
      obtain hnone | ⟨hone, hwaiting⟩ := hsolitary
      · rw [hnone]
        exact hresized
      obtain ⟨response, hresponse⟩ := List.length_eq_one_iff.mp hone
      rw [hresponse]
      unfold OwnedTerminal.enqueueResponses
      dsimp only
      cases hqueued : owner.input.enqueue response (.response owner.responses.length) true with
      | none => exact hresized.fail _
      | some queued =>
        refine ⟨h.1.mono [response], fun hopen => ?_⟩
        obtain ⟨done, hdone⟩ := h.2 hopen
        exact ⟨done, hdone.response hwaiting hqueued⟩

theorem along_true (owner : OwnedTerminal) (batches : List Batch) :
    owner.Along (fun _ _ => True) batches := by
  induction batches generalizing owner with
  | nil => trivial
  | cons batch batches ih => exact ⟨trivial, fun next _ _ => ih next⟩

theorem Ordered.step (h : owner.Ordered) (hguard : owner.WhenRead Solitary act)
    (hstep : owner.step act = some owner') : owner'.Ordered := by
  cases act with
  | batch commands pollFails =>
    simp only [OwnedTerminal.step] at hstep
    split at hstep
    · cases hstep
    · exact batch_invariant (fun _ _ _ _ _ ho _ hb => ho.kept (kept_handleBatch hb))
        (fun _ ho => ho.fail _) (fun _ _ ho => ho) (along_true _ _) hstep h
  | ready writable readable pollFails =>
    simp only [OwnedTerminal.step] at hstep
    split at hstep
    · cases hstep
    · obtain ⟨hopen, flushed, hflushed, hcases⟩ := ready_cases hstep
      have hdrained := (h.flushInput hopen hflushed).drainOutput (hguard flushed hflushed)
      rcases hcases with rfl | ⟨-, rfl⟩
      · exact hdrained
      · exact hdrained.fail _
  | releaseConnection connectionId now draw =>
    simp only [OwnedTerminal.step] at hstep
    split at hstep
    · cases hstep
    · cases hstep
      exact h
  | restart terminalEpoch size =>
    simp only [OwnedTerminal.step] at hstep
    split at hstep
    · cases hstep
      exact ordered_launched owner.runtime.id terminalEpoch size
    · cases hstep

/-- In every run in which no answer of the authority waits when the next one is queued, the PTY gets
the answers in order and each in one piece. -/
theorem responses_in_order {id terminalEpoch : String} {size : Size} {acts : List OwnerAct}
    (h : Machine.Path machine (WhenRead Solitary) (launched id terminalEpoch size) acts owner) :
    InOrder owner.handed owner.responses :=
  (h.invariant (I := Ordered) (fun _ _ _ ho hguard hstep => ho.step hguard hstep)
    (ordered_launched id terminalEpoch size)).1

def reads (data : Bytes) (responses : List Bytes) : OwnerAct :=
  .ready none (some (.bytes data (some ⟨responses, none⟩))) false

/-- An answer of two bytes that the PTY takes one at a time, with input between. -/
def answeredOnce : List OwnerAct :=
  [.batch [.write (.write [7])] false, reads [0] [[1, 2]],
    .ready (some [.wrote 1, .wouldBlock]) none false, reads [0] [[3]],
    .ready (some [.wrote 1, .wrote 1, .wrote 1]) none false]

theorem responses_in_order_twice : ∃ owner,
    Machine.Path machine (WhenRead Solitary) (launched "terminal" "epoch" ⟨80, 24⟩) answeredOnce
        owner ∧
      owner.handed = [(.response 0, 1), (.response 0, 2), (.response 1, 3), (.input, 7)] ∧
      InOrder owner.handed owner.responses := by
  have hpath : ∃ owner, Machine.Path machine (WhenRead Solitary)
      (launched "terminal" "epoch" ⟨80, 24⟩) answeredOnce owner ∧
        owner.handed = [(.response 0, 1), (.response 0, 2), (.response 1, 3), (.input, 7)] := by
    refine ⟨_, .cons trivial rfl (.cons ?first rfl (.cons ?flush rfl (.cons ?second rfl
      (.cons ?last rfl (.nil _))))), rfl⟩
    case first =>
      rintro flushed ⟨⟩
      exact .inr ⟨rfl, by decide⟩
    case flush => exact fun _ _ => trivial
    case second =>
      rintro flushed ⟨⟩
      exact .inr ⟨rfl, by decide⟩
    case last => exact fun _ _ => trivial
  obtain ⟨owner, hpath, hhanded⟩ := hpath
  exact ⟨owner, hpath, hhanded, responses_in_order hpath⟩

/-- Two answers to one chunk of output: the second one is put before the first. -/
theorem responses_swapped : ∃ owner,
    machine.Run (launched "terminal" "epoch" ⟨80, 24⟩)
        [reads [0] [[1], [2]], .ready (some [.wrote 1, .wrote 1]) none false] owner ∧
      owner.responses = [[1], [2]] ∧ owner.handed = [(.response 1, 2), (.response 0, 1)] ∧
      ¬InOrder owner.handed owner.responses := by
  refine ⟨_, .cons trivial rfl (.cons trivial rfl (.nil _)), rfl, rfl, ?_⟩
  intro h
  exact absurd h.sorted (by decide)

/-- The answers are queued exactly if there is room for all of them. -/
theorem enqueueResponses_iff (owner : OwnedTerminal) (responses : List Bytes) :
    (owner.enqueueResponses responses).2 = true ↔ owner.input.FitsAll responses := by
  induction responses generalizing owner with
  | nil => simp [enqueueResponses, InputQueue.FitsAll]
  | cons response responses ih =>
    rw [enqueueResponses]
    cases hqueued : owner.input.enqueue response (.response owner.responses.length) true with
    | none => simpa using InputQueue.not_fitsAll_of_enqueue hqueued responses
    | some queued => exact (ih _).trans (InputQueue.fitsAll_of_enqueue hqueued responses)

theorem closed_enqueueResponses (owner : OwnedTerminal) (responses : List Bytes) :
    (owner.enqueueResponses responses).1.closed = owner.closed := by
  induction responses generalizing owner with
  | nil => rfl
  | cons response responses ih =>
    rw [enqueueResponses]
    split
    · exact ih _
    · rfl

/-- What is read closes the output for want of room exactly if there is none. -/
theorem full_drainOutput (readable : Option ReadAnswer)
    (h : Cause.inputQueueFull ∉ owner.closed) :
    .inputQueueFull ∈ (owner.drainOutput readable).closed ↔ ¬Roomy owner.input readable := by
  unfold drainOutput
  split
  · simpa [Roomy] using h
  · simpa [Roomy] using h
  · simpa [Roomy, close] using h
  · simpa [Roomy, close] using h
  · rename_i data effects
    cases effects with
    | none => simpa [Roomy, processTerminalOutput, fail] using h
    | some effects =>
      have hiff := enqueueResponses_iff
        { owner with authoritySize := effects.resized.getD owner.authoritySize }
        effects.ptyResponses
      have hclosed := closed_enqueueResponses
        { owner with authoritySize := effects.resized.getD owner.authoritySize }
        effects.ptyResponses
      unfold processTerminalOutput Roomy
      dsimp only
      split
      · rename_i hqueued
        rw [hclosed]
        exact iff_of_false h (not_not.mpr (hiff.mp hqueued))
      · rename_i hqueued
        refine iff_of_true ?_ (fun hroomy => hqueued (hiff.mpr hroomy))
        simp [fail]

theorem full_flushInput {writable : Option (List WriteOutcome)}
    (hflush : owner.flushInput writable = some owner') :
    .inputQueueFull ∈ owner'.closed ↔ .inputQueueFull ∈ owner.closed := by
  cases writable with
  | none =>
    cases hflush
    rfl
  | some outcomes =>
    obtain ⟨flushed, -, rfl⟩ := Option.map_eq_some_iff.mp hflush
    dsimp only
    split
    · simp [fail]
    · rfl

/-- A step closes the output for want of room exactly if it reads a chunk of output whose answers
the queue has no room for. -/
theorem full_step (h : Cause.inputQueueFull ∉ owner.closed)
    (hstep : owner.step act = some owner') :
    .inputQueueFull ∈ owner'.closed ↔ ¬owner.WhenRead Roomy act := by
  cases act with
  | batch commands pollFails =>
    simp only [OwnedTerminal.step] at hstep
    split at hstep
    · cases hstep
    · refine iff_of_false ?_ (not_not.mpr trivial)
      refine batch_invariant (P := fun owner => Cause.inputQueueFull ∉ owner.closed) ?_ ?_
        (fun _ _ ho => ho) (along_true _ _) hstep h
      · exact fun _ _ _ _ _ ho _ hb => (kept_handleBatch hb).closed ▸ ho
      · exact fun _ ho => by simpa [fail] using ho
  | ready writable readable pollFails =>
    simp only [OwnedTerminal.step] at hstep
    split at hstep
    · cases hstep
    · obtain ⟨-, flushed, hflushed, hcases⟩ := ready_cases hstep
      have hdrained := full_drainOutput readable
        (fun hfull => h ((full_flushInput hflushed).mp hfull))
      have hguard : owner.WhenRead Roomy (.ready writable readable pollFails) ↔
          Roomy flushed.input readable := by
        constructor
        · exact fun hwhen => hwhen flushed hflushed
        · intro hroomy other hother
          obtain rfl := Option.some.inj (hflushed.symm.trans hother)
          exact hroomy
      rw [hguard, ← hdrained]
      rcases hcases with rfl | ⟨-, rfl⟩
      · rfl
      · simp [fail]
  | releaseConnection connectionId now draw =>
    simp only [OwnedTerminal.step] at hstep
    split at hstep
    · cases hstep
    · cases hstep
      exact iff_of_false h (not_not.mpr trivial)
  | restart terminalEpoch size =>
    simp only [OwnedTerminal.step] at hstep
    split at hstep
    · cases hstep
      exact iff_of_false nofun (not_not.mpr trivial)
    · cases hstep

/-- As long as the queue has room for the answers to each chunk of output, nothing is closed for
want of room, and the first chunk whose answers have none closes the output. -/
theorem back_pressure_harmless {id terminalEpoch : String} {size : Size} {acts : List OwnerAct}
    (h : Machine.Path machine (WhenRead Roomy) (launched id terminalEpoch size) acts owner) :
    Cause.inputQueueFull ∉ owner.closed ∧ ∀ act owner', owner.step act = some owner' →
      (.inputQueueFull ∈ owner'.closed ↔ ¬owner.WhenRead Roomy act) := by
  have hnone : Cause.inputQueueFull ∉ owner.closed :=
    h.invariant (I := fun owner => Cause.inputQueueFull ∉ owner.closed)
      (fun _ _ _ ho hguard hstep hfull => (full_step ho hstep).mp hfull hguard) nofun
  exact ⟨hnone, fun act owner' hstep => full_step hnone hstep⟩

theorem back_pressure_harmless_answered :
    ∃ owner, Machine.Path machine (WhenRead Roomy) (launched "terminal" "epoch" ⟨80, 24⟩)
        [reads [0] [[1], [2]]] owner ∧ owner.responses = [[1], [2]] ∧
      Cause.inputQueueFull ∉ owner.closed := by
  have hguard : WhenRead Roomy (launched "terminal" "epoch" ⟨80, 24⟩) (reads [0] [[1], [2]]) := by
    rintro flushed ⟨⟩
    exact .inr (by decide +kernel)
  exact ⟨_, .cons hguard rfl (.nil _), rfl,
    (back_pressure_harmless (.cons hguard rfl (.nil _))).1⟩

/-- A write that fills an empty queue. -/
theorem step_fill {data : Bytes} (hdata : data ≠ [])
    (hfits : data.length ≤ maxPendingInputBytesPerTerminal) :
    (launched "terminal" "epoch" ⟨80, 24⟩).step (.batch [.write (.write data)] false) =
      some { launched "terminal" "epoch" ⟨80, 24⟩ with
        input := ⟨[⟨data, 0, .input⟩], data.length⟩ } := by
  simp [step, batch, handleTerminalCommandBatch, Batch.group, Batch.groupInto, Batch.start,
    handleBatches, handleBatch, handleWrites, TerminalRuntime.authorizeWrites,
    TerminalRuntime.authorizeWrite, enqueueScratch, scratch, Verdict.authorized, Verdict.event, hdata,
    InputQueue.enqueue, InputQueue.fits, launched, InputQueue.empty, hfits, setRuntimeInterest,
    isOpen]

/-- A client fills the queue of a child that does not read, and the child asks for an answer. -/
theorem killed_by_back_pressure : ∃ owner,
    machine.Run (launched "terminal" "epoch" ⟨80, 24⟩)
        [.batch [.write (.write (List.replicate maxPendingInputBytesPerTerminal 0))] false,
          reads [0] [[1]]] owner ∧
      owner.closed = [.inputQueueFull] ∧ owner.childKilled = true := by
  have hdata : List.replicate maxPendingInputBytesPerTerminal (0 : UInt8) ≠ [] := by
    intro hnil
    have hlength := congrArg List.length hnil
    rw [List.length_replicate] at hlength
    cases hlength
  have hfill := step_fill hdata (List.length_replicate ..).le
  rw [List.length_replicate] at hfill
  exact ⟨_, .cons trivial hfill (.cons trivial rfl (.nil _)), rfl, rfl⟩

end OwnedTerminal
end PiDeck.Terminal
