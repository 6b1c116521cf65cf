import Mathlib
import PiDeck.Collections.Newest
import PiDeck.Transition.Machine

/-! The terminals of the supervisor's sessions and the sockets that view them. The handlers of a
process keep its terminal alive after it has left the table, so a terminal is known by its place
among all that were created. The whole output of a terminal, and where in it a socket was attached,
are kept for the statements only. -/
namespace PiDeck.Supervisor.TerminalMultiplexer
open PiDeck.Collections PiDeck.Transition

abbrev Bytes := List UInt8

def maxReplayBytes : ℕ := 4000000
def maxTerminalsPerSession : ℕ := 8
def maxBufferedAmount : ℕ := 1000000

structure LiveTerminal where
  running : Bool
  replay : Bytes
  viewers : List ℕ
  output : Bytes

/-- Where a socket was attached: the terminal, and how much it had put out. -/
structure Attachment where
  terminal : ℕ
  position : ℕ

/-- A socket: whether `readyState` is `OPEN`, what it has not got rid of, what was sent on it. -/
structure Socket where
  isOpen : Bool
  bufferedAmount : ℕ
  sent : Bytes
  attached : Option Attachment

structure Entry where
  sessionId : String
  id : String
  terminal : ℕ

structure Multiplexer where
  terminals : List LiveTerminal
  entries : List Entry
  closing : Bool
  sockets : ℕ → Socket

namespace Socket
variable (socket : Socket)

/-- A socket that is not open sends nothing. -/
def send (bytes : Bytes) : Socket :=
  if socket.isOpen then { socket with sent := socket.sent ++ bytes } else socket

def close : Socket := { socket with isOpen := false }

/-- What `onData` does for one viewer. -/
def forward (chunk : Bytes) : Socket :=
  if socket.isOpen && decide (socket.bufferedAmount < maxBufferedAmount) then socket.send chunk
  else socket

end Socket

/-- What happens: calls of the multiplexer, events of a process, and events of a socket, which may
report another buffered amount at any moment. -/
inductive Event
  | create (sessionId id : String)
  | data (terminal : ℕ) (chunk : Bytes)
  | exit (terminal : ℕ)
  | attach (sessionId terminalId : String) (socket : ℕ)
  | detach (socket : ℕ)
  | buffered (socket amount : ℕ)
  | leave (socket : ℕ)
  | closeTerminal (sessionId terminalId : String)
  | close

namespace Multiplexer
variable (mux : Multiplexer)

def find (sessionId terminalId : String) : Option Entry :=
  mux.entries.find? fun entry => decide (entry.sessionId = sessionId ∧ entry.id = terminalId)

def setTerminal (terminal : ℕ) (live : LiveTerminal) : Multiplexer :=
  { mux with terminals := mux.terminals.set terminal live }

/-- Do something to the sockets of some viewers. -/
def onSockets (viewers : List ℕ) (f : Socket → Socket) : Multiplexer :=
  { mux with sockets := fun v => if v ∈ viewers then f (mux.sockets v) else mux.sockets v }

/-- A refused `create` throws and changes nothing. -/
def create (sessionId id : String) : Multiplexer :=
  if mux.closing ∨
      maxTerminalsPerSession ≤ (mux.entries.filter fun e => decide (e.sessionId = sessionId)).length then
    mux
  else
    { mux with
      terminals := mux.terminals ++ [⟨true, [], [], []⟩]
      entries := mux.entries ++ [⟨sessionId, id, mux.terminals.length⟩] }

def data (terminal : ℕ) (live : LiveTerminal) (chunk : Bytes) : Multiplexer :=
  let replay := live.replay ++ chunk
  let replay :=
    if maxReplayBytes < replay.length then replay.drop (replay.length - maxReplayBytes) else replay
  (mux.setTerminal terminal
    { live with replay := replay, output := live.output ++ chunk }).onSockets live.viewers
      fun socket => socket.forward chunk

def exit (terminal : ℕ) (live : LiveTerminal) : Multiplexer :=
  (mux.setTerminal terminal { live with running := false, viewers := [] }).onSockets live.viewers
    Socket.close

def attach (terminal : ℕ) (live : LiveTerminal) (socket : ℕ) : Multiplexer :=
  (mux.setTerminal terminal { live with viewers := live.viewers ++ [socket] }).onSockets [socket]
    fun before =>
      { (if 0 < live.replay.length then before.send live.replay else before) with
        attached := some ⟨terminal, live.output.length⟩ }

/-- The handler of `close` and `error`. -/
def detach (socket : ℕ) : Multiplexer :=
  { mux with
    terminals := mux.terminals.map fun live =>
      { live with viewers := live.viewers.filter fun v => decide (v ≠ socket) } }

/-- The viewers of the terminals that are in the table. -/
def viewers : List ℕ :=
  mux.entries.flatMap fun entry => ((mux.terminals[entry.terminal]?).map LiveTerminal.viewers).getD []

def step (mux : Multiplexer) : Event → Option Multiplexer
  | .create sessionId id => some (mux.create sessionId id)
  | .data terminal chunk => (mux.terminals[terminal]?).map fun live => mux.data terminal live chunk
  | .exit terminal => (mux.terminals[terminal]?).map fun live => mux.exit terminal live
  | .attach sessionId terminalId socket =>
    -- A socket is attached when it connects, and then never again.
    if (mux.sockets socket).attached.isSome then none
    else
      match mux.find sessionId terminalId with
      | none => some mux
      | some entry =>
        (mux.terminals[entry.terminal]?).map fun live => mux.attach entry.terminal live socket
  | .detach socket => some (mux.detach socket)
  | .buffered socket amount =>
    some (mux.onSockets [socket] fun before => { before with bufferedAmount := amount })
  | .leave socket => some (mux.onSockets [socket] Socket.close)
  | .closeTerminal sessionId terminalId =>
    match mux.find sessionId terminalId with
    | none => some mux
    | some entry =>
      (mux.terminals[entry.terminal]?).map fun live =>
        { mux.onSockets live.viewers Socket.close with
          entries := mux.entries.filter fun e =>
            decide ¬(e.sessionId = sessionId ∧ e.id = terminalId) }
  | .close =>
    some { mux.onSockets mux.viewers Socket.close with closing := true, entries := [] }

def machine : Machine Multiplexer Event := ⟨step⟩

/-- Sockets that nothing was sent on. -/
def start : Multiplexer := ⟨[], [], false, fun _ => ⟨true, 0, [], none⟩⟩

end Multiplexer
/-! ### What viewers see -/

/-- What was sent on a socket is the end of what its terminal had put out when it was attached, and
all that it has put out since. -/
def Socket.Gapless (socket : Socket) (terminal : ℕ) (output : Bytes) : Prop :=
  ∃ position kept, socket.attached = some ⟨terminal, position⟩ ∧
    kept <:+ output.take position ∧ kept.length ≤ maxReplayBytes ∧
    socket.sent = kept ++ output.drop position

/-- When a terminal puts something out, each of its viewers that is open has room for it. -/
def KeepsUp (mux : Multiplexer) : Event → Prop
  | .data terminal chunk => chunk ≠ [] → ∀ live : LiveTerminal, mux.terminals[terminal]? = some live →
      ∀ v ∈ live.viewers, (mux.sockets v).isOpen = true →
        (mux.sockets v).bufferedAmount < maxBufferedAmount
  | _ => True

/-- A socket of a viewer: it was attached to the terminal, and while it is open it has everything. -/
structure Viewing (socket : Socket) (terminal : ℕ) (output : Bytes) (position : ℕ) : Prop where
  attached : socket.attached = some ⟨terminal, position⟩
  within : position ≤ output.length
  sent : socket.isOpen = true →
    socket.sent = lastOf maxReplayBytes (output.take position) ++ output.drop position

theorem Viewing.gapless {socket : Socket} {terminal position : ℕ} {output : Bytes}
    (h : Viewing socket terminal output position) (hopen : socket.isOpen = true) :
    socket.Gapless terminal output := by
  refine ⟨position, lastOf maxReplayBytes (output.take position), h.attached, lastOf_suffix _ _,
    ?_, h.sent hopen⟩
  rw [length_lastOf]
  exact min_le_left _ _

structure Streamed (mux : Multiplexer) : Prop where
  replay : ∀ (i : ℕ) (live : LiveTerminal), mux.terminals[i]? = some live →
    live.replay = lastOf maxReplayBytes live.output
  viewing : ∀ (i : ℕ) (live : LiveTerminal), mux.terminals[i]? = some live → ∀ v ∈ live.viewers,
    ∃ position, Viewing (mux.sockets v) i live.output position
  fresh : ∀ v, (mux.sockets v).attached = none → (mux.sockets v).sent = []

/-- Nothing is put out and nothing sent: terminals may come and viewers go, sockets may close. -/
structure Quiet (before after : Multiplexer) : Prop where
  terminals : ∀ (i : ℕ) (live : LiveTerminal), after.terminals[i]? = some live →
    (∃ old : LiveTerminal, before.terminals[i]? = some old ∧ live.replay = old.replay ∧ live.output = old.output ∧
      live.viewers ⊆ old.viewers) ∨ live = ⟨true, [], [], []⟩
  attached : ∀ v, (after.sockets v).attached = (before.sockets v).attached
  sent : ∀ v, (after.sockets v).sent = (before.sockets v).sent
  isOpen : ∀ v, (after.sockets v).isOpen = true → (before.sockets v).isOpen = true

theorem Quiet.streamed {before after : Multiplexer} (h : Quiet before after)
    (hbefore : Streamed before) : Streamed after := by
  refine ⟨fun i live hlive => ?_, fun i live hlive v hv => ?_, fun v hv => ?_⟩
  · rcases h.terminals i live hlive with ⟨old, hold, hreplay, houtput, -⟩ | rfl
    · rw [hreplay, houtput]
      exact hbefore.replay i old hold
    · rfl
  · rcases h.terminals i live hlive with ⟨old, hold, -, houtput, hviewers⟩ | rfl
    · obtain ⟨position, hviewing⟩ := hbefore.viewing i old hold v (hviewers hv)
      rw [houtput]
      refine ⟨position, (h.attached v).trans hviewing.attached, hviewing.within, fun hopen => ?_⟩
      rw [h.sent v]
      exact hviewing.sent (h.isOpen v hopen)
    · exact absurd hv List.not_mem_nil
  · rw [h.sent v]
    exact hbefore.fresh v ((h.attached v).symm.trans hv)

section Steps
variable {mux : Multiplexer} {live : LiveTerminal} {terminal socket : ℕ} {chunk : Bytes}

theorem setTerminal_get {i : ℕ} {changed found : LiveTerminal}
    (h : (mux.terminals.set terminal changed)[i]? = some found) :
    i = terminal ∧ found = changed ∨ i ≠ terminal ∧ mux.terminals[i]? = some found := by
  by_cases hi : i = terminal
  · subst hi
    left
    rw [List.getElem?_set_self'] at h
    obtain ⟨old, -, hfound⟩ := Option.map_eq_some_iff.mp h
    exact ⟨rfl, hfound.symm⟩
  · right
    rw [List.getElem?_set_ne (Ne.symm hi)] at h
    exact ⟨hi, h⟩

/-- Closing sockets, or reporting another amount, is quiet. -/
theorem quiet_onSockets {viewers : List ℕ} {f : Socket → Socket}
    (hattached : ∀ s : Socket, (f s).attached = s.attached) (hsent : ∀ s : Socket, (f s).sent = s.sent)
    (hopen : ∀ s : Socket, (f s).isOpen = true → s.isOpen = true) :
    Quiet mux (mux.onSockets viewers f) where
  terminals := fun i live hlive =>
    .inl ⟨live, hlive, rfl, rfl, List.Subset.refl _⟩
  attached := fun v => by
    by_cases hv : v ∈ viewers <;> simp [Multiplexer.onSockets, hv, hattached]
  sent := fun v => by
    by_cases hv : v ∈ viewers <;> simp [Multiplexer.onSockets, hv, hsent]
  isOpen := fun v => by
    by_cases hv : v ∈ viewers
    · simpa [Multiplexer.onSockets, hv] using hopen _
    · simp [Multiplexer.onSockets, hv]

theorem quiet_close {viewers : List ℕ} : Quiet mux (mux.onSockets viewers Socket.close) :=
  quiet_onSockets (fun _ => rfl) (fun _ => rfl) fun _ h => by cases h

theorem quiet_exit (hlive : mux.terminals[terminal]? = some live) :
    Quiet mux (mux.exit terminal live) := by
  have hclosed : Quiet mux (mux.onSockets live.viewers Socket.close) := quiet_close
  refine ⟨fun i found hfound => ?_, hclosed.attached, hclosed.sent, hclosed.isOpen⟩
  rcases setTerminal_get hfound with ⟨rfl, rfl⟩ | ⟨-, hold⟩
  · exact .inl ⟨live, hlive, rfl, rfl, List.nil_subset _⟩
  · exact .inl ⟨found, hold, rfl, rfl, List.Subset.refl _⟩

theorem quiet_create (sessionId id : String) : Quiet mux (mux.create sessionId id) := by
  unfold Multiplexer.create
  split
  · exact ⟨fun i live hlive => .inl ⟨live, hlive, rfl, rfl, List.Subset.refl _⟩, fun _ => rfl,
      fun _ => rfl, fun _ h => h⟩
  · refine ⟨fun i live hlive => ?_, fun _ => rfl, fun _ => rfl, fun _ h => h⟩
    rcases Nat.lt_or_ge i mux.terminals.length with hold | hnew
    · rw [List.getElem?_append_left hold] at hlive
      exact .inl ⟨live, hlive, rfl, rfl, List.Subset.refl _⟩
    · rw [List.getElem?_append_right hnew] at hlive
      exact .inr (List.mem_singleton.mp (List.mem_of_getElem? hlive))

theorem quiet_detach : Quiet mux (mux.detach socket) := by
  refine ⟨fun i live hlive => ?_, fun _ => rfl, fun _ => rfl, fun _ h => h⟩
  simp only [Multiplexer.detach, List.getElem?_map, Option.map_eq_some_iff] at hlive
  obtain ⟨old, hold, rfl⟩ := hlive
  exact .inl ⟨old, hold, rfl, rfl, List.filter_subset_self _⟩

/-- The terminal of a viewer is the one it was attached to. -/
theorem Streamed.viewer_unique (h : Streamed mux) {i j v : ℕ} {found other : LiveTerminal}
    (hi : mux.terminals[i]? = some found) (hj : mux.terminals[j]? = some other)
    (hv : v ∈ found.viewers) (hv' : v ∈ other.viewers) : i = j := by
  obtain ⟨position, hviewing⟩ := h.viewing i found hi v hv
  obtain ⟨position', hviewing'⟩ := h.viewing j other hj v hv'
  have hsame := hviewing.attached.symm.trans hviewing'.attached
  exact congrArg Attachment.terminal (Option.some.inj hsame)

theorem streamed_attach (h : Streamed mux) (hlive : mux.terminals[terminal]? = some live)
    (hfresh : (mux.sockets socket).attached = none) :
    Streamed (mux.attach terminal live socket) := by
  have hothers : ∀ v, v ≠ socket → (mux.attach terminal live socket).sockets v = mux.sockets v :=
    fun v hne => by simp [Multiplexer.attach, Multiplexer.onSockets, hne, Multiplexer.setTerminal]
  have hviewer : ∀ (i : ℕ) (found : LiveTerminal), mux.terminals[i]? = some found →
      ∀ v ∈ found.viewers, v ≠ socket := by
    rintro i found hfound v hv rfl
    obtain ⟨position, hviewing⟩ := h.viewing i found hfound v hv
    have hattached := hviewing.attached
    rw [hfresh] at hattached
    cases hattached
  have hnew : Viewing ((mux.attach terminal live socket).sockets socket) terminal live.output
      live.output.length := by
    have hnothing := h.fresh socket hfresh
    have hreplay := h.replay terminal live hlive
    refine ⟨by simp [Multiplexer.attach, Multiplexer.onSockets], le_rfl, fun hopen => ?_⟩
    rw [List.take_length, List.drop_length, List.append_nil, ← hreplay]
    simp only [Multiplexer.attach, Multiplexer.onSockets, Multiplexer.setTerminal,
      List.mem_singleton, if_true] at hopen ⊢
    split at hopen
    next hsome =>
      have hbefore : (mux.sockets socket).isOpen = true := by
        unfold Socket.send at hopen
        split at hopen <;> assumption
      rw [if_pos hsome, Socket.send, if_pos hbefore, hnothing, List.nil_append]
    next hnone =>
      rw [if_neg hnone, hnothing]
      exact (List.length_eq_zero_iff.mp (by omega)).symm
  refine ⟨fun i found hfound => ?_, fun i found hfound v hv => ?_, fun v hv => ?_⟩
  · rcases setTerminal_get hfound with ⟨rfl, rfl⟩ | ⟨-, hold⟩
    · exact h.replay i live hlive
    · exact h.replay i found hold
  · rcases setTerminal_get hfound with ⟨rfl, rfl⟩ | ⟨-, hold⟩
    · rcases List.mem_append.mp hv with hv | hv
      · rw [hothers v (hviewer i live hlive v hv)]
        exact h.viewing i live hlive v hv
      · rw [List.mem_singleton.mp hv]
        exact ⟨_, hnew⟩
    · rw [hothers v (hviewer i found hold v hv)]
      exact h.viewing i found hold v hv
  · by_cases hsocket : v = socket
    · rw [hsocket, hnew.attached] at hv
      cases hv
    · rw [hothers v hsocket] at hv ⊢
      exact h.fresh v hv

theorem forward_attached (s : Socket) : (s.forward chunk).attached = s.attached := by
  unfold Socket.forward Socket.send
  split
  · split <;> rfl
  · rfl

theorem forward_isOpen (s : Socket) : (s.forward chunk).isOpen = s.isOpen := by
  unfold Socket.forward Socket.send
  split
  · split <;> rfl
  · rfl

/-- A viewer with room gets the chunk. -/
theorem forward_sent {s : Socket} (hopen : s.isOpen = true)
    (hroom : chunk ≠ [] → s.bufferedAmount < maxBufferedAmount) :
    (s.forward chunk).sent = s.sent ++ chunk := by
  by_cases hchunk : chunk = []
  · subst hchunk
    by_cases hbuffered : s.bufferedAmount < maxBufferedAmount <;>
      simp [Socket.forward, Socket.send, hopen, hbuffered]
  · simp [Socket.forward, Socket.send, hopen, hroom hchunk]

theorem streamed_data (h : Streamed mux) (hlive : mux.terminals[terminal]? = some live)
    (hroom : chunk ≠ [] → ∀ v ∈ live.viewers, (mux.sockets v).isOpen = true →
      (mux.sockets v).bufferedAmount < maxBufferedAmount) :
    Streamed (mux.data terminal live chunk) := by
  have hothers : ∀ v, v ∉ live.viewers → (mux.data terminal live chunk).sockets v = mux.sockets v :=
    fun v hv => by simp [Multiplexer.data, Multiplexer.onSockets, hv, Multiplexer.setTerminal]
  have hviewers : ∀ v ∈ live.viewers,
      (mux.data terminal live chunk).sockets v = (mux.sockets v).forward chunk :=
    fun v hv => by simp [Multiplexer.data, Multiplexer.onSockets, hv, Multiplexer.setTerminal]
  refine ⟨fun i found hfound => ?_, fun i found hfound v hv => ?_, fun v hv => ?_⟩
  · rcases setTerminal_get hfound with ⟨rfl, rfl⟩ | ⟨-, hold⟩
    · have htrim : (if maxReplayBytes < (live.replay ++ chunk).length then
          (live.replay ++ chunk).drop ((live.replay ++ chunk).length - maxReplayBytes)
          else live.replay ++ chunk) = lastOf maxReplayBytes (live.replay ++ chunk) := by
        split
        next => rfl
        next hshort => rw [lastOf_of_le (Nat.le_of_not_lt hshort)]
      simp only [htrim]
      rw [h.replay i live hlive, lastOf_lastOf_append]
    · exact h.replay i found hold
  · rcases setTerminal_get hfound with ⟨rfl, rfl⟩ | ⟨hne, hold⟩
    · obtain ⟨position, hviewing⟩ := h.viewing i live hlive v hv
      rw [hviewers v hv]
      refine ⟨position, (forward_attached _).trans hviewing.attached, ?_, fun hopen => ?_⟩
      · simpa using hviewing.within.trans (Nat.le_add_right _ _)
      · rw [forward_isOpen] at hopen
        rw [forward_sent hopen fun hchunk => hroom hchunk v hv hopen, hviewing.sent hopen,
          List.take_append_of_le_length hviewing.within,
          List.drop_append_of_le_length hviewing.within, List.append_assoc]
    · have hv' : v ∉ live.viewers := fun hv' => hne (h.viewer_unique hold hlive hv hv')
      rw [hothers v hv']
      exact h.viewing i found hold v hv
  · by_cases hv' : v ∈ live.viewers
    · obtain ⟨position, hviewing⟩ := h.viewing terminal live hlive v hv'
      rw [hviewers v hv', forward_attached, hviewing.attached] at hv
      cases hv
    · rw [hothers v hv'] at hv ⊢
      exact h.fresh v hv

end Steps

/-! ### Runs -/

theorem streamed_step {mux next : Multiplexer} {event : Event} (h : Streamed mux)
    (hkeeps : KeepsUp mux event) (hstep : Multiplexer.machine.step mux event = some next) :
    Streamed next := by
  change mux.step event = some next at hstep
  cases event with
  | create sessionId id =>
    cases hstep
    exact (quiet_create sessionId id).streamed h
  | data terminal chunk =>
    obtain ⟨live, hlive, rfl⟩ := Option.map_eq_some_iff.mp hstep
    exact streamed_data h hlive fun hchunk => hkeeps hchunk live hlive
  | exit terminal =>
    obtain ⟨live, hlive, rfl⟩ := Option.map_eq_some_iff.mp hstep
    exact (quiet_exit hlive).streamed h
  | attach sessionId terminalId socket =>
    simp only [Multiplexer.step] at hstep
    split at hstep
    next => cases hstep
    next hfresh =>
      split at hstep
      next =>
        cases hstep
        exact h
      next entry hentry =>
        obtain ⟨live, hlive, rfl⟩ := Option.map_eq_some_iff.mp hstep
        exact streamed_attach h hlive (by simpa using hfresh)
  | detach socket =>
    cases hstep
    exact quiet_detach.streamed h
  | buffered socket amount =>
    cases hstep
    have hquiet : Quiet mux (mux.onSockets [socket] fun before =>
        { before with bufferedAmount := amount }) :=
      quiet_onSockets (fun _ => rfl) (fun _ => rfl) fun _ hopen => hopen
    exact hquiet.streamed h
  | leave socket =>
    cases hstep
    exact quiet_close.streamed h
  | closeTerminal sessionId terminalId =>
    simp only [Multiplexer.step] at hstep
    split at hstep
    next =>
      cases hstep
      exact h
    next entry hentry =>
      obtain ⟨live, hlive, rfl⟩ := Option.map_eq_some_iff.mp hstep
      have hquiet : Quiet mux (mux.onSockets live.viewers Socket.close) := quiet_close
      have hclosed := hquiet.streamed h
      exact ⟨hclosed.replay, hclosed.viewing, hclosed.fresh⟩
  | close =>
    cases hstep
    have hquiet : Quiet mux (mux.onSockets mux.viewers Socket.close) := quiet_close
    have hclosed := hquiet.streamed h
    exact ⟨hclosed.replay, hclosed.viewing, hclosed.fresh⟩

theorem streamed_start : Streamed Multiplexer.start where
  replay := fun i live hlive => by cases hlive
  viewing := fun i live hlive => by cases hlive
  fresh := fun _ _ => rfl

/-- In a run in which every open viewer has room for whatever its terminal puts out, each of them
has been sent a stream without gaps. -/
theorem viewers_gapless {events : List Event} {mux : Multiplexer}
    (h : Multiplexer.machine.Path KeepsUp Multiplexer.start events mux) {terminal socket : ℕ}
    {live : LiveTerminal} (hlive : mux.terminals[terminal]? = some live)
    (hviewer : socket ∈ live.viewers) (hopen : (mux.sockets socket).isOpen = true) :
    (mux.sockets socket).Gapless terminal live.output := by
  have hstreamed : Streamed mux :=
    h.invariant (fun _ _ _ hs hkeeps hstep => streamed_step hs hkeeps hstep) streamed_start
  obtain ⟨position, hviewing⟩ := hstreamed.viewing terminal live hlive socket hviewer
  exact hviewing.gapless hopen

/-- A viewer that comes after two bytes and stays for a third. -/
theorem viewers_gapless_late : ∃ mux live,
    Multiplexer.machine.Run Multiplexer.start [.create "run" "term", .data 0 [104, 105],
      .attach "run" "term" 7, .data 0 [33]] mux ∧
    mux.terminals[0]? = some live ∧ live.output = [104, 105, 33] ∧
    (mux.sockets 7).sent = [104, 105, 33] ∧ (mux.sockets 7).Gapless 0 live.output := by
  have hrun : Multiplexer.machine.Path KeepsUp Multiplexer.start [.create "run" "term",
      .data 0 [104, 105], .attach "run" "term" 7, .data 0 [33]] _ :=
    .cons trivial rfl
      (.cons (fun _ live hlive v hv => by cases hlive; cases hv) rfl
        (.cons trivial rfl
          (.cons (fun _ live hlive v hv _ => by
            cases hlive
            obtain rfl := List.mem_singleton.mp hv
            decide) rfl (.nil _))))
  exact ⟨_, _, hrun.toRun, rfl, by decide, by decide,
    viewers_gapless hrun rfl (List.mem_singleton_self 7) rfl⟩

/-- A viewer with a million bytes waiting is passed over and stays attached. -/
theorem chunk_passed_over : ∃ mux live,
    Multiplexer.machine.Run Multiplexer.start [.create "run" "term", .attach "run" "term" 7,
      .buffered 7 1000000, .data 0 [33]] mux ∧
    mux.terminals[0]? = some live ∧ 7 ∈ live.viewers ∧ (mux.sockets 7).isOpen = true ∧
    ¬(mux.sockets 7).Gapless 0 live.output := by
  have hrun : Multiplexer.machine.Run Multiplexer.start [.create "run" "term",
      .attach "run" "term" 7, .buffered 7 1000000, .data 0 [33]] _ :=
    .cons trivial rfl (.cons trivial rfl (.cons trivial rfl (.cons trivial rfl (.nil _))))
  refine ⟨_, _, hrun, rfl, List.mem_singleton_self 7, rfl, ?_⟩
  rintro ⟨position, kept, hattached, -, -, hsent⟩
  obtain ⟨-, rfl⟩ := Attachment.mk.inj (Option.some.inj hattached)
  have hnothing : kept ++ [33] = [] := hsent.symm
  simp at hnothing

end PiDeck.Supervisor.TerminalMultiplexer
