import Mathlib
import PiDeck.Server.EventHub
import PiDeck.Transition.Machine

/-! The handshake of a connection next to mutations of the mux store. A mutation is written first and
announced after; the connection subscribes, reads the cursor of its snapshot, reads the store, and
then skips the events up to the cursor. The store and what the snapshot lists of it are parameters. -/
namespace PiDeck.Server
open PiDeck.Transition

def muxEvent : String := "mux:event"

/-- What a mutation writes, and the arguments of the events that it announces this with. -/
structure Mutation (σ : Type) where
  write : σ → σ
  announcements : List (List EventArgument)

inductive HandshakePhase
  | authenticated
  | subscribed
  | cursorRead
  | live
  | ended
  deriving DecidableEq

/-- The store, the hub and one connection. `written` lists the mutations so far, `announced` has for
each of them the places of its events in the channel, and `covered` counts the mutations that were
written when the connection read the store. -/
structure Handshake (σ ρ : Type) where
  store : σ
  written : List (Mutation σ)
  announced : ℕ → List ℕ
  hub : EventHub
  deviceId : Option String
  phase : HandshakePhase
  position : ℕ
  snapshotSequence : ℕ
  snapshot : Option ρ
  covered : ℕ
  delivered : List HostEvent

/-- `accepted` says whether the mailbox of the connection takes the frame. -/
inductive HandshakeStep (σ : Type)
  | commit (mutation : Mutation σ)
  | announce (index : ℕ)
  | emit (channel : String) (args : List EventArgument)
  | emitTerminal
  | subscribe
  | readCursor
  | readStore
  | receive (accepted : Bool)
  | disconnect

namespace Handshake
variable {σ ρ : Type}

def initial (store : σ) (deviceId : Option String) : Handshake σ ρ :=
  { store := store
    written := []
    announced := fun _ => []
    hub := .new
    deviceId := deviceId
    phase := .authenticated
    position := 0
    snapshotSequence := 0
    snapshot := none
    covered := 0
    delivered := [] }

/-- `mutate`: the store changes under its lock. -/
def commit (server : Handshake σ ρ) (mutation : Mutation σ) : Handshake σ ρ :=
  { server with
    store := mutation.write server.store
    written := server.written ++ [mutation] }

/-- A mutation emits the next of its events. -/
def announce (server : Handshake σ ρ) (index : ℕ) : Option (Handshake σ ρ) := do
  let mutation ← server.written[index]?
  let args ← mutation.announcements[(server.announced index).length]?
  return { server with
    hub := server.hub.emit muxEvent args
    announced := Function.update server.announced index
      (server.announced index ++ [server.hub.sender.sent.length]) }

def subscribe (server : Handshake σ ρ) : Option (Handshake σ ρ) :=
  if server.phase = .authenticated then
    some { server with phase := .subscribed, position := server.hub.sender.subscribe }
  else none

/-- The first part of `snapshot`. -/
def readCursor (server : Handshake σ ρ) : Option (Handshake σ ρ) :=
  if server.phase = .subscribed then
    some { server with phase := .cursorRead, snapshotSequence := server.hub.lastSequence }
  else none

/-- The rest of `snapshot`, which is sent at once. -/
def readStore (list : σ → ρ) (server : Handshake σ ρ) : Option (Handshake σ ρ) :=
  if server.phase = .cursorRead then
    some { server with
      phase := .live
      snapshot := some (list server.store)
      covered := server.written.length }
  else none

/-- The main loop on one event. -/
def handle (server : Handshake σ ρ) (accepted : Bool) (event : HostEvent) : Handshake σ ρ :=
  if event.sequence ≤ server.snapshotSequence then server
  else if event.channel = "security:device-revoked" then
    if event.args.head?.bind (·.asStr) = server.deviceId then { server with phase := .ended }
    else server
  else if event.channel = "terminal:semantic" then server
  else if accepted = false then { server with phase := .ended }
  else if event.channel = "terminal:exit" then server
  else { server with delivered := server.delivered ++ [event] }

def receive (server : Handshake σ ρ) (accepted : Bool) : Option (Handshake σ ρ) :=
  if server.phase = .live then
    (server.hub.sender.recv server.position).map fun
      | (.message event, position) => { server with position := position }.handle accepted event
      | (.lagged _, position) => { server with position := position, phase := .ended }
  else none

def step (list : σ → ρ) (server : Handshake σ ρ) : HandshakeStep σ → Option (Handshake σ ρ)
  | .commit mutation => some (server.commit mutation)
  | .announce index => server.announce index
  | .emit channel args =>
    if channel = muxEvent then none else some { server with hub := server.hub.emit channel args }
  | .emitTerminal => some { server with hub := server.hub.emitTerminal }
  | .subscribe => server.subscribe
  | .readCursor => server.readCursor
  | .readStore => server.readStore list
  | .receive accepted => server.receive accepted
  | .disconnect => some { server with phase := .ended }

def machine (list : σ → ρ) : Machine (Handshake σ ρ) (HandshakeStep σ) := ⟨step list⟩

/-! ### The invariant -/

variable {list : σ → ρ} {base : σ} {server next : Handshake σ ρ}

/-- What holds of the channel: events have increasing sequences, and the events of a mutation are
there in the order of its announcements. -/
structure Announces (hub : EventHub) (written : List (Mutation σ)) (announced : ℕ → List ℕ) :
    Prop where
  increasing : hub.sender.sent.Pairwise fun a b => a.sequence < b.sequence
  bounded : ∀ event ∈ hub.sender.sent, event.sequence ≤ hub.sequence
  unwritten : ∀ index, written.length ≤ index → announced index = []
  events : ∀ (index : ℕ) (mutation : Mutation σ) (j place : ℕ), written[index]? = some mutation →
    (announced index)[j]? = some place →
    ∃ (event : HostEvent) (args : List EventArgument), hub.sender.sent[place]? = some event ∧
      mutation.announcements[j]? = some args ∧ event.channel = muxEvent ∧ event.args = args

/-- An event is newer than the snapshot, and either ahead of the receiver or delivered. -/
def Arrives (server : Handshake σ ρ) (place : ℕ) : Prop :=
  ∃ event, server.hub.sender.sent[place]? = some event ∧
    server.snapshotSequence < event.sequence ∧
    (server.position ≤ place ∨ event ∈ server.delivered)

/-- The invariant of the handshake. -/
structure Complete (list : σ → ρ) (base : σ) (server : Handshake σ ρ) : Prop where
  announces : Announces server.hub server.written server.announced
  store : server.store = server.written.foldl (fun store mutation => mutation.write store) base
  cursor : server.snapshotSequence ≤ server.hub.sequence
  snapshot : server.phase = .live → server.covered ≤ server.written.length ∧
    server.snapshot = some (list ((server.written.take server.covered).foldl
      (fun store mutation => mutation.write store) base))
  position : server.position ≤ server.hub.sender.sent.length
  arrives : server.phase = .live → ∀ index, server.covered ≤ index →
    ∀ place ∈ server.announced index, server.Arrives place

/-! ### One step -/

theorem Announces.emit {hub : EventHub} {written : List (Mutation σ)} {announced : ℕ → List ℕ}
    (h : Announces hub written announced) (hroom : hub.sequence < 2 ^ 64 - 1)
    (channel : String) (args : List EventArgument) :
    Announces (hub.emit channel args) written announced := by
  have hnext : hub.nextSequence = hub.sequence + 1 := by
    rw [EventHub.nextSequence]
    omega
  refine ⟨?_, ?_, h.unwritten, ?_⟩
  · simp only [EventHub.emit, Broadcast.send_sent]
    rw [List.pairwise_append]
    refine ⟨h.increasing, List.pairwise_singleton _ _, fun event hmem new hnew => ?_⟩
    rw [List.mem_singleton.mp hnew, hnext]
    exact Nat.lt_succ_of_le (h.bounded event hmem)
  · intro event hmem
    simp only [EventHub.emit, Broadcast.send_sent, List.mem_append, List.mem_singleton] at hmem ⊢
    obtain hmem | rfl := hmem
    · have hbound := h.bounded event hmem
      omega
    · exact le_refl _
  · intro index mutation j place hwritten hplace
    obtain ⟨event, args', hsent, hargs, hevent⟩ := h.events index mutation j place hwritten hplace
    exact ⟨event, args', Broadcast.getElem?_send hsent _, hargs, hevent⟩

theorem Arrives.emit {place : ℕ} (h : server.Arrives place) (channel : String)
    (args : List EventArgument) :
    Arrives { server with hub := server.hub.emit channel args } place := by
  obtain ⟨event, hsent, hnewer, hwhere⟩ := h
  exact ⟨event, Broadcast.getElem?_send hsent _, hnewer, hwhere⟩

theorem Complete.emit (h : server.Complete list base) (hroom : server.hub.sequence < 2 ^ 64 - 1)
    (channel : String) (args : List EventArgument) :
    Complete list base { server with hub := server.hub.emit channel args } := by
  have hnext : server.hub.sequence ≤ server.hub.nextSequence := by
    rw [EventHub.nextSequence]
    omega
  refine ⟨h.announces.emit hroom channel args, h.store, h.cursor.trans hnext, h.snapshot, ?_,
    fun hlive index hindex place hplace => (h.arrives hlive index hindex place hplace).emit _ _⟩
  simp only [EventHub.emit, Broadcast.send_sent, List.length_append]
  exact h.position.trans (Nat.le_add_right _ _)

theorem Complete.announce {index : ℕ} (h : server.Complete list base)
    (hroom : server.hub.sequence < 2 ^ 64 - 1) (hran : server.announce index = some next) :
    next.Complete list base := by
  simp only [Handshake.announce, Option.bind_eq_bind, Option.bind_eq_some_iff, Option.pure_def,
    Option.some.injEq] at hran
  obtain ⟨mutation, hwritten, args, hargs, rfl⟩ := hran
  have hemitted := h.emit hroom muxEvent args
  have hnext : server.hub.nextSequence = server.hub.sequence + 1 := by
    rw [EventHub.nextSequence]
    omega
  have hnew : (server.hub.emit muxEvent args).sender.sent[server.hub.sender.sent.length]? =
      some ⟨server.hub.nextSequence, muxEvent, args⟩ := by
    simp [EventHub.emit]
  have hlength := List.getElem?_eq_some_iff.mp hwritten
  refine ⟨⟨hemitted.announces.increasing, hemitted.announces.bounded, ?_, ?_⟩, h.store,
    hemitted.cursor, h.snapshot, hemitted.position, ?_⟩
  · intro other hother
    have hne : other ≠ index := by
      rintro rfl
      exact absurd hlength.1 (Nat.not_lt.mpr hother)
    simp only [Function.update_of_ne hne]
    exact h.announces.unwritten other hother
  · intro other mutation' j place hwritten' hplace
    by_cases hother : other = index
    · subst hother
      obtain rfl := Option.some.inj (hwritten.symm.trans hwritten')
      simp only [Function.update_self] at hplace
      by_cases hold : j < (server.announced other).length
      · rw [List.getElem?_append_left hold] at hplace
        exact hemitted.announces.events other mutation j place hwritten hplace
      · obtain ⟨hj, -⟩ := List.getElem?_eq_some_iff.mp hplace
        rw [List.length_append, List.length_singleton] at hj
        obtain rfl : j = (server.announced other).length := by omega
        rw [List.getElem?_append_right (le_refl _), Nat.sub_self, List.getElem?_cons_zero] at hplace
        obtain rfl := Option.some.inj hplace
        exact ⟨_, args, hnew, hargs, rfl, rfl⟩
    · simp only [Function.update_of_ne hother] at hplace
      exact hemitted.announces.events other mutation' j place hwritten' hplace
  · intro hlive other hother place hplace
    by_cases hsame : other = index
    · subst hsame
      simp only [Function.update_self, List.mem_append, List.mem_singleton] at hplace
      obtain hplace | rfl := hplace
      · exact hemitted.arrives hlive other hother place hplace
      · refine ⟨_, hnew, ?_, .inl h.position⟩
        have hcursor := h.cursor
        simp only
        omega
    · simp only [Function.update_of_ne hsame] at hplace
      exact hemitted.arrives hlive other hother place hplace

theorem Complete.commit (h : server.Complete list base) (mutation : Mutation σ) :
    (server.commit mutation).Complete list base := by
  have hold : ∀ index, (server.announced index) ≠ [] →
      (server.written ++ [mutation])[index]? = server.written[index]? := by
    intro index hne
    have hlt : index < server.written.length := by
      by_contra hge
      exact hne (h.announces.unwritten index (Nat.le_of_not_lt hge))
    exact List.getElem?_append_left hlt
  refine ⟨⟨h.announces.increasing, h.announces.bounded, ?_, ?_⟩, ?_, h.cursor, ?_, h.position,
    h.arrives⟩
  · intro index hindex
    simp only [Handshake.commit, List.length_append] at hindex
    exact h.announces.unwritten index (by omega)
  · intro index mutation' j place hwritten hplace
    have hne : server.announced index ≠ [] := by
      intro hnil
      simp only [Handshake.commit, hnil, List.getElem?_nil] at hplace
      cases hplace
    simp only [Handshake.commit, hold index hne] at hwritten
    exact h.announces.events index mutation' j place hwritten hplace
  · simp only [Handshake.commit, List.foldl_append, List.foldl_cons, List.foldl_nil, h.store]
  · intro hlive
    obtain ⟨hcovered, hsnapshot⟩ := h.snapshot hlive
    simp only [Handshake.commit, List.length_append]
    refine ⟨by omega, ?_⟩
    rw [List.take_append_of_le_length hcovered]
    exact hsnapshot

/-- The main loop delivers what is newer than the snapshot, or it ends. -/
theorem handle_eq (server : Handshake σ ρ) (accepted : Bool) (event : HostEvent) :
    ∃ phase more, server.handle accepted event =
        { server with phase := phase, delivered := server.delivered ++ more } ∧
      (phase = .live → server.snapshotSequence < event.sequence → event.channel = muxEvent →
        event ∈ more) := by
  have hchannels : muxEvent ≠ "security:device-revoked" ∧ muxEvent ≠ "terminal:semantic" ∧
      muxEvent ≠ "terminal:exit" := by decide
  have hsame : server = { server with delivered := server.delivered ++ [] } := by simp
  have hended : { server with phase := .ended } =
      { server with phase := .ended, delivered := server.delivered ++ [] } := by simp
  unfold handle
  split_ifs with hold hrevoked hmine hsemantic haccepted hexit
  · exact ⟨_, [], hsame, fun _ hnew => absurd hnew (Nat.not_lt.mpr hold)⟩
  · exact ⟨_, [], hended, fun hlive => (by cases hlive)⟩
  · exact ⟨_, [], hsame, fun _ _ hmux => absurd (hmux.symm.trans hrevoked) hchannels.1⟩
  · exact ⟨_, [], hsame, fun _ _ hmux => absurd (hmux.symm.trans hsemantic) hchannels.2.1⟩
  · exact ⟨_, [], hended, fun hlive => (by cases hlive)⟩
  · exact ⟨_, [], hsame, fun _ _ hmux => absurd (hmux.symm.trans hexit) hchannels.2.2⟩
  · exact ⟨_, [event], rfl, fun _ _ _ => List.mem_singleton_self event⟩

theorem Complete.receive {accepted : Bool} (h : server.Complete list base)
    (hran : server.receive accepted = some next) : next.Complete list base := by
  simp only [Handshake.receive] at hran
  split at hran
  · rename_i hphase
    obtain ⟨⟨received, position⟩, hrecv, hnext⟩ := Option.map_eq_some_iff.mp hran
    have hposition := Broadcast.le_of_recv hrecv
    cases received with
    | lagged skipped =>
      simp only at hnext
      subst hnext
      exact ⟨h.announces, h.store, h.cursor, fun hlive => (by cases hlive), hposition,
        fun hlive => (by cases hlive)⟩
    | message event =>
      simp only at hnext
      obtain ⟨hsent, rfl⟩ := Broadcast.recv_message hrecv
      obtain ⟨phase, more, heq, hmore⟩ :=
        handle_eq { server with position := server.position + 1 } accepted event
      rw [hnext] at heq
      subst heq
      refine ⟨h.announces, h.store, h.cursor, fun _ => h.snapshot hphase, hposition,
        fun hlive index hindex place hplace => ?_⟩
      obtain ⟨event', hsent', hnewer, hwhere⟩ := h.arrives hphase index hindex place hplace
      refine ⟨event', hsent', hnewer, ?_⟩
      obtain hahead | hdelivered := hwhere
      · by_cases hhere : place = server.position
        · -- The event that was received is the mutation's.
          subst hhere
          obtain rfl := Option.some.inj (hsent.symm.trans hsent')
          refine .inr (List.mem_append_right _ (hmore hlive hnewer ?_))
          obtain ⟨j, hj⟩ := List.getElem?_of_mem hplace
          have hlt : index < server.written.length := by
            by_contra hge
            rw [h.announces.unwritten index (Nat.le_of_not_lt hge)] at hplace
            exact absurd hplace List.not_mem_nil
          obtain ⟨event'', _, hsent'', -, hmux, -⟩ := h.announces.events index _ j server.position
            (List.getElem?_eq_getElem hlt) hj
          obtain rfl := Option.some.inj (hsent.symm.trans hsent'')
          exact hmux
        · left
          simp only
          omega
      · exact .inr (List.mem_append_left _ hdelivered)
  · cases hran

theorem hub_receive {accepted : Bool} (hran : server.receive accepted = some next) :
    next.hub = server.hub := by
  simp only [Handshake.receive] at hran
  split at hran
  · obtain ⟨⟨received, position⟩, -, hnext⟩ := Option.map_eq_some_iff.mp hran
    cases received with
    | lagged skipped =>
      simp only at hnext
      subst hnext
      rfl
    | message event =>
      simp only at hnext
      obtain ⟨phase, more, heq, -⟩ := handle_eq { server with position := position } accepted event
      rw [← hnext, heq]
  · cases hran

/-- The invariant holds as long as the sequence of the hub has not reached its end. -/
theorem Complete.step {action : HandshakeStep σ}
    (h : server.hub.sequence < 2 ^ 64 - 1 → server.Complete list base)
    (hstep : server.step list action = some next) (hroom : next.hub.sequence < 2 ^ 64 - 1) :
    next.Complete list base := by
  have hemit : server.hub.nextSequence < 2 ^ 64 - 1 → server.hub.sequence < 2 ^ 64 - 1 := by
    rw [EventHub.nextSequence]
    omega
  cases action with
  | commit mutation =>
    obtain rfl := Option.some.inj hstep
    exact (h hroom).commit mutation
  | announce index =>
    have hbefore : server.hub.sequence < 2 ^ 64 - 1 := by
      simp only [Handshake.step, Handshake.announce, Option.bind_eq_bind, Option.bind_eq_some_iff,
        Option.pure_def, Option.some.injEq] at hstep
      obtain ⟨mutation, -, args, -, rfl⟩ := hstep
      exact hemit hroom
    exact (h hbefore).announce hbefore hstep
  | emit channel args =>
    simp only [Handshake.step] at hstep
    split at hstep
    · cases hstep
    · obtain rfl := Option.some.inj hstep
      exact (h (hemit hroom)).emit (hemit hroom) channel args
  | emitTerminal =>
    obtain rfl := Option.some.inj hstep
    have hold := h (hemit hroom)
    have hnext : server.hub.sequence ≤ server.hub.emitTerminal.sequence := by
      simp only [EventHub.emitTerminal, EventHub.nextSequence]
      have hbefore := hemit hroom
      omega
    exact ⟨⟨hold.announces.increasing, fun event hmem =>
      (hold.announces.bounded event hmem).trans hnext, hold.announces.unwritten,
      hold.announces.events⟩, hold.store, hold.cursor.trans hnext, hold.snapshot, hold.position,
      hold.arrives⟩
  | subscribe =>
    simp only [Handshake.step, subscribe] at hstep
    split at hstep
    · obtain rfl := Option.some.inj hstep
      have hold := h hroom
      exact ⟨hold.announces, hold.store, hold.cursor, fun hlive => (by cases hlive), le_refl _,
        fun hlive => (by cases hlive)⟩
    · cases hstep
  | readCursor =>
    simp only [Handshake.step, readCursor] at hstep
    split at hstep
    · obtain rfl := Option.some.inj hstep
      have hold := h hroom
      exact ⟨hold.announces, hold.store, le_refl _, fun hlive => (by cases hlive), hold.position,
        fun hlive => (by cases hlive)⟩
    · cases hstep
  | readStore =>
    simp only [Handshake.step, readStore] at hstep
    split at hstep
    · obtain rfl := Option.some.inj hstep
      have hold := h hroom
      refine ⟨hold.announces, hold.store, hold.cursor, fun _ => ⟨le_refl _, ?_⟩, hold.position, ?_⟩
      · rw [List.take_length, ← hold.store]
      · -- No mutation that is not in the snapshot is written yet.
        intro _ index hindex place hplace
        rw [hold.announces.unwritten index hindex] at hplace
        exact absurd hplace List.not_mem_nil
    · cases hstep
  | receive accepted =>
    rw [hub_receive hstep] at hroom
    exact (h hroom).receive hstep
  | disconnect =>
    obtain rfl := Option.some.inj hstep
    have hold := h hroom
    exact ⟨hold.announces, hold.store, hold.cursor, fun hlive => (by cases hlive), hold.position,
      fun hlive => (by cases hlive)⟩

theorem complete_initial (list : σ → ρ) (base : σ) (deviceId : Option String) :
    (initial base deviceId : Handshake σ ρ).Complete list base :=
  ⟨⟨List.Pairwise.nil, fun _ hmem => absurd hmem List.not_mem_nil, fun _ _ => rfl,
    fun _ _ _ _ hwritten => (by cases hwritten)⟩, rfl, le_refl _, fun hlive => (by cases hlive),
    le_refl _, fun hlive => (by cases hlive)⟩

/-- An announcement is still to be made, or its event is ahead of the receiver, or it is delivered. -/
def Announced (server : Handshake σ ρ) (index j : ℕ) (args : List EventArgument) : Prop :=
  (server.announced index).length ≤ j ∨ ∃ place event,
    (server.announced index)[j]? = some place ∧ server.hub.sender.sent[place]? = some event ∧
      event.channel = muxEvent ∧ event.args = args ∧
      (server.position ≤ place ∨ event ∈ server.delivered)

/-- While a connection is live and the hub has emitted fewer than `2 ^ 64 - 1` events, its snapshot
lists what a first part of the mutations has written, and every announcement of any other mutation
is delivered after the snapshot unless it is still on its way. -/
theorem snapshot_and_events_complete {base : σ} {deviceId : Option String}
    {steps : List (HandshakeStep σ)}
    (hrun : Machine.Run (machine list) (initial base deviceId) steps server)
    (hlive : server.phase = .live) (hroom : server.hub.sequence < 2 ^ 64 - 1) :
    server.covered ≤ server.written.length ∧
      server.snapshot = some (list ((server.written.take server.covered).foldl
        (fun store mutation => mutation.write store) base)) ∧
      ∀ index mutation, server.written[index]? = some mutation → index < server.covered ∨
        ∀ j args, mutation.announcements[j]? = some args → server.Announced index j args := by
  have hcomplete : server.hub.sequence < 2 ^ 64 - 1 → server.Complete list base :=
    hrun.invariant (I := fun server : Handshake σ ρ =>
      server.hub.sequence < 2 ^ 64 - 1 → server.Complete list base)
      (fun _ _ _ h _ hstep hroom => Complete.step h hstep hroom)
      fun _ => complete_initial list base deviceId
  have h := hcomplete hroom
  obtain ⟨hcovered, hsnapshot⟩ := h.snapshot hlive
  refine ⟨hcovered, hsnapshot, fun index mutation hwritten => ?_⟩
  by_cases hindex : index < server.covered
  · exact .inl hindex
  refine .inr fun j args hargs => ?_
  by_cases hcome : (server.announced index).length ≤ j
  · exact .inl hcome
  · have hplace := List.getElem?_eq_getElem (Nat.lt_of_not_le hcome)
    obtain ⟨event, args', hsent, hargs', hmux, hevent⟩ :=
      h.announces.events index mutation j _ hwritten hplace
    obtain rfl := Option.some.inj (hargs.symm.trans hargs')
    obtain ⟨event', hsent', -, hwhere⟩ := h.arrives hlive index (Nat.le_of_not_lt hindex) _
      (List.getElem_mem (Nat.lt_of_not_le hcome))
    obtain rfl := Option.some.inj (hsent.symm.trans hsent')
    exact .inr ⟨_, event, hplace, hsent, hmux, hevent, hwhere⟩

/-- A mutation that adds a tab, with one event. -/
def addTab (tab : ℕ) (json : String) : Mutation (List ℕ) :=
  { write := fun tabs => tabs ++ [tab]
    announcements := [[.other json]] }

/-- A mutation before the snapshot and one after the store was read. -/
def twoTabs : List (HandshakeStep (List ℕ)) :=
  [.commit (addTab 1 "tab-1"), .subscribe, .readCursor, .readStore, .announce 0,
    .commit (addTab 2 "tab-2"), .announce 1, .receive true, .receive true]

theorem snapshot_and_events_complete_two_tabs : ∃ server,
    Machine.Run (machine fun tabs : List ℕ => tabs) (initial [] none) twoTabs server ∧
      server.snapshot = some [1] ∧ server.position = server.hub.sender.sent.length ∧
      server.covered ≤ server.written.length ∧ server.Announced 1 0 [.other "tab-2"] := by
  obtain ⟨server, hrun, hlive, hroom, hsnapshot, hposition, hwritten, hcovered⟩ : ∃ server,
      Machine.Run (machine fun tabs : List ℕ => tabs) (initial [] none) twoTabs server ∧
      server.phase = .live ∧ server.hub.sequence < 2 ^ 64 - 1 ∧ server.snapshot = some [1] ∧
      server.position = server.hub.sender.sent.length ∧
      server.written[1]? = some (addTab 2 "tab-2") ∧ ¬1 < server.covered :=
    ⟨_, .cons trivial rfl (.cons trivial rfl (.cons trivial rfl (.cons trivial rfl
      (.cons trivial rfl (.cons trivial rfl (.cons trivial rfl (.cons trivial rfl
        (.cons trivial rfl (.nil _))))))))), rfl, by decide, rfl, rfl, rfl, by decide⟩
  obtain ⟨hle, -, hcomplete⟩ := snapshot_and_events_complete hrun hlive hroom
  obtain hreflected | hannounced := hcomplete 1 _ hwritten
  · exact absurd hreflected hcovered
  · exact ⟨server, hrun, hsnapshot, hposition, hle, hannounced 0 _ rfl⟩

/-! ### The end of the counter -/

/-- The sequence of the hub is `sequence`. -/
def atSequence (server : Handshake σ ρ) (sequence : ℕ) : Handshake σ ρ :=
  { server with hub := ⟨sequence, server.hub.sender⟩ }

theorem run_emitTerminal (list : σ → ρ) (server : Handshake σ ρ) (n : ℕ) :
    Machine.Run (machine list) (server.atSequence 0) (List.replicate n .emitTerminal)
      (server.atSequence (min n (2 ^ 64 - 1))) := by
  induction n with
  | zero =>
    rw [Nat.zero_min]
    exact .nil _
  | succ n ih =>
    rw [List.replicate_succ']
    have hnext : min (min n (2 ^ 64 - 1) + 1) (2 ^ 64 - 1) = min (n + 1) (2 ^ 64 - 1) := by omega
    refine ih.append (.single trivial ?_)
    rw [← hnext]
    rfl

/-- A mutation that is written and announced once the counter stands still, after the snapshot. -/
theorem run_lost_tab (sequence : ℕ) (hsequence : sequence = 2 ^ 64 - 1) : ∃ server,
    Machine.Run (machine fun tabs : List ℕ => tabs)
      ((initial [] none : Handshake (List ℕ) (List ℕ)).atSequence sequence)
      [.subscribe, .readCursor, .readStore, .commit (addTab 1 "tab-1"), .announce 0, .receive true]
      server ∧ server.phase = .live ∧ server.snapshot = some [] ∧ server.store = [1] ∧
      server.covered = 0 ∧ server.announced 0 = [0] ∧ server.position = 1 ∧
      server.delivered = [] := by
  subst hsequence
  exact ⟨_, .cons trivial rfl (.cons trivial rfl (.cons trivial rfl (.cons trivial rfl
    (.cons trivial rfl (.cons trivial rfl (.nil _)))))), rfl, rfl, rfl, rfl, rfl, rfl, rfl⟩

/-- Once the counter stands still, an event after the snapshot is not newer than it, and is lost. -/
theorem tab_lost : ∃ steps server,
    Machine.Run (machine fun tabs : List ℕ => tabs) (initial [] none) steps server ∧
      server.phase = .live ∧ server.snapshot = some [] ∧ server.store = [1] ∧
      server.covered = 0 ∧ server.announced 0 = [0] ∧ server.position = 1 ∧
      server.delivered = [] := by
  obtain ⟨n, hn⟩ : ∃ n, n = 2 ^ 64 - 1 := ⟨_, rfl⟩
  obtain ⟨server, hrun, hrest⟩ := run_lost_tab (min n (2 ^ 64 - 1)) (by omega)
  exact ⟨_, server, (run_emitTerminal _ (initial [] none) n).append hrun, hrest⟩

end Handshake
end PiDeck.Server
