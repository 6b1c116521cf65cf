import PiDeck.Outbound.Effects
import PiDeck.Server.Socket

/-! Revoking a device ends its connections: once a connection's receiver is past the revoked event,
its main loop is over and its writer sends no more terminal data. -/
namespace PiDeck.Server
open PiDeck.Wire PiDeck.Outbound PiDeck.Transition PiDeck.Transition.Machine

/-- The frames that carry what a terminal printed. -/
def terminalData (frame : OutboundFrame) : Bool :=
  match frame.data with
  | .binary frame => decide (frame.kind ∈ [.ptyData, .snapshot, .scrollbackChunk])
  | .text _ => false

def holdsTerminalData (outbound : ConnectionOutbound) : Bool :=
  (outbound.mailbox.otherFrames ++ outbound.mailbox.liveFrames).any terminalData

/-- A connection that gets past a revocation of its device reads it, and reads it as newer than its
snapshot, while no terminal data is queued for the writer. -/
def Socket.Notices (socket : Socket) (hub : EventHub) : Prop :=
  ∀ received next, hub.sender.recv socket.position = some (received, next) →
    ∀ i event, socket.position ≤ i → i < next → hub.sender.sent[i]? = some event →
      socket.isRevokedBy event = true →
      (∀ value, received = .message value → socket.snapshotSequence < value.sequence) ∧
        holdsTerminalData socket.outbound = false

/-- A revocation is announced when no connection of the device is between its authentication and
its subscription, and every connection of the device takes notice of it. -/
def SocketServer.Timely (server : SocketServer) : SocketEvent → Prop
  | .emitRevoked deviceId => ∀ id socket, server.sockets id = some socket →
      socket.deviceId = some deviceId → socket.phase ≠ .authenticated
  | .receive id _ => ∀ socket, server.sockets id = some socket → socket.phase = .live →
      socket.Notices server.hub
  | _ => True

/-- The main loop is over and the writer has no terminal data left, nor will it get any. -/
structure Socket.Muted (socket : Socket) : Prop where
  ended : socket.phase = .ended
  shut : socket.outbound.close.isSome = true ∨ socket.outbound.stopped = true
  empty : holdsTerminalData socket.outbound = false

/-- The invariant of a connection; `gone` is a revoked device with the place of its event. -/
structure Socket.Sound (hub : EventHub) (gone : Option (String × ℕ)) (socket : Socket) : Prop where
  position : socket.position ≤ hub.sender.sent.length
  anonymous : ∀ principal, socket.principal = some principal →
    socket.phase ≠ .connecting ∧ ∀ session, socket.phase ≠ .resumed session
  confined : ∀ deviceId i, gone = some (deviceId, i) → socket.deviceId = some deviceId →
    socket.phase ≠ .authenticated ∧ (socket.position ≤ i ∨ socket.Muted)

/-- A revoked device stays so, and its event stays where it is. -/
structure SocketServer.Gone (server : SocketServer) (deviceId : String) (i : ℕ) : Prop where
  revoked : ∃ device, server.devices deviceId = some device ∧ device.revokedAt.isSome = true
  event : ∃ event, server.hub.sender.sent[i]? = some event ∧ event.channel = deviceRevoked ∧
    event.args.head?.bind (·.asStr) = some deviceId

structure SocketServer.Sound (server : SocketServer) (gone : Option (String × ℕ)) : Prop where
  sockets : ∀ id socket, server.sockets id = some socket → socket.Sound server.hub gone
  gone : ∀ deviceId i, gone = some (deviceId, i) → server.Gone deviceId i

namespace Socket
variable {server : SocketServer} {hub hub' : EventHub} {gone : Option (String × ℕ)}
  {socket after : Socket}

theorem Sound.mono (hs : socket.Sound hub gone)
    (hle : hub.sender.sent.length ≤ hub'.sender.sent.length) : socket.Sound hub' gone :=
  ⟨hs.position.trans hle, hs.anonymous, hs.confined⟩

/-- A connection that stays where it is keeps the invariant if its phase does not matter to it. -/
theorem Sound.move (hs : socket.Sound hub gone) (hposition : after.position = socket.position)
    (hprincipal : after.principal = socket.principal)
    (hphase : ∀ principal, after.principal = some principal → after.phase ≠ .authenticated ∧
      after.phase ≠ .connecting ∧ ∀ session, after.phase ≠ .resumed session)
    (hmuted : socket.Muted → after.Muted) : after.Sound hub gone := by
  refine ⟨hposition ▸ hs.position, fun principal hp => (hphase principal hp).2,
    fun deviceId i hgone hdevice => ?_⟩
  have hdevice' : socket.deviceId = some deviceId := by
    rw [← hdevice, Socket.deviceId, Socket.deviceId, hprincipal]
  obtain ⟨principal, hp, -⟩ := Option.bind_eq_some_iff.mp hdevice
  refine ⟨(hphase principal hp).1, ?_⟩
  rcases (hs.confined deviceId i hgone hdevice').2 with hle | hm
  · exact .inl (hposition ▸ hle)
  · exact .inr (hmuted hm)

theorem holdsTerminalData_eq_false {outbound : ConnectionOutbound} :
    holdsTerminalData outbound = false ↔
      ∀ f, f ∈ outbound.mailbox.otherFrames ∨ f ∈ outbound.mailbox.liveFrames →
        terminalData f = false := by
  simp [holdsTerminalData, or_imp, forall_and]

/-- Popping takes from the queues and adds nothing. -/
theorem holdsTerminalData_pop {outbound after : ConnectionOutbound} {frame : OutboundFrame}
    (h : outbound.next = some (.frame frame, after)) (hempty : holdsTerminalData outbound = false) :
    terminalData frame = false ∧ holdsTerminalData after = false ∧
      after.close = outbound.close ∧ after.stopped = outbound.stopped := by
  obtain ⟨-, mailbox, hpop, rfl⟩ := ConnectionOutbound.next_frame h
  have hnone := holdsTerminalData_eq_false.mp hempty
  have hafter : ∀ f, f ∈ mailbox.otherFrames ∨ f ∈ mailbox.liveFrames →
      f ∈ outbound.mailbox.otherFrames ∨ f ∈ outbound.mailbox.liveFrames := by
    rcases OutboundMailbox.popNext_spec hpop with
      ⟨_, -, -, hl, -, ho⟩ | ⟨-, -, hl, -, ho⟩ | ⟨-, -, hl, ho⟩
    · rintro f (hf | hf)
      · exact .inl (ho f hf)
      · exact .inr (hl ▸ hf)
    · rintro f (hf | hf)
      · exact .inl (ho f hf)
      · exact .inr (hl ▸ hf)
    · rintro f (hf | hf)
      · exact .inl (ho ▸ hf)
      · exact .inr (hl ▸ List.mem_cons_of_mem _ hf)
  have hframe : frame ∈ outbound.mailbox.otherFrames ∨ frame ∈ outbound.mailbox.liveFrames := by
    rcases OutboundMailbox.popNext_spec hpop with
      ⟨_, -, -, -, hm, -⟩ | ⟨-, -, -, hm, -⟩ | ⟨-, -, hl, -⟩
    · exact .inl hm
    · exact .inl hm
    · exact .inr (hl ▸ List.mem_cons_self)
  exact ⟨hnone frame hframe,
    holdsTerminalData_eq_false.mpr fun f hf => hnone f (hafter f hf), rfl, rfl⟩

theorem Muted.pop {frame : OutboundFrame} (hm : socket.Muted)
    (h : socket.pop frame = some after) : terminalData frame = false ∧ after.Muted := by
  unfold Socket.pop at h
  split at h
  · split at h
    · rename_i taken outbound hnext
      split at h
      · rename_i heq
        cases h
        subst heq
        obtain ⟨hdata, hempty, hclose, hstopped⟩ := holdsTerminalData_pop hnext hm.empty
        exact ⟨hdata, hm.ended, hclose ▸ hstopped ▸ hm.shut, hempty⟩
      · cases h
    · cases h
  · cases h

/-- A phase in which a connection has a principal and has subscribed. -/
theorem Sound.keep (hs : socket.Sound hub gone) {outbound : ConnectionOutbound} {writing : Bool}
    (hmuted : socket.Muted → ({ socket with outbound := outbound, writing := writing } :
      Socket).Muted) :
    ({ socket with outbound := outbound, writing := writing } : Socket).Sound hub gone :=
  ⟨hs.position, hs.anonymous, fun deviceId i hgone hdevice =>
    ⟨(hs.confined deviceId i hgone hdevice).1,
      (hs.confined deviceId i hgone hdevice).2.imp id hmuted⟩⟩

theorem presentToken_sound {token : String} (hs : socket.Sound server.hub gone)
    (h : socket.presentToken server token = some after) : after.Sound server.hub gone := by
  unfold presentToken at h
  split at h
  · rename_i hphase
    have hnone : socket.principal = none := by
      cases hp : socket.principal with
      | none => rfl
      | some principal => exact absurd hphase (hs.anonymous principal hp).1
    -- Neither the local nor the token principal is a device.
    have henter : ∀ principal : Principal, principal.deviceId = none →
        (socket.enter principal).Sound server.hub gone := by
      intro principal hdevice
      refine ⟨hs.position, fun _ _ => ⟨by simp [enter], by simp [enter]⟩, ?_⟩
      intro deviceId i _ hd
      simp [Socket.deviceId, enter, hdevice] at hd
    have hphases : ∀ phase, ({ socket with phase := phase } : Socket).Sound server.hub gone :=
      fun phase => ⟨hs.position, by simp [hnone], by simp [Socket.deviceId, hnone]⟩
    split at h
    · cases h
      exact henter _ rfl
    · split at h
      · cases h
        exact henter _ rfl
      · split at h <;> cases h <;> exact hphases _
  · cases h

theorem readDevice_sound (hs : socket.Sound server.hub gone)
    (hgone : ∀ deviceId i, gone = some (deviceId, i) → server.Gone deviceId i)
    (h : socket.readDevice server = some after) : after.Sound server.hub gone := by
  unfold readDevice at h
  split at h
  · rename_i session hphase
    have hnone : socket.principal = none := by
      cases hp : socket.principal with
      | none => rfl
      | some principal => exact absurd hphase ((hs.anonymous principal hp).2 session)
    split at h
    · rename_i scopes hdevice
      cases h
      refine ⟨hs.position, fun _ _ => ⟨by simp [enter], by simp [enter]⟩, ?_⟩
      -- The row was read as not revoked, so this is not the device that is gone.
      intro deviceId i hg hd
      obtain rfl : session.deviceId = deviceId := by
        simpa [Socket.deviceId, enter, Principal.paired] using hd
      obtain ⟨device, hrow, hrevoked⟩ := (hgone _ i hg).revoked
      rw [hdevice] at hrow
      cases hrow
      simp at hrevoked
    · cases h
      exact ⟨hs.position, by simp [hnone], by simp [Socket.deviceId, hnone]⟩
  · cases h

theorem subscribe_sound (hs : socket.Sound server.hub gone)
    (h : socket.subscribe server = some after) : after.Sound server.hub gone := by
  unfold subscribe at h
  split at h
  · rename_i hphase
    cases h
    refine ⟨Nat.le_refl _, fun _ _ => ⟨by simp, by simp⟩, fun deviceId i hg hd => ?_⟩
    exact absurd hphase (hs.confined deviceId i hg hd).1
  · cases h

theorem sendSnapshot_sound (hs : socket.Sound server.hub gone)
    (h : socket.sendSnapshot server = some after) : after.Sound server.hub gone := by
  unfold sendSnapshot at h
  split at h
  · rename_i hphase
    cases h
    exact hs.move rfl rfl (fun _ _ => by simp) fun hm => by simp [hm.ended] at hphase
  · cases h

theorem drop_sound (hs : socket.Sound hub gone) (h : socket.drop = some after) :
    after.Sound hub gone := by
  unfold drop at h
  split at h
  · cases h
  · rename_i hphase
    cases h
    exact hs.move rfl rfl (fun _ _ => by simp) fun hm => by simp [hm.ended] at hphase

theorem call_sound (hs : socket.Sound hub gone) (call : OutboundCall) :
    (socket.call call).Sound hub gone := by
  unfold Socket.call
  split
  · rename_i hphase
    refine hs.move rfl rfl (fun _ _ => ?_) fun hm => by simp [hm.ended] at hphase
    dsimp only
    split <;> simp
  · exact hs

theorem clientFrame_sound {calls : List OutboundCall} (hs : socket.Sound hub gone)
    (h : socket.clientFrame calls = some after) : after.Sound hub gone := by
  unfold clientFrame at h
  split at h
  · cases h
    clear * - hs
    induction calls generalizing socket with
    | nil => exact hs
    | cons call calls ih => exact ih (call_sound hs call)
  · cases h

theorem endWith_muted (socket : Socket) (code : ℕ) (reason : String)
    (hempty : holdsTerminalData socket.outbound = false) : (socket.endWith code reason).Muted := by
  refine ⟨rfl, .inl ?_, hempty⟩
  cases hc : socket.outbound.close <;> simp [endWith, ConnectionOutbound.closeWith, hc]

/-- Handling an event leaves the place and the principal alone and at most ends the loop. -/
theorem handle_frame (socket : Socket) (hphase : socket.phase = .live) (event : HostEvent)
    (call : Option OutboundCall) :
    (socket.handle event call).position = socket.position ∧
      (socket.handle event call).principal = socket.principal ∧
      ((socket.handle event call).phase = .live ∨ (socket.handle event call).phase = .ended) := by
  unfold handle
  split
  · exact ⟨rfl, rfl, .inl hphase⟩
  · split
    · split
      · exact ⟨rfl, rfl, .inr rfl⟩
      · exact ⟨rfl, rfl, .inl hphase⟩
    · cases call with
      | none => exact ⟨rfl, rfl, .inl hphase⟩
      | some call =>
        simp only [Option.elim_some, Socket.call, if_pos hphase, true_and]
        split <;> simp

/-- The revocation of its device ends a connection whose snapshot is older. -/
theorem handle_revoked (socket : Socket) {event : HostEvent} (hnew : socket.snapshotSequence < event.sequence)
    (hrevoked : socket.isRevokedBy event = true) (call : Option OutboundCall) :
    socket.handle event call = socket.endWith 4003 "access revoked" := by
  simp only [isRevokedBy, Bool.and_eq_true, decide_eq_true_eq] at hrevoked
  rw [handle, if_neg (by omega), if_pos hrevoked.1, if_pos hrevoked.2]

theorem receive_sound {call : Option OutboundCall} (hs : socket.Sound server.hub gone)
    (hgone : ∀ deviceId i, gone = some (deviceId, i) → server.Gone deviceId i)
    (hnotices : socket.phase = .live → socket.Notices server.hub)
    (h : socket.receive server call = some after) : after.Sound server.hub gone := by
  unfold receive at h
  split at h
  · rename_i hphase
    obtain ⟨⟨received, next⟩, hrecv, hafter⟩ := Option.map_eq_some_iff.mp h
    have hle : next ≤ server.hub.sender.sent.length := Broadcast.le_of_recv hrecv
    set moved : Socket := { socket with position := next } with hmoved
    have hframe : after.position = next ∧ after.principal = socket.principal ∧
        (after.phase = .live ∨ after.phase = .ended) := by
      cases received with
      | message value => exact hafter ▸ handle_frame moved hphase value call
      | lagged skipped => exact hafter ▸ ⟨rfl, rfl, .inr rfl⟩
    obtain ⟨hposition, hprincipal, hlive⟩ := hframe
    refine ⟨hposition ▸ hle, fun _ _ => ?_, fun deviceId i hg hd => ⟨?_, ?_⟩⟩
    · rcases hlive with hl | hl <;> simp [hl]
    · rcases hlive with hl | hl <;> simp [hl]
    by_cases hlt : next ≤ i
    · exact .inl (hposition ▸ hlt)
    -- The receiver moves past the revocation only by taking notice of it.
    refine .inr ?_
    have hdevice : socket.deviceId = some deviceId := by
      rw [← hd, Socket.deviceId, Socket.deviceId, hprincipal]
    have hi : socket.position ≤ i := by
      rcases (hs.confined deviceId i hg hdevice).2 with hle | hm
      · exact hle
      · simp [hm.ended] at hphase
    obtain ⟨event, hevent, hchannel, hargs⟩ := (hgone deviceId i hg).event
    have hrevoked : socket.isRevokedBy event = true := by
      simp [isRevokedBy, hchannel, hargs, hdevice]
    obtain ⟨hnew, hempty⟩ :=
      hnotices hphase received next hrecv i event hi (by omega) hevent hrevoked
    cases received with
    | lagged skipped => exact hafter ▸ endWith_muted moved _ _ hempty
    | message value =>
      obtain ⟨hvalue, hnext⟩ := Broadcast.recv_message hrecv
      obtain rfl : i = socket.position := by omega
      obtain rfl : value = event := Option.some.inj (hvalue.symm.trans hevent)
      have hended : after = moved.endWith 4003 "access revoked" :=
        hafter.symm.trans (handle_revoked moved (hnew value rfl) hrevoked call)
      exact hended ▸ endWith_muted moved _ _ hempty
  · cases h

theorem disconnect_sound (hs : socket.Sound hub gone) (h : socket.disconnect = some after) :
    after.Sound hub gone := by
  unfold disconnect at h
  split at h
  · rename_i hphase
    cases h
    exact hs.move rfl rfl (fun _ _ => by simp) fun hm => by simp [hm.ended] at hphase
  · cases h

theorem finish_sound (hs : socket.Sound hub gone) (h : socket.finish = some after) :
    after.Sound hub gone := by
  unfold finish at h
  split at h
  · cases h
    exact hs.keep fun hm => ⟨hm.ended, .inr rfl, hm.empty⟩
  · cases h

theorem pop_sound {frame : OutboundFrame} (hs : socket.Sound hub gone)
    (h : socket.pop frame = some after) : after.Sound hub gone := by
  have hmuted := fun hm : socket.Muted => (hm.pop h).2
  unfold Socket.pop at h
  split at h
  · split at h
    · split at h
      · cases h
        exact hs.keep hmuted
      · cases h
    · cases h
  · cases h

theorem popClose_sound {code : ℕ} {reason : String} (hs : socket.Sound hub gone)
    (h : socket.popClose code reason = some after) : after.Sound hub gone := by
  unfold popClose at h
  split at h
  · split at h
    · rename_i outbound hnext
      split at h
      · cases h
        obtain rfl := ConnectionOutbound.next_close hnext
        exact hs.keep fun hm => ⟨hm.ended, .inr rfl, hm.empty⟩
      · cases h
    · cases h
  · cases h

theorem writerFails_sound (hs : socket.Sound hub gone) (h : socket.writerFails = some after) :
    after.Sound hub gone := by
  unfold writerFails at h
  split at h
  · cases h
    exact hs.keep fun hm => ⟨hm.ended, .inr rfl, hm.empty⟩
  · cases h

/-- A connection that is shut takes no more output. -/
theorem deliver_sound (hs : socket.Sound hub gone) (frame : TerminalFrame) :
    (socket.deliver frame).Sound hub gone := by
  unfold deliver
  split
  · refine hs.keep fun hm => ?_
    have hshut : socket.outbound.enqueueTerminal frame = socket.outbound := by
      rw [ConnectionOutbound.enqueueTerminal, if_pos]
      rcases hm.shut with hc | hs
      · exact .inr (.inl hc)
      · exact .inl hs
    simpa [hshut] using hm
  · exact hs

end Socket

namespace SocketServer
variable {server server' : SocketServer} {gone : Option (String × ℕ)}

theorem onSocket_sound (hs : server.Sound gone) {id : ℕ} {task : Socket → Option Socket}
    (htask : ∀ socket after, server.sockets id = some socket → socket.Sound server.hub gone →
      task socket = some after → after.Sound server.hub gone)
    (h : server.onSocket id task = some server') : server'.Sound gone := by
  simp only [onSocket, Option.bind_eq_some_iff, Option.map_eq_some_iff] at h
  obtain ⟨socket, hsocket, after, hafter, rfl⟩ := h
  refine ⟨fun other found hfound => ?_, fun deviceId i hg =>
    ⟨(hs.gone deviceId i hg).revoked, (hs.gone deviceId i hg).event⟩⟩
  by_cases hid : other = id
  · subst hid
    obtain rfl : after = found := by simpa using hfound
    exact htask socket after hsocket (hs.sockets other socket hsocket) hafter
  · exact hs.sockets other found (by simpa [hid] using hfound)

/-- Events are only added to the channel. -/
theorem emit_sound (hs : server.Sound gone) (channel : String) (args : List EventArgument)
    (announcing : List String) :
    ({ server with hub := server.hub.emit channel args, announcing := announcing } :
      SocketServer).Sound gone := by
  refine ⟨fun id socket hsocket => (hs.sockets id socket hsocket).mono ?_, fun deviceId i hg => ?_⟩
  · simp [EventHub.emit]
  · obtain ⟨event, hevent, hargs⟩ := (hs.gone deviceId i hg).event
    exact ⟨(hs.gone deviceId i hg).revoked, event, Broadcast.getElem?_send hevent _, hargs⟩

theorem step_sound {event : SocketEvent} (hs : server.Sound gone) (hg : server.Timely event)
    (h : server.step event = some server') : server'.Sound gone := by
  cases event with
  | pair deviceId scopes =>
    simp only [step] at h
    split at h
    · rename_i hfree
      cases h
      refine ⟨hs.sockets, fun other i hgone => ?_⟩
      obtain ⟨⟨device, hdevice, hrevoked⟩, hevent⟩ := hs.gone other i hgone
      refine ⟨⟨device, ?_, hrevoked⟩, hevent⟩
      have hne : other ≠ deviceId := by
        rintro rfl
        simp [hfree] at hdevice
      simpa [hne] using hdevice
    · cases h
  | addSession token session =>
    cases h
    exact ⟨hs.sockets, fun other i hgone => ⟨(hs.gone other i hgone).1, (hs.gone other i hgone).2⟩⟩
  | dropSession token =>
    cases h
    exact ⟨hs.sockets, fun other i hgone => ⟨(hs.gone other i hgone).1, (hs.gone other i hgone).2⟩⟩
  | revokeDevice deviceId now =>
    cases h
    refine ⟨hs.sockets, fun other i hgone => ?_⟩
    obtain ⟨⟨device, hdevice, hrevoked⟩, hevent⟩ := hs.gone other i hgone
    by_cases hother : other = deviceId
    · subst hother
      refine ⟨⟨{ device with revokedAt := device.revokedAt.or (some now) }, by simp [hdevice], ?_⟩,
        hevent⟩
      obtain ⟨at_, hat⟩ := Option.isSome_iff_exists.mp hrevoked
      simp [hat]
    · exact ⟨⟨device, by simpa [hother] using hdevice, hrevoked⟩, hevent⟩
  | revokeSessions deviceId =>
    simp only [step] at h
    split at h
    · cases h
      exact ⟨hs.sockets, fun other i hgone =>
        ⟨(hs.gone other i hgone).1, (hs.gone other i hgone).2⟩⟩
    · cases h
  | emitRevoked deviceId =>
    simp only [step] at h
    split at h
    · cases h
      exact emit_sound hs _ _ _
    · cases h
  | emit channel args =>
    simp only [step] at h
    split at h
    · cases h
    · cases h
      exact emit_sound hs _ _ _
  | emitTerminal frame attached =>
    cases h
    refine ⟨fun id socket hsocket => ?_, fun other i hgone =>
      ⟨(hs.gone other i hgone).1, (hs.gone other i hgone).2⟩⟩
    obtain ⟨before, hbefore, rfl⟩ := Option.map_eq_some_iff.mp hsocket
    have hsound : before.Sound server.hub.emitTerminal gone :=
      (hs.sockets id before hbefore).mono (Nat.le_refl _)
    split
    · exact Socket.deliver_sound hsound frame
    · exact hsound
  | connect id connectionId =>
    simp only [step] at h
    split at h
    · cases h
      refine ⟨fun other socket hsocket => ?_, fun other i hgone =>
        ⟨(hs.gone other i hgone).1, (hs.gone other i hgone).2⟩⟩
      by_cases hid : other = id
      · subst hid
        obtain rfl := by simpa using hsocket
        exact ⟨Nat.zero_le _, by simp, by simp [Socket.deviceId]⟩
      · exact hs.sockets other socket (by simpa [hid] using hsocket)
    · cases h
  | presentToken id token =>
    exact onSocket_sound hs (fun _ _ _ hsound => Socket.presentToken_sound hsound) h
  | readDevice id =>
    exact onSocket_sound hs (fun _ _ _ hsound => Socket.readDevice_sound hsound hs.gone) h
  | subscribe id => exact onSocket_sound hs (fun _ _ _ hsound => Socket.subscribe_sound hsound) h
  | sendSnapshot id =>
    exact onSocket_sound hs (fun _ _ _ hsound => Socket.sendSnapshot_sound hsound) h
  | drop id => exact onSocket_sound hs (fun _ _ _ hsound => Socket.drop_sound hsound) h
  | clientFrame id calls =>
    exact onSocket_sound hs (fun _ _ _ hsound => Socket.clientFrame_sound hsound) h
  | receive id call =>
    exact onSocket_sound hs (fun socket _ hsocket hsound =>
      Socket.receive_sound hsound hs.gone (hg socket hsocket)) h
  | disconnect id => exact onSocket_sound hs (fun _ _ _ hsound => Socket.disconnect_sound hsound) h
  | finish id => exact onSocket_sound hs (fun _ _ _ hsound => Socket.finish_sound hsound) h
  | pop id frame => exact onSocket_sound hs (fun _ _ _ hsound => Socket.pop_sound hsound) h
  | popClose id code reason =>
    exact onSocket_sound hs (fun _ _ _ hsound => Socket.popClose_sound hsound) h
  | writerFails id => exact onSocket_sound hs (fun _ _ _ hsound => Socket.writerFails_sound hsound) h

theorem run_sound {events : List SocketEvent} (h : machine.Path Timely server events server')
    (hs : server.Sound gone) : server'.Sound gone :=
  h.invariant (I := fun s => s.Sound gone) (fun _ _ _ hs hg hstep => step_sound hs hg hstep) hs

theorem initial_sound (authToken : Option String) (flowLimit : ℕ)
    (devices : String → Option PairedDevice) : (initial authToken flowLimit devices).Sound none :=
  ⟨by simp [initial], by simp⟩

/-- From the emission on, the connections of the device are confined to its event. -/
theorem emitRevoked_sound {deviceId : String} {device : PairedDevice} (hs : server.Sound none)
    (hdevice : server.devices deviceId = some device) (hrevoked : device.revokedAt.isSome = true)
    (hg : server.Timely (.emitRevoked deviceId))
    (h : server.step (.emitRevoked deviceId) = some server') :
    server'.Sound (some (deviceId, server.hub.sender.sent.length)) := by
  simp only [step] at h
  split at h
  · cases h
    refine ⟨fun id socket hsocket => ?_, fun other i hgone => ?_⟩
    · have hsound := hs.sockets id socket hsocket
      refine ⟨hsound.position.trans (by simp [EventHub.emit]), hsound.anonymous, ?_⟩
      intro other i hgone hd
      cases hgone
      exact ⟨hg id socket hsocket hd, .inl hsound.position⟩
    · cases hgone
      refine ⟨⟨device, hdevice, hrevoked⟩, _, List.getElem?_concat_length, rfl, rfl⟩
  · cases h

/-- Once the event of a revocation is behind a connection of the device, the connection processes
no client frame and delivers no terminal data. -/
theorem revocation_final {authToken : Option String} {flowLimit : ℕ}
    {devices : String → Option PairedDevice} {before after : List SocketEvent} {deviceId : String}
    {device : PairedDevice} {announced final : SocketServer}
    (h : machine.Path Timely (initial authToken flowLimit devices) before server)
    (hdevice : server.devices deviceId = some device) (hrevoked : device.revokedAt.isSome = true)
    (hemit : machine.Path Timely server [.emitRevoked deviceId] announced)
    (hrun : machine.Path Timely announced after final) {id : ℕ} {socket : Socket}
    (hsocket : final.sockets id = some socket) (hid : socket.deviceId = some deviceId)
    (hpast : server.hub.sender.sent.length < socket.position) :
    (∀ calls, machine.step final (.clientFrame id calls) = none) ∧
      ∀ frame next, machine.step final (.pop id frame) = some next →
        terminalData frame = false := by
  have hstart : server.Sound none := run_sound h (initial_sound authToken flowLimit devices)
  have hannounced : announced.Sound (some (deviceId, server.hub.sender.sent.length)) := by
    cases hemit with
    | cons hg hstep tail =>
      cases tail
      exact emitRevoked_sound hstart hdevice hrevoked hg hstep
  have hfinal : final.Sound (some (deviceId, server.hub.sender.sent.length)) :=
    run_sound hrun hannounced
  have hmuted : socket.Muted := by
    rcases ((hfinal.sockets id socket hsocket).confined deviceId _ rfl hid).2 with hle | hm
    · omega
    · exact hm
  refine ⟨fun calls => ?_, fun frame next hpop => ?_⟩
  · simp [step, onSocket, hsocket, Socket.clientFrame, hmuted.ended]
  · simp only [machine_step, step, onSocket, hsocket, Option.bind_some] at hpop
    obtain ⟨popped, hpopped, -⟩ := Option.map_eq_some_iff.mp hpop
    exact (hmuted.pop hpopped).1

/-! A connection exists once it is made. -/

theorem onSocket_unconnected {id other : ℕ} {task : Socket → Option Socket}
    (h : server.onSocket id task = some server') (hnone : server.sockets other = none) :
    server'.sockets other = none := by
  simp only [onSocket, Option.bind_eq_some_iff, Option.map_eq_some_iff] at h
  obtain ⟨socket, hsocket, after, -, rfl⟩ := h
  have hne : other ≠ id := by
    rintro rfl
    simp [hnone] at hsocket
  simpa [hne] using hnone

theorem step_unconnected {event : SocketEvent} {other : ℕ}
    (hconnect : ∀ connectionId, event ≠ .connect other connectionId)
    (h : server.step event = some server') (hnone : server.sockets other = none) :
    server'.sockets other = none := by
  cases event with
  | connect id connectionId =>
    simp only [step] at h
    split at h
    · cases h
      have hne : other ≠ id := fun heq => hconnect connectionId (heq ▸ rfl)
      simpa [hne] using hnone
    · cases h
  | emitTerminal frame attached =>
    cases h
    simp [hnone]
  | pair | revokeSessions | emitRevoked | emit =>
    simp only [step] at h
    split at h <;> cases h
    exact hnone
  | addSession | dropSession | revokeDevice =>
    cases h
    exact hnone
  | presentToken | readDevice | subscribe | sendSnapshot | drop | clientFrame | receive
  | disconnect | finish | pop | popClose | writerFails => exact onSocket_unconnected h hnone

theorem run_unconnected {C : SocketServer → SocketEvent → Prop} {events : List SocketEvent}
    {other : ℕ} (h : machine.Path C server events server')
    (hconnect : ∀ s connectionId, ¬ C s (.connect other connectionId))
    (hnone : server.sockets other = none) : server'.sockets other = none :=
  h.invariant (I := fun s => s.sockets other = none)
    (fun s _ _ hnone hg hstep => step_unconnected
      (fun connectionId heq => hconnect s connectionId (heq ▸ hg)) hstep hnone) hnone

/-- A host with the paired device `dev`. -/
def hostWithDevice : SocketServer :=
  initial (some "host") 1024 fun deviceId =>
    if deviceId = "dev" then some ⟨[.control], none⟩ else none

/-- The labels that `Timely` does not restrict, with the one connection 0. -/
def plain : SocketEvent → Bool
  | .emitRevoked _ | .receive _ _ => false
  | .connect id _ => decide (id = 0)
  | _ => true

theorem timely_of_plain {event : SocketEvent} (h : plain event = true) :
    server.Timely event := by
  cases event with
  | emitRevoked | receive => cases h
  | _ => trivial

set_option synthInstance.maxSize 16000 in
/-- The connection of `dev` is live when `dev` is revoked, and ends on the event. -/
theorem revocation_final_live : ∃ server announced final,
    machine.Path Timely hostWithDevice
      [.addSession "token" ⟨"dev", [.control]⟩, .connect 0 "ws", .presentToken 0 "token",
        .readDevice 0, .subscribe 0, .sendSnapshot 0, .revokeDevice "dev" 7,
        .revokeSessions "dev"] server ∧
      machine.Path Timely server [.emitRevoked "dev"] announced ∧
      machine.Path Timely announced [.receive 0 none] final ∧
      (∀ calls, machine.step final (.clientFrame 0 calls) = none) ∧
      ∀ frame next, machine.step final (.pop 0 frame) = some next →
        terminalData frame = false := by
  have hchain : ((machine.exec (fun _ a => plain a = true) hostWithDevice
      [.addSession "token" ⟨"dev", [.control]⟩, .connect 0 "ws", .presentToken 0 "token",
        .readDevice 0, .subscribe 0, .sendSnapshot 0, .revokeDevice "dev" 7,
        .revokeSessions "dev"]).bind fun server =>
      (machine.step server (.emitRevoked "dev")).bind fun announced =>
        (machine.step announced (.receive 0 none)).map fun final =>
          (server.devices "dev", (server.sockets 0).map (·.phase), server.hub.sender.sent.length,
            (announced.sockets 0).map fun socket => (socket.position, socket.snapshotSequence,
              holdsTerminalData socket.outbound, announced.hub.sender.recv socket.position),
            (final.sockets 0).map fun socket => (socket.deviceId, socket.position))) =
      some (some ⟨[.control], some 7⟩, some .live, 0,
        some (0, 0, false, some (.message ⟨1, deviceRevoked, [.string "dev"]⟩, 1)),
        some (some "dev", 1)) := by decide +kernel
  obtain ⟨server, hserver, hchain⟩ := Option.bind_eq_some_iff.mp hchain
  obtain ⟨announced, hannounced, hchain⟩ := Option.bind_eq_some_iff.mp hchain
  obtain ⟨final, hfinal, hvalues⟩ := Option.map_eq_some_iff.mp hchain
  simp only [Prod.mk.injEq, Option.map_eq_some_iff] at hvalues
  obtain ⟨hdevice, ⟨live, hlive, hphase⟩, hsent, ⟨told, htold, hposition, hsnapshot, hempty, hrecv⟩,
    ⟨ended, hended, hid, hpast⟩⟩ := hvalues
  have hplain := path_of_exec hserver
  have hbefore : machine.Path Timely hostWithDevice _ server :=
    hplain.mono fun _ _ h => timely_of_plain h
  have hother : ∀ id, id ≠ 0 → server.sockets id = none := fun id hne =>
    run_unconnected hplain (fun _ _ hg => by simp [plain, hne] at hg) rfl
  have hemit : machine.Path Timely server [.emitRevoked "dev"] announced := by
    refine .single (fun id socket hsocket _ => ?_) hannounced
    by_cases hne : id = 0
    · subst hne
      obtain rfl := Option.some.inj (hlive.symm.trans hsocket)
      simp [hphase]
    · simp [hother id hne] at hsocket
  have hreceive : machine.Path Timely announced [.receive 0 none] final := by
    refine .single (fun socket hsocket _ => ?_) hfinal
    obtain rfl := Option.some.inj (htold.symm.trans hsocket)
    intro received next hnext _ _ _ _ _ _
    obtain ⟨rfl, -⟩ := Prod.mk.inj (Option.some.inj (hrecv.symm.trans hnext))
    refine ⟨fun value hvalue => ?_, hempty⟩
    cases hvalue
    simp [hsnapshot]
  exact ⟨server, announced, final, hbefore, hemit, hreceive,
    revocation_final hbefore hdevice rfl hemit hreceive hended hid (by omega)⟩

set_option synthInstance.maxSize 1000 in
/-- The device is revoked between the authentication of its connection and the subscription. -/
theorem revocation_missed : ¬ ∀ (authToken : Option String) (flowLimit : ℕ)
    (devices : String → Option PairedDevice) (before after : List SocketEvent) (deviceId : String)
    (device : PairedDevice) (server announced final : SocketServer) (id : ℕ) (socket : Socket),
    machine.Run (initial authToken flowLimit devices) before server →
    server.devices deviceId = some device → device.revokedAt.isSome = true →
    machine.Run server [.emitRevoked deviceId] announced → machine.Run announced after final →
    final.sockets id = some socket → socket.deviceId = some deviceId →
    server.hub.sender.sent.length < socket.position →
    (∀ calls, machine.step final (.clientFrame id calls) = none) ∧
      ∀ frame next, machine.step final (.pop id frame) = some next →
        terminalData frame = false := by
  intro h
  have hchain : ((machine.exec (fun _ _ => True) hostWithDevice
      [.addSession "token" ⟨"dev", [.control]⟩, .connect 0 "ws", .presentToken 0 "token",
        .readDevice 0, .revokeDevice "dev" 7, .revokeSessions "dev"]).bind fun server =>
      (machine.exec (fun _ _ => True) server [.emitRevoked "dev"]).bind fun announced =>
        (machine.exec (fun _ _ => True) announced [.subscribe 0, .sendSnapshot 0]).map fun final =>
          (server.devices "dev", server.hub.sender.sent.length,
            (final.sockets 0).map fun socket => (socket.deviceId, socket.position),
            (machine.step final (.clientFrame 0 [])).isSome)) =
      some (some ⟨[.control], some 7⟩, 0, some (some "dev", 1), true) := by decide +kernel
  obtain ⟨server, hserver, hchain⟩ := Option.bind_eq_some_iff.mp hchain
  obtain ⟨announced, hannounced, hchain⟩ := Option.bind_eq_some_iff.mp hchain
  obtain ⟨final, hfinal, hvalues⟩ := Option.map_eq_some_iff.mp hchain
  simp only [Prod.mk.injEq, Option.map_eq_some_iff] at hvalues
  obtain ⟨hdevice, hsent, ⟨socket, hsocket, hid, hpast⟩, hframe⟩ := hvalues
  have hnone := (h _ _ _ _ _ "dev" _ server announced final 0 socket (path_of_exec hserver) hdevice
    rfl (path_of_exec hannounced) (path_of_exec hfinal) hsocket hid (by omega)).1 []
  rw [machine_step] at hnone
  simp [hnone] at hframe

end SocketServer
end PiDeck.Server
