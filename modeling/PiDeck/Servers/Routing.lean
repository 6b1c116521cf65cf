import Mathlib
import PiDeck.Servers.Scoping
import PiDeck.Transition.Machine

/-! Whose id is it. The client records an owner for the ids it receives, under the id the server
uses and under the id it shows, and routes calls by what is recorded; a later record replaces an
earlier one under the same id, whoever it was for. -/
namespace PiDeck.Servers
open PiDeck.Collections PiDeck.Transition

structure Owner where
  serverId : String
  localId : String
  deriving DecidableEq, Repr

/-- The maps of owners. -/
inductive NameKind
  | entity (kind : EntityKind)
  | pty
  deriving DecidableEq, Repr

structure AppSession where
  id : EntityId .session
  activeTabId : Option (EntityId .tab)
  activeMuxTerminalId : Option (EntityId .muxTerminal)

structure SessionTab where
  id : EntityId .tab
  sessionId : EntityId .session
  activeMuxTerminalId : Option (EntityId .muxTerminal)

structure TerminalOutput where
  terminalInstanceId : String
  ptyId : Option String

structure MuxTerminal where
  id : EntityId .muxTerminal
  sessionId : EntityId .session
  tabId : Option (EntityId .tab)
  output : TerminalOutput

structure MuxSessionSnapshot where
  session : AppSession
  tabs : Option (List SessionTab)
  muxTerminals : List MuxTerminal

inductive MuxEvent
  | sessionCreated (session : AppSession)
  | sessionUpdated (session : AppSession)
  | sessionArchived (session : AppSession)
  | sessionRestored (session : AppSession)
  | sessionTabCreated (tab : SessionTab)
  | sessionTabUpdated (tab : SessionTab)
  | sessionTabArchived (tab : SessionTab)
  | muxTerminalCreated (muxTerminalId : EntityId .muxTerminal) (muxTerminal : MuxTerminal)
  | muxTerminalUpdated (muxTerminalId : EntityId .muxTerminal) (muxTerminal : MuxTerminal)
  | terminalOutputChanged (muxTerminalId : EntityId .muxTerminal) (output : TerminalOutput)
  | muxTerminalArchived (muxTerminalId : EntityId .muxTerminal)

/-- What a server sends: snapshots and single entities as replies, events, and the ids of the
processes it starts and of those that exit. -/
inductive Received
  | snapshot (snapshot : MuxSessionSnapshot)
  | session (session : AppSession)
  | tab (tab : SessionTab)
  | muxTerminal (muxTerminal : MuxTerminal)
  | event (event : MuxEvent)
  | ptyCreated (id : String)
  | ptyExited (id : String)

/-- A call of `set` on one of the maps of owners. -/
structure Registration where
  kind : NameKind
  key : String
  owner : Owner
  deriving DecidableEq

/-- A pty id that is not the empty string. -/
def TerminalOutput.pty (output : TerminalOutput) : Option String := output.ptyId.filter (· ≠ "")

section Scope
variable (current connection : ServerId)

def owner (localId : String) : Owner := ⟨connection.text, localId⟩

/-- The record under the id itself. -/
def keep {kind : EntityKind} (id : EntityId kind) : Registration :=
  ⟨.entity kind, id.text, owner connection id.text⟩

/-- The record under the id that is shown for it. -/
def keepScoped {kind : EntityKind} (id : EntityId kind) : Registration :=
  ⟨.entity kind, (id.scoped connection).text, owner connection id.text⟩

def scopePtyId (localId : String) : String :=
  if connection.text = current.text then localId else scopedTerminalId connection.text localId

def keepLocalIds : Bool := decide (connection.text = current.text)

/-- What the scoping of a session registers, in order, and what it returns. -/
def scopeSession (session : AppSession) : List Registration × AppSession :=
  if keepLocalIds current connection then ([keep connection session.id], session)
  else ([keep connection session.id, keepScoped connection session.id],
    { id := session.id.scoped connection
      activeTabId := session.activeTabId.map (EntityId.scoped connection)
      activeMuxTerminalId := session.activeMuxTerminalId.map (EntityId.scoped connection) })

def scopeTab (tab : SessionTab) : List Registration × SessionTab :=
  let raw := [keep connection tab.id, keep connection tab.sessionId]
  if keepLocalIds current connection then (raw, tab)
  else (raw ++ [keepScoped connection tab.id, keepScoped connection tab.sessionId],
    { id := tab.id.scoped connection
      sessionId := tab.sessionId.scoped connection
      activeMuxTerminalId := tab.activeMuxTerminalId.map (EntityId.scoped connection) })

def scopeProcessOutput (output : TerminalOutput) : TerminalOutput where
  terminalInstanceId := scopedTerminalId connection.text output.terminalInstanceId
  ptyId := match output.pty with
    | some ptyId => some (scopePtyId current connection ptyId)
    | none => output.ptyId

def scopeMuxTerminal (terminal : MuxTerminal) : List Registration × MuxTerminal :=
  let raw := [keep connection terminal.id, keep connection terminal.sessionId] ++
    terminal.output.pty.toList.map fun ptyId => ⟨.pty, ptyId, owner connection ptyId⟩
  if keepLocalIds current connection then (raw, terminal)
  else (raw ++ [keepScoped connection terminal.id, keepScoped connection terminal.sessionId] ++
      terminal.output.pty.toList.map fun ptyId =>
        ⟨.pty, scopePtyId current connection ptyId, owner connection ptyId⟩,
    { id := terminal.id.scoped connection
      sessionId := terminal.sessionId.scoped connection
      tabId := terminal.tabId.map (EntityId.scoped connection)
      output := scopeProcessOutput current connection terminal.output })

def scopeSnapshot (snapshot : MuxSessionSnapshot) : List Registration × MuxSessionSnapshot :=
  let session := scopeSession current connection snapshot.session
  let tabs := (snapshot.tabs.getD []).map (scopeTab current connection)
  let terminals := snapshot.muxTerminals.map (scopeMuxTerminal current connection)
  (session.1 ++ tabs.flatMap Prod.fst ++ terminals.flatMap Prod.fst,
    { session := session.2
      tabs := snapshot.tabs.map fun _ => tabs.map Prod.snd
      muxTerminals := terminals.map Prod.snd })

/-- A terminal id that an event names beside its entity. -/
def scopeEventId {kind : EntityKind} (id : EntityId kind) : EntityId kind :=
  if keepLocalIds current connection then id else id.scoped connection

def scopeEvent (event : MuxEvent) : List Registration × MuxEvent :=
  match event with
  | .sessionCreated session =>
    let shown := scopeSession current connection session
    (shown.1, .sessionCreated shown.2)
  | .sessionUpdated session =>
    let shown := scopeSession current connection session
    (shown.1, .sessionUpdated shown.2)
  | .sessionArchived session =>
    let shown := scopeSession current connection session
    (shown.1, .sessionArchived shown.2)
  | .sessionRestored session =>
    let shown := scopeSession current connection session
    (shown.1, .sessionRestored shown.2)
  | .sessionTabCreated tab =>
    let shown := scopeTab current connection tab
    (shown.1, .sessionTabCreated shown.2)
  | .sessionTabUpdated tab =>
    let shown := scopeTab current connection tab
    (shown.1, .sessionTabUpdated shown.2)
  | .sessionTabArchived tab =>
    let shown := scopeTab current connection tab
    (shown.1, .sessionTabArchived shown.2)
  | .muxTerminalCreated id terminal =>
    let shown := scopeMuxTerminal current connection terminal
    (shown.1, .muxTerminalCreated (scopeEventId current connection id) shown.2)
  | .muxTerminalUpdated id terminal =>
    let shown := scopeMuxTerminal current connection terminal
    (shown.1, .muxTerminalUpdated (scopeEventId current connection id) shown.2)
  | .terminalOutputChanged id output =>
    (output.pty.toList.map fun ptyId =>
        ⟨.pty, scopePtyId current connection ptyId, owner connection ptyId⟩,
      .terminalOutputChanged (scopeEventId current connection id)
        (if keepLocalIds current connection then output
        else scopeProcessOutput current connection output))
  | .muxTerminalArchived id => ([], .muxTerminalArchived (scopeEventId current connection id))

def scopeReceived (received : Received) : List Registration × Received :=
  match received with
  | .snapshot snapshot =>
    let shown := scopeSnapshot current connection snapshot
    (shown.1, .snapshot shown.2)
  | .session session =>
    let shown := scopeSession current connection session
    (shown.1, .session shown.2)
  | .tab tab =>
    let shown := scopeTab current connection tab
    (shown.1, .tab shown.2)
  | .muxTerminal terminal =>
    let shown := scopeMuxTerminal current connection terminal
    (shown.1, .muxTerminal shown.2)
  | .event event =>
    let shown := scopeEvent current connection event
    (shown.1, .event shown.2)
  | .ptyCreated id =>
    ([⟨.pty, scopePtyId current connection id, owner connection id⟩],
      .ptyCreated (scopePtyId current connection id))
  | .ptyExited id => ([], .ptyExited (scopePtyId current connection id))

end Scope

/-! The ids a value carries. -/

abbrev Name := NameKind × String

def idName {kind : EntityKind} (id : EntityId kind) : Name := (.entity kind, id.text)

def AppSession.ids (session : AppSession) : List Name :=
  [idName session.id] ++ session.activeTabId.toList.map idName ++
    session.activeMuxTerminalId.toList.map idName

def SessionTab.ids (tab : SessionTab) : List Name :=
  [idName tab.id, idName tab.sessionId] ++ tab.activeMuxTerminalId.toList.map idName

def TerminalOutput.ids (output : TerminalOutput) : List Name :=
  output.pty.toList.map fun ptyId => (.pty, ptyId)

def MuxTerminal.ids (terminal : MuxTerminal) : List Name :=
  [idName terminal.id, idName terminal.sessionId] ++ terminal.tabId.toList.map idName ++
    terminal.output.ids

def MuxSessionSnapshot.ids (snapshot : MuxSessionSnapshot) : List Name :=
  snapshot.session.ids ++ (snapshot.tabs.getD []).flatMap SessionTab.ids ++
    snapshot.muxTerminals.flatMap MuxTerminal.ids

def MuxEvent.ids : MuxEvent → List Name
  | sessionCreated session | sessionUpdated session | sessionArchived session
  | sessionRestored session => session.ids
  | sessionTabCreated tab | sessionTabUpdated tab | sessionTabArchived tab => tab.ids
  | muxTerminalCreated id terminal | muxTerminalUpdated id terminal => idName id :: terminal.ids
  | terminalOutputChanged id output => idName id :: output.ids
  | muxTerminalArchived id => [idName id]

def Received.ids : Received → List Name
  | snapshot value => value.ids
  | session value => value.ids
  | tab value => value.ids
  | muxTerminal value => value.ids
  | event value => value.ids
  | ptyCreated id | ptyExited id => [(.pty, id)]

/-- An id the user interface has been given, with where it came from. -/
structure Handed where
  kind : NameKind
  id : String
  owner : Owner
  deriving DecidableEq

/-- The ids of a value from a server, as they are shown. -/
def handed (current connection : ServerId) (received : Received) : List Handed :=
  List.zipWith (fun shown original => ⟨shown.1, shown.2, owner connection original.2⟩)
    (scopeReceived current connection received).2.ids received.ids

abbrev Owners := NameKind → String → Option Owner

def Owners.set (owners : Owners) (r : Registration) : Owners :=
  Function.update owners r.kind (Function.update (owners r.kind) r.key (some r.owner))

/-- The client with what it has handed out. -/
structure Client where
  owners : Owners
  activeServerId : String
  shown : List Handed

/-- `ownerForSession` and its like, where `none` is their exception, and `ownerForPty`, which
falls back on the active server. -/
def Client.ownerFor (client : Client) : NameKind → String → Option Owner
  | .entity kind, id => client.owners (.entity kind) id
  | .pty, id => some ((client.owners .pty id).getD ⟨client.activeServerId, id⟩)

inductive ClientStep
  | receive (connection : ServerId) (received : Received)
  | selectServer (serverId : String)

def Client.step (current : ServerId) (client : Client) : ClientStep → Option Client
  | .receive connection received =>
    some { client with
      owners := (scopeReceived current connection received).1.foldl Owners.set client.owners
      shown := client.shown ++ handed current connection received }
  | .selectServer serverId => some { client with activeServerId := serverId }

def Client.machine (current : ServerId) : Machine Client ClientStep := ⟨Client.step current⟩

def Client.start (current : ServerId) : Client := ⟨fun _ _ => none, current.text, []⟩

section Names
variable (current connection : ServerId)

/-- The id that is shown for an id of a server. -/
def publicName (name : Name) : Name :=
  if connection.text = current.text then name
  else match name.1 with
    | .entity kind => (.entity kind, scopedId kind connection.text name.2)
    | .pty => (.pty, scopedTerminalId connection.text name.2)

theorem publicName_kind (name : Name) : (publicName current connection name).1 = name.1 := by
  unfold publicName
  split
  · rfl
  · split
    · rename_i h
      exact h.symm
    · rename_i h
      exact h.symm

variable {current connection}

theorem publicName_of_current (h : connection.text = current.text) (name : Name) :
    publicName current connection name = name := if_pos h

theorem publicName_idName (h : connection.text ≠ current.text) {kind : EntityKind}
    (id : EntityId kind) :
    publicName current connection (idName id) = idName (id.scoped connection) := if_neg h

theorem publicName_pty (localId : String) :
    publicName current connection (.pty, localId) =
      (.pty, scopePtyId current connection localId) := by
  unfold publicName scopePtyId
  split <;> rfl

theorem ids_map_scoped (h : connection.text ≠ current.text) {kind : EntityKind}
    (id : Option (EntityId kind)) :
    (id.map (EntityId.scoped connection)).toList.map idName =
      (id.toList.map idName).map (publicName current connection) := by
  cases id with
  | none => rfl
  | some id => simp [publicName_idName h]

/-- Scoping shows the public name of every id it is given. -/
theorem scopeSession_ids (session : AppSession) :
    (scopeSession current connection session).2.ids =
      session.ids.map (publicName current connection) := by
  unfold scopeSession keepLocalIds
  by_cases h : connection.text = current.text
  · simp [h, funext (publicName_of_current h)]
  · simp [h, AppSession.ids, ids_map_scoped h, publicName_idName h]

theorem scopeTab_ids (tab : SessionTab) :
    (scopeTab current connection tab).2.ids = tab.ids.map (publicName current connection) := by
  unfold scopeTab keepLocalIds
  by_cases h : connection.text = current.text
  · simp [h, funext (publicName_of_current h)]
  · simp [h, SessionTab.ids, ids_map_scoped h, publicName_idName h]

theorem scopedTerminalId_ne_empty (serverId localId : String) :
    scopedTerminalId serverId localId ≠ "" := by
  intro h
  have := congrArg String.toList h
  simp [scopedTerminalId, String.toList_append] at this

theorem scopeProcessOutput_ids (h : connection.text ≠ current.text) (output : TerminalOutput) :
    (scopeProcessOutput current connection output).ids =
      output.ids.map (publicName current connection) := by
  have hpty : (scopeProcessOutput current connection output).pty =
      output.pty.map (scopePtyId current connection) := by
    cases ho : output.pty with
    | none =>
      have hsame : (scopeProcessOutput current connection output).ptyId = output.ptyId := by
        simp [scopeProcessOutput, ho]
      rw [TerminalOutput.pty, hsame]
      exact ho
    | some ptyId =>
      have hne : scopePtyId current connection ptyId ≠ "" := by
        rw [scopePtyId, if_neg h]
        exact scopedTerminalId_ne_empty _ _
      have hshown : (scopeProcessOutput current connection output).ptyId =
          some (scopePtyId current connection ptyId) := by
        simp [scopeProcessOutput, ho]
      rw [TerminalOutput.pty, hshown]
      simp [hne]
  unfold TerminalOutput.ids
  rw [hpty]
  cases output.pty with
  | none => rfl
  | some ptyId => simp [publicName_pty]

theorem scopeMuxTerminal_ids (terminal : MuxTerminal) :
    (scopeMuxTerminal current connection terminal).2.ids =
      terminal.ids.map (publicName current connection) := by
  unfold scopeMuxTerminal keepLocalIds
  by_cases h : connection.text = current.text
  · simp [h, funext (publicName_of_current h)]
  · simp [h, MuxTerminal.ids, ids_map_scoped h, publicName_idName h, scopeProcessOutput_ids h]

theorem flatMap_ids {α : Type} {scope : α → List Registration × α} {ids : α → List Name}
    (h : ∀ a, ids (scope a).2 = (ids a).map (publicName current connection)) (values : List α) :
    ((values.map scope).map Prod.snd).flatMap ids =
      (values.flatMap ids).map (publicName current connection) := by
  induction values with
  | nil => rfl
  | cons value values ih =>
    simp only [List.map_cons, List.flatMap_cons, List.map_append, h, ih]

theorem scopeSnapshot_ids (snapshot : MuxSessionSnapshot) :
    (scopeSnapshot current connection snapshot).2.ids =
      snapshot.ids.map (publicName current connection) := by
  have htabs : ((scopeSnapshot current connection snapshot).2.tabs.getD []) =
      ((snapshot.tabs.getD []).map (scopeTab current connection)).map Prod.snd := by
    unfold scopeSnapshot
    cases snapshot.tabs <;> rfl
  rw [MuxSessionSnapshot.ids, htabs, flatMap_ids scopeTab_ids, MuxSessionSnapshot.ids,
    List.map_append, List.map_append]
  exact congrArg₂ (· ++ ·) (congrArg (· ++ _) (scopeSession_ids _)) (flatMap_ids scopeMuxTerminal_ids _)

theorem scopeEventId_name {kind : EntityKind} (id : EntityId kind) :
    idName (scopeEventId current connection id) = publicName current connection (idName id) := by
  unfold scopeEventId keepLocalIds
  by_cases h : connection.text = current.text
  · simp [h, publicName_of_current h]
  · simp [h, publicName_idName h]

theorem scopeEvent_ids (event : MuxEvent) :
    (scopeEvent current connection event).2.ids =
      event.ids.map (publicName current connection) := by
  cases event with
  | terminalOutputChanged id output =>
    by_cases h : connection.text = current.text
    · simp [scopeEvent, MuxEvent.ids, scopeEventId_name, keepLocalIds, h,
        funext (publicName_of_current h)]
    · simp [scopeEvent, MuxEvent.ids, scopeEventId_name, keepLocalIds, h, scopeProcessOutput_ids h]
  | muxTerminalArchived id => simp [scopeEvent, MuxEvent.ids, scopeEventId_name]
  | muxTerminalCreated id terminal =>
    simp [scopeEvent, MuxEvent.ids, scopeEventId_name, scopeMuxTerminal_ids]
  | muxTerminalUpdated id terminal =>
    simp [scopeEvent, MuxEvent.ids, scopeEventId_name, scopeMuxTerminal_ids]
  | sessionCreated session => exact scopeSession_ids session
  | sessionUpdated session => exact scopeSession_ids session
  | sessionArchived session => exact scopeSession_ids session
  | sessionRestored session => exact scopeSession_ids session
  | sessionTabCreated tab => exact scopeTab_ids tab
  | sessionTabUpdated tab => exact scopeTab_ids tab
  | sessionTabArchived tab => exact scopeTab_ids tab

theorem scopeReceived_ids (received : Received) :
    (scopeReceived current connection received).2.ids =
      received.ids.map (publicName current connection) := by
  cases received with
  | snapshot value => exact scopeSnapshot_ids value
  | session value => exact scopeSession_ids value
  | tab value => exact scopeTab_ids value
  | muxTerminal value => exact scopeMuxTerminal_ids value
  | event value => exact scopeEvent_ids value
  | ptyCreated id => exact congrArg (fun name => [name]) (publicName_pty id).symm
  | ptyExited id => exact congrArg (fun name => [name]) (publicName_pty id).symm

/-- The ids that are handed out, each with the owner it has at the server. -/
theorem handed_eq (received : Received) :
    handed current connection received = received.ids.map fun name =>
      ⟨name.1, (publicName current connection name).2, owner connection name.2⟩ := by
  unfold handed
  rw [scopeReceived_ids, List.zipWith_map_left, List.zipWith_self]
  apply List.map_congr_left
  intro name _
  rw [publicName_kind]

end Names

/-! The ids a value is recorded under: those it carries as the id of an entity, and of the session
of an entity. `rawNames` are also recorded as the server spells them. -/

def AppSession.names (session : AppSession) : List Name := [idName session.id]

def SessionTab.names (tab : SessionTab) : List Name := [idName tab.id, idName tab.sessionId]

def MuxTerminal.names (terminal : MuxTerminal) : List Name :=
  [idName terminal.id, idName terminal.sessionId] ++ terminal.output.ids

def MuxSessionSnapshot.names (snapshot : MuxSessionSnapshot) : List Name :=
  snapshot.session.names ++ (snapshot.tabs.getD []).flatMap SessionTab.names ++
    snapshot.muxTerminals.flatMap MuxTerminal.names

def MuxEvent.names : MuxEvent → List Name
  | sessionCreated session | sessionUpdated session | sessionArchived session
  | sessionRestored session => session.names
  | sessionTabCreated tab | sessionTabUpdated tab | sessionTabArchived tab => tab.names
  | muxTerminalCreated _ terminal | muxTerminalUpdated _ terminal => terminal.names
  | terminalOutputChanged _ output => output.ids
  | muxTerminalArchived _ => []

def MuxEvent.rawNames : MuxEvent → List Name
  | terminalOutputChanged _ _ => []
  | event => event.names

def Received.names : Received → List Name
  | snapshot value => value.names
  | session value => value.names
  | tab value => value.names
  | muxTerminal value => value.names
  | event value => value.names
  | ptyCreated id => [(.pty, id)]
  | ptyExited _ => []

def Received.rawNames : Received → List Name
  | event value => value.rawNames
  | ptyCreated _ => []
  | received => received.names

section Registers
variable (current connection : ServerId)

/-- Registrations of names under their public ids, and of some of them under their own. -/
structure Registers (rs : List Registration) (raw names : List Name) : Prop where
  sound : ∀ r ∈ rs, r.owner.serverId = connection.text ∧
    ((r.kind, r.owner.localId) ∈ raw ∧ r.key = r.owner.localId ∨
      (r.kind, r.owner.localId) ∈ names ∧
        r.key = (publicName current connection (r.kind, r.owner.localId)).2)
  complete : ∀ name ∈ names,
    (⟨name.1, (publicName current connection name).2, owner connection name.2⟩ : Registration) ∈ rs

variable {current connection} {rs rs' : List Registration} {raw raw' names names' : List Name}

theorem Registers.append (h : Registers current connection rs raw names)
    (h' : Registers current connection rs' raw' names') :
    Registers current connection (rs ++ rs') (raw ++ raw') (names ++ names') := by
  constructor
  · intro r hr
    rcases List.mem_append.mp hr with hr | hr
    · obtain ⟨ho, hn | hn⟩ := h.sound r hr
      · exact ⟨ho, .inl ⟨List.mem_append_left _ hn.1, hn.2⟩⟩
      · exact ⟨ho, .inr ⟨List.mem_append_left _ hn.1, hn.2⟩⟩
    · obtain ⟨ho, hn | hn⟩ := h'.sound r hr
      · exact ⟨ho, .inl ⟨List.mem_append_right _ hn.1, hn.2⟩⟩
      · exact ⟨ho, .inr ⟨List.mem_append_right _ hn.1, hn.2⟩⟩
  · intro name hn
    rcases List.mem_append.mp hn with hn | hn
    · exact List.mem_append_left _ (h.complete name hn)
    · exact List.mem_append_right _ (h'.complete name hn)

theorem Registers.nil : Registers current connection [] [] [] :=
  ⟨fun _ h => absurd h List.not_mem_nil, fun _ h => absurd h List.not_mem_nil⟩

theorem Registers.flatMap {α : Type} {scope : α → List Registration × α}
    {names : α → List Name}
    (h : ∀ a, Registers current connection (scope a).1 (names a) (names a)) (values : List α) :
    Registers current connection ((values.map scope).flatMap Prod.fst) (values.flatMap names)
      (values.flatMap names) := by
  induction values with
  | nil => exact .nil
  | cons value values ih => exact (h value).append ih

theorem publicName_entity (h : connection.text ≠ current.text) {kind : EntityKind}
    (id : EntityId kind) : publicName current connection (.entity kind, id.text) =
      (.entity kind, (id.scoped connection).text) := if_neg h

theorem registers_session (session : AppSession) :
    Registers current connection (scopeSession current connection session).1 session.names
      session.names := by
  unfold scopeSession keepLocalIds AppSession.names
  by_cases h : connection.text = current.text
  · constructor <;> simp [h, publicName_of_current h, keep, owner, idName]
  · constructor <;> simp [h, publicName_entity h, keep, keepScoped, owner, idName]

theorem registers_tab (tab : SessionTab) :
    Registers current connection (scopeTab current connection tab).1 tab.names tab.names := by
  unfold scopeTab keepLocalIds SessionTab.names
  by_cases h : connection.text = current.text
  · constructor <;> simp [h, publicName_of_current h, keep, owner, idName]
  · constructor <;> simp [h, publicName_entity h, keep, keepScoped, owner, idName]

theorem registers_muxTerminal (terminal : MuxTerminal) :
    Registers current connection (scopeMuxTerminal current connection terminal).1 terminal.names
      terminal.names := by
  unfold scopeMuxTerminal keepLocalIds MuxTerminal.names TerminalOutput.ids
  by_cases h : connection.text = current.text
  · cases terminal.output.pty <;> constructor <;>
      simp [h, publicName_of_current h, keep, owner, idName]
  · cases terminal.output.pty <;> constructor <;>
      simp [h, publicName_entity h, publicName_pty, keep, keepScoped, owner, idName]

theorem registers_snapshot (snapshot : MuxSessionSnapshot) :
    Registers current connection (scopeSnapshot current connection snapshot).1 snapshot.names
      snapshot.names :=
  ((registers_session _).append (.flatMap registers_tab _)).append (.flatMap registers_muxTerminal _)

theorem registers_ptys (output : TerminalOutput) :
    Registers current connection (output.pty.toList.map fun ptyId =>
      ⟨.pty, scopePtyId current connection ptyId, owner connection ptyId⟩) [] output.ids := by
  unfold TerminalOutput.ids
  cases output.pty <;> constructor <;> simp [publicName_pty, owner]

theorem registers_event (event : MuxEvent) :
    Registers current connection (scopeEvent current connection event).1 event.rawNames
      event.names := by
  cases event with
  | sessionCreated session => exact registers_session session
  | sessionUpdated session => exact registers_session session
  | sessionArchived session => exact registers_session session
  | sessionRestored session => exact registers_session session
  | sessionTabCreated tab => exact registers_tab tab
  | sessionTabUpdated tab => exact registers_tab tab
  | sessionTabArchived tab => exact registers_tab tab
  | muxTerminalCreated id terminal => exact registers_muxTerminal terminal
  | muxTerminalUpdated id terminal => exact registers_muxTerminal terminal
  | terminalOutputChanged id output => exact registers_ptys output
  | muxTerminalArchived id => exact .nil

theorem registers_received (received : Received) :
    Registers current connection (scopeReceived current connection received).1 received.rawNames
      received.names := by
  cases received with
  | snapshot value => exact registers_snapshot value
  | session value => exact registers_session value
  | tab value => exact registers_tab value
  | muxTerminal value => exact registers_muxTerminal value
  | event value => exact registers_event value
  | ptyCreated id =>
    constructor <;> simp [scopeReceived, Received.names, Received.rawNames, publicName_pty, owner]
  | ptyExited id => exact .nil

end Registers

/-- What the maps hold after registrations that agree on a key. -/
theorem foldl_set {rs : List Registration} {owners : Owners} {kind : NameKind} {key : String}
    {o : Owner} (hall : ∀ r ∈ rs, r.kind = kind → r.key = key → r.owner = o)
    (h : owners kind key = some o ∨ ∃ r ∈ rs, r.kind = kind ∧ r.key = key) :
    (rs.foldl Owners.set owners) kind key = some o := by
  induction rs generalizing owners with
  | nil =>
    rcases h with h | ⟨r, hr, -⟩
    · exact h
    · cases hr
  | cons r rs ih =>
    apply ih fun q hq => hall q (List.mem_cons_of_mem _ hq)
    by_cases hr : r.kind = kind ∧ r.key = key
    · obtain ⟨rfl, rfl⟩ := hr
      left
      simp [Owners.set, hall r List.mem_cons_self rfl rfl]
    · rcases h with h | ⟨q, hq, hk⟩
      · left
        rw [← h]
        unfold Owners.set
        by_cases hkind : kind = r.kind
        · subst hkind
          have hkey : key ≠ r.key := fun he => hr ⟨rfl, he.symm⟩
          simp [hkey]
        · simp [hkind]
      · right
        rcases List.mem_cons.mp hq with rfl | hq
        · exact absurd hk hr
        · exact ⟨q, hq, hk⟩

namespace Client
variable {current connection : ServerId} {client client' : Client} {received : Received}
  {a : ClientStep} {as : List ClientStep}

/-- Every id that has been handed out leads to the server and the id it came from. -/
def Resolves (client : Client) : Prop :=
  ∀ h ∈ client.shown, client.ownerFor h.kind h.id = some h.owner

/-- What has been handed out is recorded. -/
def Recorded (client : Client) : Prop :=
  ∀ h ∈ client.shown, client.owners h.kind h.id = some h.owner

theorem Recorded.resolves (h : client.Recorded) : client.Resolves := by
  intro shown hmem
  have hrec := h shown hmem
  cases hk : shown.kind with
  | entity kind =>
    rw [hk] at hrec
    exact hrec
  | pty =>
    rw [hk] at hrec
    simp [ownerFor, hrec]

/-- What a server sends collides with nothing: no id it is recorded under, as the server spells it
or as it is shown, has been handed out for something else, before or with it, and every id that
it mentions is recorded with it or was recorded before. -/
structure Routable (current : ServerId) (client : Client) (connection : ServerId)
    (received : Received) : Prop where
  raw : ∀ name ∈ received.rawNames, ∀ h ∈ client.shown ++ handed current connection received,
    h.kind = name.1 → h.id = name.2 → h.owner = owner connection name.2
  asShown : ∀ name ∈ received.names, ∀ h ∈ client.shown ++ handed current connection received,
    h.kind = name.1 → h.id = (publicName current connection name).2 →
      h.owner = owner connection name.2
  mentioned : ∀ name ∈ received.ids, name ∈ received.names ∨
    client.owners name.1 (publicName current connection name).2 = some (owner connection name.2)

def Guard (current : ServerId) (client : Client) : ClientStep → Prop
  | .receive connection received => Routable current client connection received
  | .selectServer _ => True

theorem recorded_step (h : client.Recorded) (hg : Guard current client a)
    (hs : (machine current).step client a = some client') : client'.Recorded := by
  cases a with
  | selectServer serverId =>
    obtain rfl : { client with activeServerId := serverId } = client' := Option.some.inj hs
    exact h
  | receive connection received =>
    obtain rfl : { client with
        owners := (scopeReceived current connection received).1.foldl Owners.set client.owners
        shown := client.shown ++ handed current connection received } = client' :=
      Option.some.inj hs
    have hregs : Registers current connection (scopeReceived current connection received).1
        received.rawNames received.names := registers_received received
    intro shown hmem
    apply foldl_set
    · intro r hr hk hkey
      obtain ⟨hserver, hn⟩ := hregs.sound r hr
      have ho : r.owner = owner connection r.owner.localId := by
        rw [owner, ← hserver]
      rw [ho]
      rcases hn with ⟨hn, hrkey⟩ | ⟨hn, hrkey⟩
      · exact (hg.raw _ hn shown hmem hk.symm (hkey.symm.trans hrkey)).symm
      · exact (hg.asShown _ hn shown hmem hk.symm (hkey.symm.trans hrkey)).symm
    · rcases List.mem_append.mp hmem with hold | hnew
      · exact .inl (h shown hold)
      · rw [handed_eq] at hnew
        obtain ⟨name, hname, rfl⟩ := List.mem_map.mp hnew
        rcases hg.mentioned name hname with hn | hn
        · exact .inr ⟨_, hregs.complete name hn, rfl, rfl⟩
        · exact .inl hn

theorem recorded_run (h : (machine current).Path (Guard current) client as client')
    (hc : client.Recorded) : client'.Recorded :=
  h.invariant (fun _ _ _ hi hg h => recorded_step hi hg h) hc

/-- An id that resolves is shown for one entity only. -/
theorem Resolves.same_owner (h : client.Resolves) {p q : Handed} (hp : p ∈ client.shown)
    (hq : q ∈ client.shown) (hk : p.kind = q.kind) (hi : p.id = q.id) : p.owner = q.owner := by
  have hpo : client.ownerFor p.kind p.id = some p.owner := h p hp
  rw [hk, hi, h q hq] at hpo
  exact (Option.some.inj hpo).symm

/-- Whatever is sent without collisions, every id shown leads to where it came from, and to one
place only. The ids shown for two servers never collide exactly if neither server's id overlaps
the other's. -/
theorem routes_to_origin (current : ServerId) :
    (∀ as client, (machine current).Path (Guard current) (start current) as client →
      client.Resolves ∧ ∀ p ∈ client.shown, ∀ q ∈ client.shown,
        p.kind = q.kind → p.id = q.id → p.owner = q.owner) ∧
    ∀ server server' : ServerId,
      (∀ (kind : EntityKind) (id id' : EntityId kind), id.scoped server = id'.scoped server' →
        server = server' ∧ id = id') ↔
      ¬ Overlaps ['-', '-'] server.text.toList server'.text.toList ∧
        ¬ Overlaps ['-', '-'] server'.text.toList server.text.toList := by
  constructor
  · intro as client hrun
    have hrec : client.Recorded := by
      apply recorded_run hrun
      intro h hmem
      cases hmem
    have hres : client.Resolves := hrec.resolves
    exact ⟨hres, fun p hp q hq hk hi => hres.same_owner hp hq hk hi⟩
  · exact scoped_injective_iff

/-- The current server shows its session `ses-1`, another its session `ses-2`. -/
def apart : List ClientStep :=
  [.receive ⟨"local", by decide⟩ (.session ⟨⟨"ses-1", by decide⟩, none, none⟩),
    .receive ⟨"other", by decide⟩ (.session ⟨⟨"ses-2", by decide⟩, none, none⟩)]

theorem apart_routes : ∃ client : Client,
    (machine ⟨"local", by decide⟩).Path (Guard ⟨"local", by decide⟩)
      (start ⟨"local", by decide⟩) apart client ∧ client.Resolves ∧
      client.ownerFor (.entity .session) "ses-other--2" = some ⟨"other", "ses-2"⟩ := by
  obtain ⟨client, hrun, hown⟩ : ∃ client : Client,
      (machine ⟨"local", by decide⟩).Path (Guard ⟨"local", by decide⟩)
        (start ⟨"local", by decide⟩) apart client ∧
      client.ownerFor (.entity .session) "ses-other--2" = some ⟨"other", "ses-2"⟩ := by
    refine ⟨_, .cons ?_ rfl (.cons ?_ rfl (.nil _)), by decide +kernel⟩
    · exact ⟨by decide +kernel, by decide +kernel, by decide +kernel⟩
    · exact ⟨by decide +kernel, by decide +kernel, by decide +kernel⟩
  exact ⟨client, hrun, ((routes_to_origin ⟨"local", by decide⟩).1 _ _ hrun).1, hown⟩

/-- The current server and another each send their session `ses-1`. -/
def twoServers : List ClientStep :=
  [.receive ⟨"local", by decide⟩ (.session ⟨⟨"ses-1", by decide⟩, none, none⟩),
    .receive ⟨"other", by decide⟩ (.session ⟨⟨"ses-1", by decide⟩, none, none⟩)]

/-- After the session of the other server, the id shown for the session of the current one leads
to the other server. And sessions of two servers can be shown under one id. -/
theorem misroutes :
    (¬ ∀ (current : ServerId) (as : List ClientStep) (client : Client),
      (machine current).Run (start current) as client → client.Resolves) ∧
    ¬ ∀ (server server' : ServerId) (id id' : EntityId .session),
      id.scoped server = id'.scoped server' → server = server' ∧ id = id' := by
  constructor
  · intro h
    obtain ⟨client, hexec, hmem, hown⟩ : ∃ client : Client,
        (machine ⟨"local", by decide⟩).exec (fun _ _ => True) (start ⟨"local", by decide⟩)
          twoServers = some client ∧
        (⟨.entity .session, "ses-1", ⟨"local", "ses-1"⟩⟩ : Handed) ∈ client.shown ∧
        client.ownerFor (.entity .session) "ses-1" = some ⟨"other", "ses-1"⟩ :=
      ⟨_, rfl, by decide +kernel, by decide +kernel⟩
    have hres := h _ _ client (Machine.path_of_exec hexec) _ hmem
    rw [hown] at hres
    exact absurd hres (by decide)
  · intro h
    have heq := h ⟨"a", by decide⟩ ⟨"a--b", by decide⟩ ⟨"ses-b--c", by decide⟩
      ⟨"ses-c", by decide⟩ (by decide +kernel)
    exact absurd heq.1 (by decide)

end Client
end PiDeck.Servers
