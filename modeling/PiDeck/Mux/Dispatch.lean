import Mathlib
import PiDeck.Mux.Store

/-! The mux commands. A dispatch runs one or more writes of the store and emits the events that tell
clients what changed; it answers with the result, the catalog after it and the events in order. -/
namespace PiDeck.Mux
open PersistedState

inductive SessionEventTag
  | created | updated | archived | restored
  deriving DecidableEq, Repr

inductive TabEventTag
  | created | updated | archived
  deriving DecidableEq, Repr

inductive TerminalEventTag
  | created | updated
  deriving DecidableEq, Repr

/-- An event on the `mux:event` channel. All but one carry the row as it is stored. -/
inductive MuxEvent
  | session (tag : SessionEventTag) (session : AppSession)
  | tab (tag : TabEventTag) (tab : SessionTab)
  | terminal (tag : TerminalEventTag) (muxTerminal : MuxTerminal)
  | terminalArchived (muxTerminalId : String) (revision : ℕ) (occurredAt : String)
  deriving DecidableEq, Repr

inductive TerminalError
  | notFound (id : String)
  | other (message : String)
  deriving DecidableEq, Repr

def TerminalError.message : TerminalError → String
  | notFound id => "terminal not found: " ++ id
  | other message => message

inductive RuntimeError
  | store (error : StoreError)
  | terminal (error : TerminalError)
  | invalid (message : String)
  deriving DecidableEq, Repr

/-- A process that was started for a terminal. -/
structure ManagedTerminal where
  id : String
  processIdentity : Option ProcessIdentity
  deriving DecidableEq, Repr

/-- What the environment decides during one dispatch: new identifiers, the clock at each write and
whether that write reaches the database, and the answers of the process manager. -/
structure World where
  sessionUuid : String
  tabUuid : String
  terminalUuid : String
  instanceUuid : String
  now : ℕ → String
  database : ℕ → Option String
  create : Option (List String) → Except TerminalError ManagedTerminal
  dispose : String → Except TerminalError Unit

/-- What the `n`th write of the dispatch draws. -/
def World.draw (w : World) (n : ℕ) : Draw where
  now := w.now n
  sessionUuid := w.sessionUuid
  tabUuid := w.tabUuid
  terminalUuid := w.terminalUuid

inductive CloseMode
  | keepTerminals | stopTerminals
  deriving DecidableEq, Repr

inductive MuxCommand
  | listSessions (includeArchived : Bool)
  | createSession (title : Option String)
  | renameSession (sessionId title : String)
  | reorderSessions (sessionIds : List String)
  | createTab (sessionId : String) (title : Option String)
  | renameTab (tabId title : String)
  | saveTabLayout (tabId layoutJson : String) (revision : Option ℕ)
  | reorderTabs (sessionId : String) (tabIds : List String)
  | archiveTab (tabId : String) (mode : CloseMode)
  | selectTab (sessionId : String) (tabId : Option String)
  | archiveSession (sessionId : String) (mode : CloseMode)
  | restoreSession (sessionId : String)
  | getSession (sessionId : String)
  | getTerminal (terminalId : String)
  | createTerminal (sessionId : String) (tabId title : Option String) (input : TerminalInput)
  | reorderTerminals (sessionId : String) (tabId : Option String) (muxTerminalIds : List String)
  | moveTerminal (muxTerminalId targetTabId : String)
  | selectTerminal (sessionId : String) (terminalId : Option String)
  | stopTerminal (terminalId : String) (revision : ℕ)
  | restartTerminal (terminalId : String) (revision : ℕ)
  | closeTerminal (muxTerminalId : String)
  | renameTerminal (terminalId title : String)
  deriving DecidableEq, Repr

inductive MuxValue
  | session (session : AppSession)
  | sessions (sessions : List AppSession)
  | tab (tab : SessionTab)
  | tabs (tabs : List SessionTab)
  | terminal (terminal : MuxTerminal)
  | terminals (terminals : List MuxTerminal)
  | foundTerminal (terminal : Option MuxTerminal)
  | snapshots (snapshots : List SessionSnapshot)
  | foundSnapshot (snapshot : Option SessionSnapshot)
  deriving DecidableEq, Repr

structure Dispatched where
  result : Except RuntimeError MuxValue
  store : PersistedState
  events : List MuxEvent

/-- Nothing was written. -/
def Dispatched.fail (error : RuntimeError) (s : PersistedState) : Dispatched := ⟨.error error, s, []⟩

/-- Events that were emitted before the rest of the dispatch. -/
def Dispatched.after (events : List MuxEvent) (d : Dispatched) : Dispatched :=
  { d with events := events ++ d.events }

/-- The `n`th write of a dispatch; a failure ends the dispatch where it stands. -/
def commit {α : Type} (w : World) (n : ℕ) (operation : Mutation α) (s : PersistedState)
    (next : α → PersistedState → Dispatched) : Dispatched :=
  match mutate (w.database n) operation s with
  | .error e => .fail (.store e) s
  | .ok (a, s') => next a s'

def sessionEvent (tag : SessionEventTag) (session : AppSession) : MuxEvent := .session tag session
def tabEvent (tag : TabEventTag) (tab : SessionTab) : MuxEvent := .tab tag tab
def terminalUpdated (terminal : MuxTerminal) : MuxEvent := .terminal .updated terminal
def terminalArchivedEvent (terminal : MuxTerminal) : MuxEvent :=
  .terminalArchived terminal.id terminal.revision terminal.updatedAt

/-- The update of a session, if there is one and its revision is not the previous one's; a missing
previous row counts as different when `whenNone` says so. -/
def changedSession (whenNone : Bool) (previous next : Option AppSession) : List MuxEvent :=
  match next with
  | none => []
  | some next =>
    if previous.elim whenNone (fun previous => previous.revision ≠ next.revision) then
      [sessionEvent .updated next]
    else []

def changedTab (whenNone : Bool) (previous next : Option SessionTab) : List MuxEvent :=
  match next with
  | none => []
  | some next =>
    if previous.elim whenNone (fun previous => previous.revision ≠ next.revision) then
      [tabEvent .updated next]
    else []

/-- Dispose of a process; one that is already gone is no error. -/
def disposeMuxPty (w : World) (ptyId : String) : Except RuntimeError Unit :=
  match w.dispose ptyId with
  | .ok _ => .ok ()
  | .error (.notFound _) => .ok ()
  | .error e => .error (.terminal e)

def disposeAll (w : World) : List (Option String) → Except RuntimeError Unit
  | [] => .ok ()
  | none :: rest => disposeAll w rest
  | some ptyId :: rest =>
    match disposeMuxPty w ptyId with
    | .error e => .error e
    | .ok _ => disposeAll w rest

def markStarting (r : MuxTerminal) : MuxTerminal := { r with status := .starting }

def markRestarting (r : MuxTerminal) : MuxTerminal := { r with status := .starting, error := none }

def markRunning (instanceId : String) (pty : ManagedTerminal) (generation : ℕ → ℕ)
    (r : MuxTerminal) : MuxTerminal :=
  { r with
    status := .running
    output := .running instanceId pty.id (generation r.output.generation) pty.processIdentity }

def markFailed (error : TerminalError) (r : MuxTerminal) : MuxTerminal :=
  { r with
    status := .failed
    error := some error.message
    output := { r.output with processState := .failed, activityState := .failed } }

def markCancelled (r : MuxTerminal) : MuxTerminal :=
  { r with
    status := .cancelled
    output := { r.output with
      processState := .exited, activityState := .idle, replayAvailable := false } }

/-- Start a process for a terminal that was marked as starting, and record it or the failure. -/
def startProcess (w : World) (n : ℕ) (generation : ℕ → ℕ) (starting : MuxTerminal)
    (s : PersistedState) : Dispatched :=
  match w.create starting.input.shellArgs with
  | .ok pty =>
    commit w n (updateTerminal (w.draw n) starting.id (some starting.revision)
      (markRunning w.instanceUuid pty generation)) s
      fun running s => ⟨.ok (.terminal running), s, [terminalUpdated running]⟩
  | .error e =>
    commit w n (updateTerminal (w.draw n) starting.id (some starting.revision) (markFailed e)) s
      fun failed s => ⟨.error (.terminal e), s, [terminalUpdated failed]⟩

def createMuxTerminal (w : World) (sessionId : String) (tabId title : Option String)
    (input : TerminalInput) (s : PersistedState) : Dispatched :=
  let previousSession := s.getSession sessionId
  let previousTab := (selectedTab s sessionId tabId).bind s.getTab
  commit w 0 (createTerminal (w.draw 0) sessionId tabId (title.getD "Terminal") input) s
    fun created s =>
      .after (.terminal .created created ::
        changedTab true previousTab (created.tabId.bind s.getTab) ++
        changedSession true previousSession (s.getSession sessionId)) <|
      commit w 1 (updateTerminal (w.draw 1) created.id (some created.revision) markStarting) s
        fun starting s =>
          .after [terminalUpdated starting] (startProcess w 2 (fun g => g) starting s)

def cancelMuxTerminal (w : World) (n : ℕ) (terminal : MuxTerminal) (expectedRevision : ℕ)
    (s : PersistedState) : Dispatched :=
  if terminal.revision ≠ expectedRevision then
    .fail (.store (.conflict ("terminal revision " ++ terminal.id))) s
  else
    match disposeAll w [terminal.output.ptyId] with
    | .error e => .fail e s
    | .ok _ =>
      commit w n (updateTerminal (w.draw n) terminal.id (some expectedRevision) markCancelled) s
        fun cancelled s => ⟨.ok (.terminal cancelled), s, [terminalUpdated cancelled]⟩

/-- Cancel terminals one after the other, ignoring the ones that cannot be. -/
def cancelAll (w : World) : ℕ → List MuxTerminal → PersistedState → PersistedState × List MuxEvent
  | _, [], s => (s, [])
  | n, terminal :: rest, s =>
    let d := cancelMuxTerminal w n terminal terminal.revision s
    let (s', events) := cancelAll w (n + 1) rest d.store
    (s', d.events ++ events)

def restartMuxTerminal (w : World) (id : String) (expectedRevision : ℕ) (s : PersistedState) :
    Dispatched :=
  match s.getTerminal id with
  | none => .fail (.store (.notFound ("terminal " ++ id))) s
  | some current =>
    if current.revision ≠ expectedRevision then
      .fail (.store (.conflict ("terminal revision " ++ id))) s
    else
      match disposeAll w [current.output.ptyId] with
      | .error e => .fail e s
      | .ok _ =>
        commit w 0 (updateTerminal (w.draw 0) id (some expectedRevision) markRestarting) s
          fun starting s =>
            .after [terminalUpdated starting] (startProcess w 1 (fun g => g + 1) starting s)

def closeMuxTerminal (w : World) (terminal : MuxTerminal) (stop : Bool) (s : PersistedState) :
    Dispatched :=
  let previousSession := s.getSession terminal.sessionId
  let previousTab := terminal.tabId.bind s.getTab
  let disposed := if stop && terminal.status.isLive then disposeAll w [terminal.output.ptyId]
    else .ok ()
  match disposed with
  | .error e => .fail e s
  | .ok _ =>
    commit w 0 (closeTerminal (w.draw 0) terminal.id stop) s fun result s =>
      ⟨.ok (.terminal result.terminal), s,
        terminalArchivedEvent result.terminal ::
          changedTab false previousTab result.tab ++
          changedSession false previousSession (some result.session)⟩

def archiveMuxTab (w : World) (tabId : String) (stop : Bool) (s : PersistedState) : Dispatched :=
  let terminals := (orderedTerminals s tabId false).filter (fun r => stop && r.status.isLive)
  match disposeAll w (terminals.map (fun r => r.output.ptyId)) with
  | .error e => .fail e s
  | .ok _ =>
    commit w 0 (closeTab (w.draw 0) tabId stop) s fun result s =>
      ⟨.ok (.tab result.tab), s,
        result.terminals.map terminalArchivedEvent ++
          tabEvent .archived result.tab ::
          result.createdTabs.map (tabEvent .created) ++
          [sessionEvent .updated result.session]⟩

/-- The sessions that are listed now and were not before, each with its tabs. -/
def announceNew (previousIds : List String) (s : PersistedState) : List MuxEvent :=
  ((listSnapshots s false).filter (fun replacement => replacement.session.id ∉ previousIds)).flatMap
    (fun replacement =>
      sessionEvent .created replacement.session :: replacement.tabs.map (tabEvent .created))

def archiveMuxSession (w : World) (sessionId : String) (stop : Bool) (s : PersistedState) :
    Dispatched :=
  let previousIds := (listSnapshots s false).map (fun snapshot => snapshot.session.id)
  let live := if stop then
      (terminalsForSession s sessionId false).filter (fun r => r.status.isLive)
    else []
  let (s, cancelled) := cancelAll w 0 live s
  .after cancelled <|
    commit w live.length (archiveSession (w.draw live.length) sessionId) s fun session s =>
      ⟨.ok (.session session), s, sessionEvent .archived session :: announceNew previousIds s⟩

def moveMuxTerminal (w : World) (terminalId targetTabId : String) (s : PersistedState) :
    Dispatched :=
  match s.getTerminal terminalId with
  | none => .fail (.store (.notFound ("terminal " ++ terminalId))) s
  | some current =>
    let before := getSnapshot s current.sessionId
    commit w 0 (moveTerminal (w.draw 0) terminalId targetTabId) s fun terminal s =>
      ⟨.ok (.terminal terminal), s, terminalUpdated terminal ::
        match before, getSnapshot s terminal.sessionId with
        | some before, some after =>
          ((after.tabs.filter (fun tab =>
              (before.tabs.find? (fun previous => previous.id = tab.id)).any
                (fun previous => previous.revision ≠ tab.revision))).map (tabEvent .updated)) ++
            changedSession true (some before.session) (some after.session)
        | _, _ => []⟩

def selectMuxTerminal (w : World) (sessionId : String) (terminalId : Option String)
    (s : PersistedState) : Dispatched :=
  let previous := s.getSession sessionId
  let previousTab := (previous.bind AppSession.activeTabId).bind s.getTab
  commit w 0 (selectTerminal (w.draw 0) sessionId terminalId) s fun session s =>
    ⟨.ok (.session session), s,
      changedTab true previousTab (session.activeTabId.bind s.getTab) ++
        changedSession true previous (some session)⟩

def dispatchMux (w : World) (s : PersistedState) : MuxCommand → Dispatched
  | .listSessions includeArchived => ⟨.ok (.snapshots (listSnapshots s includeArchived)), s, []⟩
  | .createSession title =>
    commit w 0 (createSession (w.draw 0) (title.getD "New session")) s fun session s =>
      ⟨.ok (.session session), s, sessionEvent .created session ::
        ((getSnapshot s session.id).elim [] SessionSnapshot.tabs).map (tabEvent .created)⟩
  | .renameSession sessionId title =>
    commit w 0 (renameSession (w.draw 0) sessionId title) s fun session s =>
      ⟨.ok (.session session), s, [sessionEvent .updated session]⟩
  | .reorderSessions ids =>
    commit w 0 (reorderSessions (w.draw 0) ids) s fun sessions s =>
      ⟨.ok (.sessions sessions), s, sessions.map (sessionEvent .updated)⟩
  | .createTab sessionId title =>
    let previousSession := s.getSession sessionId
    commit w 0 (createTab (w.draw 0) sessionId (title.getD "New tab")) s fun tab s =>
      ⟨.ok (.tab tab), s, tabEvent .created tab ::
        changedSession false previousSession (s.getSession sessionId)⟩
  | .renameTab tabId title =>
    commit w 0 (renameTab (w.draw 0) tabId title) s fun tab s =>
      ⟨.ok (.tab tab), s, [tabEvent .updated tab]⟩
  | .saveTabLayout tabId layoutJson revision =>
    commit w 0 (saveTabLayout (w.draw 0) tabId layoutJson revision) s fun tab s =>
      ⟨.ok (.tab tab), s, [tabEvent .updated tab]⟩
  | .reorderTabs sessionId ids =>
    commit w 0 (reorderTabs (w.draw 0) sessionId ids) s fun tabs s =>
      ⟨.ok (.tabs tabs), s, tabs.map (tabEvent .updated)⟩
  | .archiveTab tabId mode => archiveMuxTab w tabId (mode = .stopTerminals) s
  | .selectTab sessionId tabId =>
    commit w 0 (selectTab (w.draw 0) sessionId tabId) s fun session s =>
      ⟨.ok (.session session), s, [sessionEvent .updated session]⟩
  | .archiveSession sessionId mode => archiveMuxSession w sessionId (mode = .stopTerminals) s
  | .restoreSession sessionId =>
    commit w 0 (restoreSession (w.draw 0) sessionId) s fun session s =>
      ⟨.ok (.session session), s, [sessionEvent .restored session]⟩
  | .getSession sessionId => ⟨.ok (.foundSnapshot (getSnapshot s sessionId)), s, []⟩
  | .getTerminal terminalId => ⟨.ok (.foundTerminal (s.getTerminal terminalId)), s, []⟩
  | .createTerminal sessionId tabId title input => createMuxTerminal w sessionId tabId title input s
  | .reorderTerminals sessionId tabId ids =>
    commit w 0 (reorderTerminals (w.draw 0) sessionId tabId ids) s fun terminals s =>
      ⟨.ok (.terminals terminals), s, terminals.map terminalUpdated⟩
  | .moveTerminal terminalId targetTabId => moveMuxTerminal w terminalId targetTabId s
  | .selectTerminal sessionId terminalId => selectMuxTerminal w sessionId terminalId s
  | .stopTerminal terminalId revision =>
    match s.getTerminal terminalId with
    | none => .fail (.store (.notFound ("terminal " ++ terminalId))) s
    | some terminal => cancelMuxTerminal w 0 terminal revision s
  | .restartTerminal terminalId revision => restartMuxTerminal w terminalId revision s
  | .closeTerminal terminalId =>
    match s.getTerminal terminalId with
    | none => .fail (.store (.notFound ("terminal " ++ terminalId))) s
    | some terminal => closeMuxTerminal w terminal true s
  | .renameTerminal terminalId title =>
    commit w 0 (renameTerminal (w.draw 0) terminalId title) s fun terminal s =>
      ⟨.ok (.terminal terminal), s, [terminalUpdated terminal]⟩

end PiDeck.Mux
