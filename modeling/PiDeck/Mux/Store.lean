import Mathlib
import PiDeck.Collections.Keyed
import PiDeck.Mux.Model

/-! The catalog store. An operation works on a copy of the state and answers with its result and
the next state; `mutate` writes that state to the database and keeps the old one when either the
operation or the write fails. -/
namespace PiDeck.Mux
open PiDeck.Collections

inductive StoreError
  | notFound (message : String)
  | conflict (message : String)
  | invalid (message : String)
  | storage (message : String)
  deriving DecidableEq, Repr

structure PersistedState where
  sessions : List AppSession
  tabs : List SessionTab
  terminals : List MuxTerminal
  deriving DecidableEq, Repr

/-- What an operation draws from outside: the time, and identifiers that are new. -/
structure Draw where
  now : String
  sessionUuid : String := ""
  tabUuid : String := ""
  terminalUuid : String := ""
  deriving DecidableEq, Repr

def Draw.sessionId (d : Draw) : String := "ses-" ++ d.sessionUuid
def Draw.tabId (d : Draw) : String := "tab-" ++ d.tabUuid
def Draw.terminalId (d : Draw) : String := "term-" ++ d.terminalUuid

/-- An operation on the state. -/
abbrev Mutation (α : Type) := PersistedState → Except StoreError (α × PersistedState)

/-- Run `operation` on a copy; `database` is the failure of the write, if it fails. -/
def mutate {α : Type} (database : Option String) (operation : Mutation α) : Mutation α :=
  fun current => do
    let (result, next) ← operation current
    match database with
    | some error => throw (.storage error)
    | none => pure (result, next)

namespace PersistedState

def getSession (s : PersistedState) (id : String) : Option AppSession :=
  findRow AppSession.id s.sessions id

def getTab (s : PersistedState) (id : String) : Option SessionTab :=
  findRow SessionTab.id s.tabs id

def getTerminal (s : PersistedState) (id : String) : Option MuxTerminal :=
  findRow MuxTerminal.id s.terminals id

def setSession (s : PersistedState) (id : String) (f : AppSession → AppSession) : PersistedState :=
  { s with sessions := modifyRow AppSession.id id f s.sessions }

def setTab (s : PersistedState) (id : String) (f : SessionTab → SessionTab) : PersistedState :=
  { s with tabs := modifyRow SessionTab.id id f s.tabs }

def setTerminal (s : PersistedState) (id : String) (f : MuxTerminal → MuxTerminal) :
    PersistedState :=
  { s with terminals := modifyRow MuxTerminal.id id f s.terminals }

def pushSession (s : PersistedState) (session : AppSession) : PersistedState :=
  { s with sessions := s.sessions ++ [session] }

def pushTab (s : PersistedState) (tab : SessionTab) : PersistedState :=
  { s with tabs := s.tabs ++ [tab] }

def pushTerminal (s : PersistedState) (terminal : MuxTerminal) : PersistedState :=
  { s with terminals := s.terminals ++ [terminal] }

/-- Rewrite a session, or report that it is missing. The answer is the rewritten row. -/
def findSessionMut (id : String) (f : AppSession → AppSession) : Mutation AppSession := fun s =>
  match s.getSession id with
  | some session => .ok (f session, s.setSession id f)
  | none => .error (.notFound ("session " ++ id))

def findTabMut (id : String) (f : SessionTab → SessionTab) : Mutation SessionTab := fun s =>
  match s.getTab id with
  | some tab => .ok (f tab, s.setTab id f)
  | none => .error (.notFound ("tab " ++ id))

def findTerminalMut (id : String) (f : MuxTerminal → MuxTerminal) : Mutation MuxTerminal := fun s =>
  match s.getTerminal id with
  | some terminal => .ok (f terminal, s.setTerminal id f)
  | none => .error (.notFound ("terminal " ++ id))

/-- Rewrite the tab a terminal is in, when it is in one. -/
def onTab (tabId : Option String) (f : SessionTab → SessionTab) : Mutation (Option SessionTab) :=
  fun s =>
    match tabId with
    | none => .ok (none, s)
    | some id => (findTabMut id f s).map (fun (tab, s) => (some tab, s))

end PersistedState
open PersistedState

def touchSession (now : String) (session : AppSession) : AppSession :=
  { session with revision := session.revision + 1, updatedAt := now }

def touchTab (now : String) (tab : SessionTab) : SessionTab :=
  { tab with revision := tab.revision + 1, updatedAt := now }

def touchTerminal (now : String) (terminal : MuxTerminal) : MuxTerminal :=
  { terminal with revision := terminal.revision + 1, updatedAt := now }

/-- The characters that `trim` removes. -/
def isWhitespace (c : Char) : Bool :=
  (0x9 ≤ c.toNat && c.toNat ≤ 0xD) || (0x2000 ≤ c.toNat && c.toNat ≤ 0x200A) ||
    c.toNat ∈ [0x20, 0x85, 0xA0, 0x1680, 0x2028, 0x2029, 0x202F, 0x205F, 0x3000]

def trim (value : String) : String :=
  String.ofList ((value.toList.dropWhile isWhitespace).rdropWhile isWhitespace)

def nonempty (value fallback : String) : String :=
  if trim value = "" then fallback else trim value

/-- The first `n` characters. -/
def takeChars (n : ℕ) (value : String) : String := String.ofList (value.toList.take n)

def assertPermutation (actual expected : List String) (label : String) : Except StoreError Unit :=
  if actual.length ≠ expected.length ∨ sortDedup actual ≠ expected.insertionSort (· ≤ ·) then
    .error (.invalid ("invalid " ++ label ++ " order"))
  else .ok ()

/-- Kept by a listing that includes archived rows, or because the row is not archived. -/
def listed (includeArchived : Bool) (archivedAt : Option String) : Bool :=
  includeArchived || archivedAt.isNone

def orderedSessions (s : PersistedState) (includeArchived : Bool) : List AppSession :=
  (s.sessions.filter (fun r => listed includeArchived r.archivedAt)).insertionSort
    (fun a b => a.position ≤ b.position)

def orderedTabs (s : PersistedState) (sessionId : String) (includeArchived : Bool) :
    List SessionTab :=
  (s.tabs.filter (fun r => r.sessionId = sessionId && listed includeArchived r.archivedAt)).insertionSort
    (fun a b => a.position ≤ b.position)

def orderedTerminals (s : PersistedState) (tabId : String) (includeArchived : Bool) :
    List MuxTerminal :=
  (s.terminals.filter
    (fun r => r.tabId = some tabId && listed includeArchived r.archivedAt)).insertionSort
    (fun a b => a.position ≤ b.position)

def terminalsForSession (s : PersistedState) (sessionId : String) (includeArchived : Bool) :
    List MuxTerminal :=
  (s.terminals.filter
    (fun r => r.sessionId = sessionId && listed includeArchived r.archivedAt)).insertionSort
    (fun a b => a.position ≤ b.position)

def snapshot (s : PersistedState) (session : AppSession) (includeArchived : Bool) :
    SessionSnapshot where
  session := session
  tabs := orderedTabs s session.id includeArchived
  muxTerminals := terminalsForSession s session.id includeArchived

def listSnapshots (s : PersistedState) (includeArchived : Bool) : List SessionSnapshot :=
  (orderedSessions s includeArchived).map (fun session => snapshot s session includeArchived)

def getSnapshot (s : PersistedState) (sessionId : String) : Option SessionSnapshot :=
  (s.getSession sessionId).map (fun session => snapshot s session false)

/-- The first terminal recorded with this process. -/
def terminalForPty (s : PersistedState) (ptyId : String) : Option MuxTerminal :=
  s.terminals.find? (fun r => r.output.ptyId = some ptyId)

def newSession (d : Draw) (title : String) (position : ℕ) : AppSession where
  id := d.sessionId
  title := title
  position := position
  activeTabId := some d.tabId
  activeMuxTerminalId := none
  revision := 2
  createdAt := d.now
  updatedAt := d.now
  archivedAt := none

def newTab (d : Draw) (sessionId title : String) (position : ℕ) : SessionTab where
  id := d.tabId
  sessionId := sessionId
  title := title
  position := position
  activeMuxTerminalId := none
  layoutJson := none
  revision := 1
  createdAt := d.now
  updatedAt := d.now
  archivedAt := none

/-- A session with one window, pushed when no session is visible. -/
def ensureVisibleSession (d : Draw) (s : PersistedState) : PersistedState :=
  if s.sessions.any (fun r => r.archivedAt.isNone) then s
  else
    (s.pushSession (newSession d "Session 1" 0)).pushTab (newTab d d.sessionId "Window 1" 0)

def PersistedState.new (d : Draw) : PersistedState := ensureVisibleSession d ⟨[], [], []⟩

def createSession (d : Draw) (title : String) : Mutation AppSession := fun s =>
  let position := (s.sessions.filter (fun r => r.archivedAt.isNone)).length
  let session := newSession d (nonempty title "New session") position
  .ok (session, (s.pushSession session).pushTab (newTab d d.sessionId "Window 1" 0))

def renameSession (d : Draw) (sessionId title : String) : Mutation AppSession :=
  findSessionMut sessionId
    (fun r => touchSession d.now { r with title := nonempty title r.title })

/-- Give the listed sessions the positions of the list. -/
def placeSessions (now : String) : List (String × ℕ) → PersistedState →
    Except StoreError PersistedState
  | [], s => .ok s
  | (id, position) :: rest, s => do
    let (_, s) ← findSessionMut id (fun r => touchSession now { r with position := position }) s
    placeSessions now rest s

def placeTabs (now : String) : List (String × ℕ) → PersistedState →
    Except StoreError PersistedState
  | [], s => .ok s
  | (id, position) :: rest, s => do
    let (_, s) ← findTabMut id (fun r => touchTab now { r with position := position }) s
    placeTabs now rest s

def placeTerminals (now : String) : List (String × ℕ) → PersistedState →
    Except StoreError PersistedState
  | [], s => .ok s
  | (id, position) :: rest, s => do
    let (_, s) ← findTerminalMut id (fun r => touchTerminal now { r with position := position }) s
    placeTerminals now rest s

def reorderSessions (d : Draw) (ids : List String) : Mutation (List AppSession) := fun s => do
  let current := (s.sessions.filter (fun r => r.archivedAt.isNone)).map AppSession.id
  assertPermutation ids current "sessions"
  let s ← placeSessions d.now ids.zipIdx s
  pure (orderedSessions s false, s)

def createTab (d : Draw) (sessionId title : String) : Mutation SessionTab := fun s =>
  if !s.sessions.any (fun r => r.id = sessionId && r.archivedAt.isNone) then
    .error (.notFound ("session " ++ sessionId))
  else do
    let position :=
      (s.tabs.filter (fun r => r.sessionId = sessionId && r.archivedAt.isNone)).length
    let tab := newTab d sessionId (nonempty title "New tab") position
    let (_, s) ← findSessionMut sessionId (fun r =>
      if r.activeTabId.isNone then touchSession d.now { r with activeTabId := some tab.id } else r)
      (s.pushTab tab)
    pure (tab, s)

def renameTab (d : Draw) (tabId title : String) : Mutation SessionTab :=
  findTabMut tabId
    (fun r => touchTab d.now { r with title := takeChars 160 (nonempty title r.title) })

def saveTabLayout (d : Draw) (tabId layoutJson : String) (expectedRevision : Option ℕ) :
    Mutation SessionTab := fun s =>
  if layoutJson.utf8ByteSize > 65536 then .error (.invalid "layout exceeds 65536 bytes")
  else
    match s.getTab tabId with
    | none => .error (.notFound ("tab " ++ tabId))
    | some tab =>
      if tab.archivedAt.isSome then .error (.notFound ("tab " ++ tabId))
      else if expectedRevision.any (fun revision => revision ≠ tab.revision) then
        .error (.conflict ("tab revision " ++ tabId))
      else findTabMut tabId (fun r => touchTab d.now { r with layoutJson := some layoutJson }) s

def reorderTabs (d : Draw) (sessionId : String) (ids : List String) : Mutation (List SessionTab) :=
  fun s => do
    let current := (orderedTabs s sessionId false).map SessionTab.id
    assertPermutation ids current "tabs"
    let s ← placeTabs d.now ids.zipIdx s
    pure (orderedTabs s sessionId false, s)

/-- The unarchived tab `tabId` of the session, by a scan over the tabs. -/
def findOwnTab (s : PersistedState) (sessionId tabId : String) : Option SessionTab :=
  s.tabs.find? (fun r => r.id = tabId && r.sessionId = sessionId && r.archivedAt.isNone)

def selectTab (d : Draw) (sessionId : String) (tabId : Option String) : Mutation AppSession :=
  fun s =>
    let select (selected : Option (String × Option String)) : Except StoreError _ :=
      findSessionMut sessionId (fun r => touchSession d.now { r with
        activeTabId := selected.map Prod.fst
        activeMuxTerminalId := selected.bind Prod.snd }) s
    match tabId with
    | none => select none
    | some tabId =>
      match findOwnTab s sessionId tabId with
      | some tab => select (some (tab.id, tab.activeMuxTerminalId))
      | none => .error (.invalid "active tab does not belong to session")

def archiveSession (d : Draw) (sessionId : String) : Mutation AppSession := fun s => do
  let (archived, s) ← findSessionMut sessionId (fun r =>
    if r.archivedAt.isNone then touchSession d.now { r with archivedAt := some d.now } else r) s
  pure (archived, ensureVisibleSession d s)

def restoreSession (d : Draw) (sessionId : String) : Mutation AppSession :=
  findSessionMut sessionId (fun r => touchSession d.now { r with archivedAt := none })

/-- Focus a terminal: its tab and the session select it, and both are touched. -/
def selectTerminalInState (d : Draw) (sessionId : String) (terminalId : Option String) :
    Mutation AppSession := fun s =>
  match terminalId with
  | none => findSessionMut sessionId (fun r => touchSession d.now
      { r with activeMuxTerminalId := none }) s
  | some id =>
    match (s.terminals.find? (fun r =>
      r.id = id && r.sessionId = sessionId && r.archivedAt.isNone)).bind MuxTerminal.tabId with
    | none => .error (.invalid "active terminal does not belong to session")
    | some tabId => do
      let (_, s) ← findTabMut tabId
        (fun r => touchTab d.now { r with activeMuxTerminalId := some id }) s
      findSessionMut sessionId (fun r => touchSession d.now
        { r with activeTabId := some tabId, activeMuxTerminalId := some id }) s

def selectTerminal (d : Draw) (sessionId : String) (terminalId : Option String) :
    Mutation AppSession := selectTerminalInState d sessionId terminalId

/-- The tab a terminal operation means: the one named, or the session's active one. -/
def selectedTab (s : PersistedState) (sessionId : String) (tabId : Option String) : Option String :=
  tabId <|> ((s.getSession sessionId).bind AppSession.activeTabId)

def newTerminal (d : Draw) (sessionId tabId title : String) (input : TerminalInput)
    (position : ℕ) : MuxTerminal where
  id := d.terminalId
  sessionId := sessionId
  tabId := some tabId
  title := nonempty title "Terminal"
  position := position
  status := .created
  input := input
  inputRevision := 1
  output := .pending
  error := none
  revision := 1
  createdAt := d.now
  updatedAt := d.now
  startedAt := none
  finishedAt := none
  archivedAt := none

def createTerminal (d : Draw) (sessionId : String) (tabId : Option String) (title : String)
    (input : TerminalInput) : Mutation MuxTerminal := fun s =>
  if !s.sessions.any (fun r => r.id = sessionId && r.archivedAt.isNone) then
    .error (.notFound ("session " ++ sessionId))
  else
    match selectedTab s sessionId tabId with
    | none => .error (.notFound ("tab for " ++ sessionId))
    | some selected =>
      if (findOwnTab s sessionId selected).isNone then
        .error (.invalid "terminal tab does not belong to session")
      else do
        let position :=
          (s.terminals.filter (fun r => r.tabId = some selected && r.archivedAt.isNone)).length
        let terminal := newTerminal d sessionId selected title input position
        let (_, s) ← selectTerminalInState d sessionId (some terminal.id) (s.pushTerminal terminal)
        pure (terminal, s)

/-- The bookkeeping after every terminal update. -/
def stampTerminal (now : String) (r : MuxTerminal) : MuxTerminal :=
  { r with
    revision := r.revision + 1
    updatedAt := now
    startedAt := if r.status.isStarted && r.startedAt.isNone then some now else r.startedAt
    finishedAt := if r.status.isFinished && r.finishedAt.isNone then some now else r.finishedAt }

def updateTerminal (d : Draw) (terminalId : String) (expectedRevision : Option ℕ)
    (update : MuxTerminal → MuxTerminal) : Mutation MuxTerminal := fun s =>
  match s.getTerminal terminalId with
  | none => .error (.notFound ("terminal " ++ terminalId))
  | some terminal =>
    if expectedRevision.any (fun revision => terminal.revision ≠ revision) then
      .error (.conflict ("terminal revision " ++ terminalId))
    else findTerminalMut terminalId (fun r => stampTerminal d.now (update r)) s

def renameTerminal (d : Draw) (terminalId title : String) : Mutation MuxTerminal :=
  updateTerminal d terminalId none
    (fun r => { r with title := takeChars 160 (nonempty title r.title) })

def reorderTerminals (d : Draw) (sessionId : String) (tabId : Option String) (ids : List String) :
    Mutation (List MuxTerminal) := fun s =>
  match selectedTab s sessionId tabId with
  | none => .error (.notFound "active tab")
  | some selected =>
    if (findOwnTab s sessionId selected).isNone then
      .error (.invalid "terminal tab does not belong to session")
    else do
      let current := (orderedTerminals s selected false).map MuxTerminal.id
      assertPermutation ids current "terminals"
      let s ← placeTerminals d.now ids.zipIdx s
      pure (orderedTerminals s selected false, s)

def moveTerminal (d : Draw) (terminalId targetTabId : String) : Mutation MuxTerminal := fun s =>
  match s.terminals.find? (fun r => r.id = terminalId && r.archivedAt.isNone) with
  | none => .error (.notFound ("terminal " ++ terminalId))
  | some current =>
    if (findOwnTab s current.sessionId targetTabId).isNone then
      .error (.invalid "target tab does not belong to session")
    else if current.tabId = some targetTabId then .ok (current, s)
    else do
      let position :=
        (s.terminals.filter (fun r => r.tabId = some targetTabId && r.archivedAt.isNone)).length
      let sourceReplacement := current.tabId.bind (fun sourceTabId =>
        ((orderedTerminals s sourceTabId false).find? (fun r => r.id ≠ terminalId)).map
          MuxTerminal.id)
      let (moved, s) ← findTerminalMut terminalId (fun r =>
        touchTerminal d.now { r with tabId := some targetTabId, position := position }) s
      let (_, s) ← onTab current.tabId (fun r => touchTab d.now
        (if r.activeMuxTerminalId = some terminalId then
          { r with activeMuxTerminalId := sourceReplacement } else r)) s
      let (_, s) ← selectTerminalInState d current.sessionId (some terminalId) s
      pure (moved, s)

/-- Archive a terminal; `stop` also ends a live one. -/
def archiveRow (now : String) (stop : Bool) (r : MuxTerminal) : MuxTerminal :=
  let r :=
    if stop && r.status.isLive then
      { r with
        status := .cancelled
        output := { r.output with
          processState := .exited, activityState := .idle, replayAvailable := false }
        finishedAt := some now }
    else r
  { r with archivedAt := some now, updatedAt := now, revision := r.revision + 1 }

structure CloseTerminalResult where
  terminal : MuxTerminal
  tab : Option SessionTab
  session : AppSession
  deriving DecidableEq, Repr

structure CloseTabResult where
  terminals : List MuxTerminal
  tab : SessionTab
  session : AppSession
  createdTabs : List SessionTab
  deriving DecidableEq, Repr

def closeTerminal (d : Draw) (terminalId : String) (stop : Bool) : Mutation CloseTerminalResult :=
  fun s =>
    match s.getTerminal terminalId with
    | none => .error (.notFound ("terminal " ++ terminalId))
    | some current =>
      if current.archivedAt.isSome then
        match s.getSession current.sessionId with
        | none => .error (.notFound ("session " ++ current.sessionId))
        | some session => .ok (⟨current, current.tabId.bind s.getTab, session⟩, s)
      else do
        let nextTerminal := current.tabId.bind (fun tabId =>
          ((s.terminals.filter (fun r =>
            r.tabId = some tabId && r.id ≠ terminalId && r.archivedAt.isNone)).argmin
              MuxTerminal.position).map MuxTerminal.id)
        let (archived, s) ← findTerminalMut terminalId (archiveRow d.now stop) s
        let (tab, s) ← onTab current.tabId (fun r =>
          if r.activeMuxTerminalId = some terminalId then
            touchTab d.now { r with activeMuxTerminalId := nextTerminal } else r) s
        let (session, s) ← findSessionMut current.sessionId (fun r =>
          if r.activeMuxTerminalId = some terminalId then
            touchSession d.now { r with activeMuxTerminalId := nextTerminal } else r) s
        pure (⟨archived, tab, session⟩, s)

/-- An unarchived terminal of the tab. -/
def inTab (tabId : String) (r : MuxTerminal) : Bool := r.tabId = some tabId && r.archivedAt.isNone

def closeTab (d : Draw) (tabId : String) (stop : Bool) : Mutation CloseTabResult := fun s =>
  match s.getTab tabId with
  | none => .error (.notFound ("tab " ++ tabId))
  | some current => do
    let terminals := (s.terminals.filter (inTab tabId)).map (archiveRow d.now stop)
    let s := { s with terminals := s.terminals.map (fun r =>
      if inTab tabId r then archiveRow d.now stop r else r) }
    let (archivedTab, s) ← findTabMut tabId (fun r =>
      if r.archivedAt.isNone then touchTab d.now { r with archivedAt := some d.now } else r) s
    let replaced :=
      if s.tabs.any (fun r => r.sessionId = current.sessionId && r.archivedAt.isNone) then []
      else [newTab d current.sessionId "Window 1" 0]
    let s := { s with tabs := s.tabs ++ replaced }
    let next := (s.tabs.filter (fun r =>
      r.sessionId = current.sessionId && r.archivedAt.isNone)).argmin SessionTab.position
    let (session, s) ← findSessionMut current.sessionId (fun r =>
      if r.activeTabId = some tabId then
        touchSession d.now { r with
          activeTabId := next.map SessionTab.id
          activeMuxTerminalId := next.bind SessionTab.activeMuxTerminalId }
      else r) s
    pure (⟨terminals, archivedTab, session, replaced⟩, s)

end PiDeck.Mux
