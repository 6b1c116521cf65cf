import Mathlib
import PiDeck.Collections.IndexMap
import PiDeck.Collections.Table
import PiDeck.Mux.Model

/-! The client's normalized copy of the sessions, tabs and terminals of all hosts, its indexes, and
the selection shown. Output bytes never enter it. Identifiers are those of the hosts, qualified by
the server they come from. -/
namespace PiDeck.MuxStore
open PiDeck.Collections
open PiDeck.Mux (TerminalOutput MuxTerminal)

/-- A session as a host sends it; older hosts send no revision. -/
structure AppSession where
  id : String
  title : String
  position : ℕ
  activeTabId : Option String
  activeMuxTerminalId : Option String
  revision : Option ℕ
  createdAt : String
  updatedAt : String
  archivedAt : Option String
  deriving DecidableEq, Repr

structure SessionTab where
  id : String
  sessionId : String
  title : String
  position : ℕ
  activeMuxTerminalId : Option String
  layoutJson : Option String
  revision : Option ℕ
  createdAt : String
  updatedAt : String
  archivedAt : Option String
  deriving DecidableEq, Repr

/-- An archive time that counts: an empty one does not. -/
def archived (archivedAt : Option String) : Bool := archivedAt.any (fun time => time ≠ "")

def AppSession.rev (session : AppSession) : ℕ := session.revision.getD 0
def SessionTab.rev (tab : SessionTab) : ℕ := tab.revision.getD 0

abbrev Sessions := Table AppSession.id
abbrev Tabs := Table SessionTab.id
abbrev Terminals := Table MuxTerminal.id

/-- The window of a session whose host names none. -/
def fallbackTab (session : AppSession) : SessionTab where
  id := "tab-" ++ String.ofList (session.id.toList.drop 4)
  sessionId := session.id
  title := "Window 1"
  position := 0
  activeMuxTerminalId := none
  layoutJson := none
  revision := none
  createdAt := session.createdAt
  updatedAt := session.updatedAt
  archivedAt := none

def stripKind : List Char → List Char
  | 's' :: 'e' :: 's' :: '-' :: rest => rest
  | 't' :: 'a' :: 'b' :: '-' :: rest => rest
  | 't' :: 'e' :: 'r' :: 'm' :: '-' :: rest => rest
  | id => id

/-- What follows the first separator between a server and the rest of an identifier. -/
def afterServer : List Char → Option (List Char)
  | [] => none
  | '-' :: '-' :: rest => some rest
  | _ :: rest => afterServer rest

/-- An identifier without its kind and its server. -/
def localResourceKey (id : String) : String :=
  String.ofList ((afterServer (stripKind id.toList)).getD (stripKind id.toList))

/-- The row under the identifier, or else the first with the same local key. -/
def findByLocalKey {ρ : Type} {id : ρ → String} (items : Table id) (requested : String) : Option ρ :=
  (items.get? requested).or
    (items.rows.find? (fun item => localResourceKey (id item) = localResourceKey requested))

inductive Connection
  | connecting | connected | reconciling | offline
  deriving DecidableEq, Repr

/-- The revisions that a snapshot was asked for at, 0 for none. -/
structure RevisionSnapshot where
  sessions : String → ℕ
  tabs : String → ℕ
  terminals : String → ℕ

/-- Indexes read as empty where they have no entry. A pending close carries its mutation. -/
structure MuxSessionStore where
  sessionsById : Sessions
  visibleSessionIds : List String
  tabsById : Tabs
  visibleTabIdsBySession : String → List String
  terminalsById : Terminals
  terminalIdsBySession : String → List String
  terminalIdsByTab : String → List String
  activeSessionId : Option String
  activeTabId : Option String
  activeMuxTerminalId : Option String
  connection : Connection
  revisions : RevisionSnapshot
  pendingTerminalCloses : IndexMap String ℕ
  pendingTabCloses : IndexMap String ℕ
  nextCloseMutationId : ℕ

inductive SessionEventTag
  | created | updated | archived | restored
  deriving DecidableEq, Repr

inductive TabEventTag
  | created | updated | archived
  deriving DecidableEq, Repr

inductive TerminalEventTag
  | created | updated
  deriving DecidableEq, Repr

inductive MuxEvent
  | session (tag : SessionEventTag) (revision : ℕ) (session : AppSession)
  | tab (tag : TabEventTag) (revision : ℕ) (tab : SessionTab)
  | terminal (tag : TerminalEventTag) (revision : ℕ) (muxTerminalId : String) (muxTerminal : MuxTerminal)
  | outputChanged (revision : ℕ) (occurredAt : String) (muxTerminalId : String) (output : TerminalOutput)
  | terminalArchived (revision : ℕ) (occurredAt : String) (muxTerminalId : String)

namespace MuxSessionStore

def initial : MuxSessionStore where
  sessionsById := .empty
  visibleSessionIds := []
  tabsById := .empty
  visibleTabIdsBySession _ := []
  terminalsById := .empty
  terminalIdsBySession _ := []
  terminalIdsByTab _ := []
  activeSessionId := none
  activeTabId := none
  activeMuxTerminalId := none
  connection := .connecting
  revisions := ⟨fun _ => 0, fun _ => 0, fun _ => 0⟩
  pendingTerminalCloses := .empty
  pendingTabCloses := .empty
  nextCloseMutationId := 1

/-! ### The indexes -/

def tabPosition (store : MuxSessionStore) (id : String) : ℕ :=
  (store.tabsById.get? id).elim 0 SessionTab.position

def terminalPosition (store : MuxSessionStore) (id : String) : ℕ :=
  (store.terminalsById.get? id).elim 0 MuxTerminal.position

def sortTabIds (store : MuxSessionStore) (ids : List String) : List String :=
  ids.insertionSort (fun a b => store.tabPosition a ≤ store.tabPosition b)

def sortTerminalIds (store : MuxSessionStore) (ids : List String) : List String :=
  ids.insertionSort (fun a b => store.terminalPosition a ≤ store.terminalPosition b)

/-- The visible sessions of a list, by position. -/
def visibleIds (sessions : List AppSession) : List String :=
  ((sessions.filter (fun session => !archived session.archivedAt)).insertionSort
    (fun a b => a.position ≤ b.position)).map AppSession.id

def rebuildVisibleSessions (store : MuxSessionStore) : MuxSessionStore :=
  { store with visibleSessionIds := visibleIds store.sessionsById.rows }

/-- The visible tabs among `tabs` of each session. -/
def indexTabs (store : MuxSessionStore) (tabs : List SessionTab) (sessionId : String) : List String :=
  store.sortTabIds ((tabs.filter (fun tab => !archived tab.archivedAt &&
    !store.pendingTabCloses.contains tab.id && tab.sessionId = sessionId)).map SessionTab.id)

def tabIdForTerminal (store : MuxSessionStore) (terminal : MuxTerminal) : Option String :=
  match terminal.tabId with
  | some tabId =>
    if store.tabsById.has tabId then some tabId
    else (store.visibleTabIdsBySession terminal.sessionId).head?
  | none => (store.visibleTabIdsBySession terminal.sessionId).head?

/-- A tab that shows its terminals. -/
def showsTab (store : MuxSessionStore) (tabId : String) : Bool :=
  !(store.tabsById.get? tabId).any (fun tab => archived tab.archivedAt) &&
    !store.pendingTabCloses.contains tabId

/-- The tab that shows a terminal. -/
def shownIn (store : MuxSessionStore) (terminal : MuxTerminal) : Option String :=
  if archived terminal.archivedAt || store.pendingTerminalCloses.contains terminal.id then none
  else (store.tabIdForTerminal terminal).filter store.showsTab

def rebuildTerminalIndexes (store : MuxSessionStore) : MuxSessionStore :=
  { store with
    terminalIdsBySession := fun sessionId => store.sortTerminalIds
      ((store.terminalsById.rows.filter (fun terminal =>
        (store.shownIn terminal).isSome && terminal.sessionId = sessionId)).map MuxTerminal.id)
    terminalIdsByTab := fun tabId => store.sortTerminalIds
      ((store.terminalsById.rows.filter (fun terminal =>
        store.shownIn terminal = some tabId)).map MuxTerminal.id) }

def rebuildVisibleTabs (store : MuxSessionStore) : MuxSessionStore :=
  { store with
    visibleTabIdsBySession := store.indexTabs store.tabsById.rows }.rebuildTerminalIndexes

/-- The indexes while one terminal changes, with the sessions and tabs whose order is redone. -/
structure TerminalIndexes where
  bySession : String → List String
  byTab : String → List String
  touchedSessions : List String
  touchedTabs : List String

def removeTerminal (store : MuxSessionStore) (terminal : MuxTerminal) (indexes : TerminalIndexes) :
    TerminalIndexes :=
  if archived terminal.archivedAt then indexes
  else
    let indexes := { indexes with
      bySession := Function.update indexes.bySession terminal.sessionId
        ((indexes.bySession terminal.sessionId).filter (fun id => id ≠ terminal.id))
      touchedSessions := terminal.sessionId :: indexes.touchedSessions }
    match store.tabIdForTerminal terminal with
    | none => indexes
    | some tabId => { indexes with
        byTab := Function.update indexes.byTab tabId
          ((indexes.byTab tabId).filter (fun id => id ≠ terminal.id))
        touchedTabs := tabId :: indexes.touchedTabs }

def insertTerminal (store : MuxSessionStore) (terminal : MuxTerminal) (indexes : TerminalIndexes) :
    TerminalIndexes :=
  match store.shownIn terminal with
  | none => indexes
  | some tabId =>
    { bySession := Function.update indexes.bySession terminal.sessionId
        (indexes.bySession terminal.sessionId ++ [terminal.id])
      byTab := Function.update indexes.byTab tabId (indexes.byTab tabId ++ [terminal.id])
      touchedSessions := terminal.sessionId :: indexes.touchedSessions
      touchedTabs := tabId :: indexes.touchedTabs }

def updateTerminalIndexes (store : MuxSessionStore) (previous : Option MuxTerminal)
    (next : MuxTerminal) : MuxSessionStore :=
  let indexes : TerminalIndexes := ⟨store.terminalIdsBySession, store.terminalIdsByTab, [], []⟩
  let indexes := previous.elim indexes (fun terminal => store.removeTerminal terminal indexes)
  let indexes := store.insertTerminal next indexes
  { store with
    terminalIdsBySession := fun id =>
      if id ∈ indexes.touchedSessions then store.sortTerminalIds (indexes.bySession id)
      else indexes.bySession id
    terminalIdsByTab := fun id =>
      if id ∈ indexes.touchedTabs then store.sortTerminalIds (indexes.byTab id)
      else indexes.byTab id }

def upsertTerminal (store : MuxSessionStore) (terminal : MuxTerminal) : MuxSessionStore :=
  let previous := store.terminalsById.get? terminal.id
  let store := { store with terminalsById := store.terminalsById.set terminal }
  if previous.all (fun old => old.sessionId ≠ terminal.sessionId || old.tabId ≠ terminal.tabId ||
      old.archivedAt ≠ terminal.archivedAt || old.position ≠ terminal.position) then
    store.updateTerminalIndexes previous terminal
  else store

/-! ### The selection -/

/-- The wanted identifier if it is listed, or else the first. -/
def preferred (wanted : Option String) (ids : List String) : Option String :=
  match wanted with
  | some id => if id ∈ ids then some id else ids.head?
  | none => ids.head?

def selectedTabForSession (store : MuxSessionStore) (id : String) : Option String :=
  preferred ((store.sessionsById.get? id).bind AppSession.activeTabId) (store.visibleTabIdsBySession id)

def selectedTerminalForTab (store : MuxSessionStore) (id : String) : Option String :=
  preferred ((store.tabsById.get? id).bind SessionTab.activeMuxTerminalId) (store.terminalIdsByTab id)

/-- The identifier is there and listed. -/
def listedIn (id : Option String) (ids : List String) : Bool := id.any (fun id => id ∈ ids)

/-- Keep the terminal shown in the tab, or show the one the tab selects. -/
def reconcileTerminal (store : MuxSessionStore) (tabId : Option String) : Option String :=
  tabId.bind (fun tabId =>
    if listedIn store.activeMuxTerminalId (store.terminalIdsByTab tabId) then store.activeMuxTerminalId
    else store.selectedTerminalForTab tabId)

def reconcileSelection (store : MuxSessionStore) : MuxSessionStore :=
  let activeSessionId :=
    if store.activeSessionId.any (fun id => store.sessionsById.has id && id ∈ store.visibleSessionIds)
    then store.activeSessionId else store.visibleSessionIds.head?
  match activeSessionId with
  | none => { store with
      activeSessionId := none, activeTabId := none, activeMuxTerminalId := none }
  | some sessionId =>
    let activeTabId :=
      if listedIn store.activeTabId (store.visibleTabIdsBySession sessionId) then store.activeTabId
      else store.selectedTabForSession sessionId
    { store with
      activeSessionId := some sessionId
      activeTabId := activeTabId
      activeMuxTerminalId := store.reconcileTerminal activeTabId }

def resolveSessionId (store : MuxSessionStore) (id : String) : Option String :=
  if store.sessionsById.has id then some id
  else (findByLocalKey store.sessionsById id).map AppSession.id

def selectSession (store : MuxSessionStore) (id : String) : MuxSessionStore :=
  match store.resolveSessionId id with
  | none => store
  | some resolved =>
    if store.activeSessionId = some resolved then store
    else
      let activeTabId := store.selectedTabForSession resolved
      { store with
        activeSessionId := some resolved
        activeTabId := activeTabId
        activeMuxTerminalId := activeTabId.bind store.selectedTerminalForTab }

def selectTab (store : MuxSessionStore) (id : String) : MuxSessionStore :=
  match (store.tabsById.get? id).or (findByLocalKey store.tabsById id) with
  | none => store
  | some tab =>
    if archived tab.archivedAt || store.pendingTabCloses.contains tab.id then store
    else { store with
      activeSessionId := some tab.sessionId
      activeTabId := some id
      activeMuxTerminalId := store.selectedTerminalForTab id }

def selectMuxTerminal (store : MuxSessionStore) (id : String) : MuxSessionStore :=
  match (store.terminalsById.get? id).or (findByLocalKey store.terminalsById id) with
  | none => store
  | some terminal =>
    if archived terminal.archivedAt || store.pendingTerminalCloses.contains terminal.id then store
    else
      match store.tabIdForTerminal terminal with
      | none => store
      | some tabId => { store with
          activeSessionId := some terminal.sessionId
          activeTabId := some tabId
          activeMuxTerminalId := some id }

end MuxSessionStore
end PiDeck.MuxStore
