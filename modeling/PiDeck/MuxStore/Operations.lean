import Mathlib
import PiDeck.MuxStore.Model
import PiDeck.Transition.Machine

/-! What changes the client's copy: snapshots, single rows, events, staged closes and selections. A
change that rewrites rows rebuilds the indexes it needs and then reconciles the selection. -/
namespace PiDeck.MuxStore
open PiDeck.Collections PiDeck.Transition
open PiDeck.Mux (MuxTerminal)

/-- Remember the larger of the revision known and that of each row. -/
def raise {ρ : Type} (id : ρ → String) (revision : ρ → ℕ) (rows : List ρ) (known : String → ℕ) :
    String → ℕ :=
  rows.foldl (fun known row => Function.update known (id row) (max (known (id row)) (revision row))) known

/-- The rows of a snapshot, each unless the current one is newer, and the current rows that it lacks
and that are newer than when it was asked for. -/
def mergeRows {ρ : Type} {id : ρ → String} (revision : ρ → ℕ) (current incoming : Table id)
    (baseline : String → ℕ) : Table id :=
  .ofList (incoming.rows.map (fun row =>
      match current.get? (id row) with
      | some held => if revision row < revision held then held else row
      | none => row) ++
    current.rows.filter (fun row => !incoming.has (id row) && baseline (id row) < revision row))

/-- Tabs with a window for each session that has none. -/
def withFallbacks (tabs : Tabs) : List AppSession → Tabs
  | [] => tabs
  | session :: sessions =>
    if tabs.rows.any (fun tab => tab.sessionId = session.id && !archived tab.archivedAt) then
      withFallbacks tabs sessions
    else withFallbacks (tabs.set (fallbackTab session)) sessions

def pushFallbacks (tabs : List SessionTab) : List AppSession → List SessionTab
  | [] => tabs
  | session :: sessions =>
    if tabs.any (fun tab => tab.sessionId = session.id && !archived tab.archivedAt) then
      pushFallbacks tabs sessions
    else pushFallbacks (tabs ++ [fallbackTab session]) sessions

namespace MuxSessionStore

def captureRevisions (store : MuxSessionStore) : RevisionSnapshot where
  sessions id := (store.sessionsById.get? id).elim 0 AppSession.rev
  tabs id := (store.tabsById.get? id).elim 0 SessionTab.rev
  terminals id := (store.terminalsById.get? id).elim 0 MuxTerminal.revision

/-- Drop the pending closes of what is archived or gone. -/
def clearAuthoritativelyFinishedCloses (store : MuxSessionStore) : MuxSessionStore :=
  { store with
    pendingTerminalCloses := store.pendingTerminalCloses.retain (fun id _ =>
      (store.terminalsById.get? id).any (fun terminal => !archived terminal.archivedAt))
    pendingTabCloses := store.pendingTabCloses.retain (fun id _ =>
      (store.tabsById.get? id).any (fun tab => !archived tab.archivedAt)) }

/-- The sessions that merging a snapshot leaves. -/
def mergedSessions (store : MuxSessionStore) (sessions : List AppSession)
    (baseline : RevisionSnapshot) : Sessions :=
  mergeRows AppSession.rev store.sessionsById (.ofList sessions) baseline.sessions

/-- The tabs that it leaves. -/
def mergedTabs (store : MuxSessionStore) (sessions : List AppSession) (tabs : List SessionTab)
    (hasTabs : Bool) (baseline : RevisionSnapshot) : Tabs :=
  let nextTabs :=
    if hasTabs then mergeRows SessionTab.rev store.tabsById (.ofList tabs) baseline.tabs
    else store.tabsById
  withFallbacks nextTabs (store.mergedSessions sessions baseline).rows

def mergeSnapshot (store : MuxSessionStore) (sessions : List AppSession) (terminals : List MuxTerminal)
    (tabs : List SessionTab) (hasTabs : Bool) (baseline : RevisionSnapshot) : MuxSessionStore :=
  let nextSessions := store.mergedSessions sessions baseline
  let nextTabs := store.mergedTabs sessions tabs hasTabs baseline
  let nextTerminals :=
    mergeRows MuxTerminal.revision store.terminalsById (.ofList terminals) baseline.terminals
  let store := { store with
    sessionsById := nextSessions, tabsById := nextTabs, terminalsById := nextTerminals }
  let store := store.clearAuthoritativelyFinishedCloses
  let store := { store with revisions := {
    sessions := fun id => max (raise AppSession.id AppSession.rev nextSessions.rows
      store.revisions.sessions id) (baseline.sessions id)
    tabs := fun id => max (raise SessionTab.id SessionTab.rev nextTabs.rows
      store.revisions.tabs id) (baseline.tabs id)
    terminals := fun id => max (raise MuxTerminal.id MuxTerminal.revision nextTerminals.rows
      store.revisions.terminals id) (baseline.terminals id) } }
  store.rebuildVisibleSessions.rebuildVisibleTabs.reconcileSelection

def replace (store : MuxSessionStore) (sessions : List AppSession) (terminals : List MuxTerminal)
    (tabs : List SessionTab) : MuxSessionStore :=
  let nextTabs := pushFallbacks tabs sessions
  let store := { store with
    sessionsById := .ofList sessions
    visibleSessionIds := visibleIds sessions
    tabsById := .ofList nextTabs }
  let store := { store with visibleTabIdsBySession := store.indexTabs nextTabs }
  let store := { store with terminalsById := .ofList terminals }
  let store := store.clearAuthoritativelyFinishedCloses
  let store := { store with revisions := {
    sessions := raise AppSession.id AppSession.rev sessions store.revisions.sessions
    tabs := raise SessionTab.id SessionTab.rev tabs store.revisions.tabs
    terminals := raise MuxTerminal.id MuxTerminal.revision terminals store.revisions.terminals } }
  store.rebuildTerminalIndexes.reconcileSelection

/-- The current row where it is newer than the one that came. -/
def newerRows {ρ : Type} {id : ρ → String} (revision : ρ → ℕ) (current : Table id) (came : List ρ) :
    List ρ :=
  came.filterMap (fun row => (current.get? (id row)).filter (fun held => revision row < revision held))

/-- The sessions once one of them is replaced, unless the one held is newer. -/
def sessionsWith (store : MuxSessionStore) (session : AppSession) : List AppSession :=
  let nextSession :=
    match store.sessionsById.get? session.id with
    | some current => if session.rev < current.rev then current else session
    | none => session
  store.sessionsById.rows.filter (fun candidate => candidate.id ≠ session.id) ++ [nextSession]

/-- The tabs once those of one session are replaced. -/
def tabsWith (store : MuxSessionStore) (sessionId : String) (tabs : Option (List SessionTab)) :
    List SessionTab :=
  let existingTabs := store.tabsById.rows.filter (fun candidate => candidate.sessionId ≠ sessionId)
  let incomingTabs : Tabs := .ofList (tabs.getD [])
  -- A host that names no tabs keeps those it had; the archived ones stay in any case.
  let incomingTabs := incomingTabs.setAll (store.tabsById.rows.filter (fun current =>
    current.sessionId = sessionId &&
      (tabs.isNone || (!incomingTabs.has current.id && archived current.archivedAt))))
  let incomingTabs := incomingTabs.setAll (newerRows SessionTab.rev store.tabsById (tabs.getD []))
  existingTabs ++ incomingTabs.rows

def replaceSession (store : MuxSessionStore) (session : AppSession) (terminals : List MuxTerminal)
    (tabs : Option (List SessionTab)) : MuxSessionStore :=
  let existingTerminals :=
    store.terminalsById.rows.filter (fun candidate => candidate.sessionId ≠ session.id)
  let incomingTerminals : Terminals := .ofList terminals
  -- Archived terminals of the session stay.
  let incomingTerminals := incomingTerminals.setAll (store.terminalsById.rows.filter (fun current =>
    current.sessionId = session.id && !incomingTerminals.has current.id && archived current.archivedAt))
  let incomingTerminals :=
    incomingTerminals.setAll (newerRows MuxTerminal.revision store.terminalsById terminals)
  store.replace (store.sessionsWith session) (existingTerminals ++ incomingTerminals.rows)
    (store.tabsWith session.id tabs)

/-- The terminal held is newer, by revision or then by time. -/
def staleTerminal (store : MuxSessionStore) (terminal : MuxTerminal) : Bool :=
  (store.terminalsById.get? terminal.id).any (fun current => terminal.revision < current.revision ||
    (current.revision = terminal.revision && terminal.updatedAt < current.updatedAt))

def replaceMuxTerminal (store : MuxSessionStore) (terminal : MuxTerminal) : MuxSessionStore :=
  if store.staleTerminal terminal then store
  else
    store.replace store.sessionsById.rows
      (store.terminalsById.rows.filter (fun candidate => candidate.id ≠ terminal.id) ++ [terminal])
      store.tabsById.rows

def replaceMuxTerminalIfNewer (store : MuxSessionStore) (terminal : MuxTerminal) : MuxSessionStore :=
  if (store.terminalsById.get? terminal.id).any (fun current => terminal.revision < current.revision)
  then store else store.replaceMuxTerminal terminal

def staleTab (store : MuxSessionStore) (tab : SessionTab) : Bool :=
  (store.tabsById.get? tab.id).any (fun current => tab.rev < current.rev ||
    (current.rev = tab.rev && tab.updatedAt < current.updatedAt))

/-- Set the row of a tab; the close of an archived one is over. -/
def setTab (store : MuxSessionStore) (tab : SessionTab) : MuxSessionStore :=
  let store := { store with tabsById := store.tabsById.set tab }
  if archived tab.archivedAt then
    { store with pendingTabCloses := store.pendingTabCloses.shiftRemove tab.id }
  else store

def replaceTab (store : MuxSessionStore) (tab : SessionTab) : MuxSessionStore :=
  if store.staleTab tab then store else (store.setTab tab).rebuildVisibleTabs.reconcileSelection

/-- There, not archived, and not closing yet. -/
def canClose {ρ : Type} {id : ρ → String} (table : Table id) (archivedAt : ρ → Option String)
    (closing : IndexMap String ℕ) (row : String) : Bool :=
  (table.get? row).any (fun held => !archived (archivedAt held)) && !closing.contains row

/-- The store, and the mutation if a close was staged. -/
def stageTerminalClose (store : MuxSessionStore) (id : String) : MuxSessionStore × Option ℕ :=
  if !canClose store.terminalsById MuxTerminal.archivedAt store.pendingTerminalCloses id then
    (store, none)
  else
    let mutationId := store.nextCloseMutationId
    let store := { store with
      nextCloseMutationId := mutationId + 1
      pendingTerminalCloses := store.pendingTerminalCloses.insert id mutationId }
    (store.rebuildTerminalIndexes.reconcileSelection, some mutationId)

def stageTabClose (store : MuxSessionStore) (id : String) : MuxSessionStore × Option ℕ :=
  if !canClose store.tabsById SessionTab.archivedAt store.pendingTabCloses id then (store, none)
  else
    let mutationId := store.nextCloseMutationId
    let store := { store with
      nextCloseMutationId := mutationId + 1
      pendingTabCloses := store.pendingTabCloses.insert id mutationId }
    (store.rebuildVisibleTabs.reconcileSelection, some mutationId)

/-- `confirm` of a staged close; nothing is rebuilt. -/
def confirmTerminalClose (store : MuxSessionStore) (id : String) (mutationId : ℕ) : MuxSessionStore :=
  if store.pendingTerminalCloses.get? id = some mutationId then
    { store with pendingTerminalCloses := store.pendingTerminalCloses.shiftRemove id }
  else store

def confirmTabClose (store : MuxSessionStore) (id : String) (mutationId : ℕ) : MuxSessionStore :=
  if store.pendingTabCloses.get? id = some mutationId then
    { store with pendingTabCloses := store.pendingTabCloses.shiftRemove id }
  else store

/-- `rollback` of a staged close. -/
def rollbackTerminalClose (store : MuxSessionStore) (id : String) (mutationId : ℕ) : MuxSessionStore :=
  if store.pendingTerminalCloses.get? id = some mutationId then
    { store with
      pendingTerminalCloses :=
        store.pendingTerminalCloses.shiftRemove id }.rebuildVisibleTabs.reconcileSelection
  else store

def rollbackTabClose (store : MuxSessionStore) (id : String) (mutationId : ℕ) : MuxSessionStore :=
  if store.pendingTabCloses.get? id = some mutationId then
    { store with
      pendingTabCloses := store.pendingTabCloses.shiftRemove id }.rebuildVisibleTabs.reconcileSelection
  else store

def clearPendingCloses (store : MuxSessionStore) : MuxSessionStore :=
  if store.pendingTerminalCloses.isEmpty && store.pendingTabCloses.isEmpty then store
  else
    { store with
      pendingTerminalCloses := .empty
      pendingTabCloses := .empty }.rebuildVisibleTabs.reconcileSelection

/-! ### Events -/

/-- The rows and indexes after a session event, and the selection it moves by itself. -/
def applySession (store : MuxSessionStore) (session : AppSession) : MuxSessionStore :=
  let store := { store with sessionsById := store.sessionsById.set session }.rebuildVisibleSessions
  if store.activeSessionId = some session.id then
    let tabIds := store.visibleTabIdsBySession session.id
    let nextTabId :=
      if listedIn store.activeTabId tabIds then store.activeTabId
      else if listedIn session.activeTabId tabIds then session.activeTabId
      else store.selectedTabForSession session.id
    { store with
      activeTabId := nextTabId
      activeMuxTerminalId :=
        if listedIn store.activeMuxTerminalId (nextTabId.elim [] store.terminalIdsByTab) then
          store.activeMuxTerminalId
        else nextTabId.bind store.selectedTerminalForTab }
  else store

def applyTab (store : MuxSessionStore) (tab : SessionTab) : MuxSessionStore :=
  let store := (store.setTab tab).rebuildVisibleTabs
  if store.activeTabId = some tab.id &&
      !listedIn store.activeMuxTerminalId (store.terminalIdsByTab tab.id) then
    { store with activeMuxTerminalId := store.selectedTerminalForTab tab.id }
  else store

def applyTerminal (store : MuxSessionStore) (terminal : MuxTerminal) : MuxSessionStore :=
  if (store.terminalsById.get? terminal.id).any (fun current => archived current.archivedAt) &&
      !archived terminal.archivedAt then store
  else store.upsertTerminal terminal

def knownSession (store : MuxSessionStore) (id : String) : ℕ :=
  max (store.revisions.sessions id) ((store.sessionsById.get? id).elim 0 AppSession.rev)

def knownTab (store : MuxSessionStore) (id : String) : ℕ :=
  max (store.revisions.tabs id) ((store.tabsById.get? id).elim 0 SessionTab.rev)

def knownTerminal (store : MuxSessionStore) (id : String) : ℕ :=
  max (store.revisions.terminals id) ((store.terminalsById.get? id).elim 0 MuxTerminal.revision)

/-- An event unless its revision is known. -/
def apply (store : MuxSessionStore) : MuxEvent → MuxSessionStore
  | .session _ revision session =>
    if revision ≤ store.knownSession session.id then store
    else
      ({ store with revisions := { store.revisions with
        sessions := Function.update store.revisions.sessions session.id revision } }.applySession
          session).reconcileSelection
  | .tab _ revision tab =>
    if revision ≤ store.knownTab tab.id then store
    else
      ({ store with revisions := { store.revisions with
        tabs := Function.update store.revisions.tabs tab.id revision } }.applyTab tab).reconcileSelection
  | .terminal _ revision muxTerminalId muxTerminal =>
    if revision ≤ store.knownTerminal muxTerminalId then store
    else
      ({ store with revisions := { store.revisions with
        terminals := Function.update store.revisions.terminals muxTerminalId revision } }.applyTerminal
          muxTerminal).reconcileSelection
  | .outputChanged revision occurredAt muxTerminalId output =>
    if revision ≤ store.knownTerminal muxTerminalId then store
    else
      let store := { store with revisions := { store.revisions with
        terminals := Function.update store.revisions.terminals muxTerminalId revision } }
      match store.terminalsById.get? muxTerminalId with
      | none => store.reconcileSelection
      | some terminal =>
        (store.upsertTerminal { terminal with
          output := output, revision := revision, updatedAt := occurredAt }).reconcileSelection
  | .terminalArchived revision occurredAt muxTerminalId =>
    if revision ≤ store.knownTerminal muxTerminalId then store
    else
      let store := { store with revisions := { store.revisions with
        terminals := Function.update store.revisions.terminals muxTerminalId revision } }
      match store.terminalsById.get? muxTerminalId with
      | none => store.reconcileSelection
      | some terminal =>
        ({ store with pendingTerminalCloses :=
            store.pendingTerminalCloses.shiftRemove muxTerminalId }.upsertTerminal { terminal with
          archivedAt := some occurredAt, revision := revision, updatedAt := occurredAt }).reconcileSelection

end MuxSessionStore

/-- The operations of the store. -/
inductive StoreOperation
  | mergeSnapshot (sessions : List AppSession) (terminals : List MuxTerminal) (tabs : List SessionTab)
      (hasTabs : Bool) (baseline : RevisionSnapshot)
  | replace (sessions : List AppSession) (terminals : List MuxTerminal) (tabs : List SessionTab)
  | replaceSession (session : AppSession) (terminals : List MuxTerminal)
      (tabs : Option (List SessionTab))
  | replaceMuxTerminal (terminal : MuxTerminal)
  | replaceMuxTerminalIfNewer (terminal : MuxTerminal)
  | replaceTab (tab : SessionTab)
  | stageTerminalClose (id : String)
  | stageTabClose (id : String)
  | confirmTerminalClose (id : String) (mutationId : ℕ)
  | confirmTabClose (id : String) (mutationId : ℕ)
  | rollbackTerminalClose (id : String) (mutationId : ℕ)
  | rollbackTabClose (id : String) (mutationId : ℕ)
  | clearPendingCloses
  | setConnection (connection : Connection)
  | selectSession (id : String)
  | selectTab (id : String)
  | selectMuxTerminal (id : String)
  | apply (event : MuxEvent)

namespace MuxSessionStore

def perform (store : MuxSessionStore) : StoreOperation → MuxSessionStore
  | .mergeSnapshot sessions terminals tabs hasTabs baseline =>
    store.mergeSnapshot sessions terminals tabs hasTabs baseline
  | .replace sessions terminals tabs => store.replace sessions terminals tabs
  | .replaceSession session terminals tabs => store.replaceSession session terminals tabs
  | .replaceMuxTerminal terminal => store.replaceMuxTerminal terminal
  | .replaceMuxTerminalIfNewer terminal => store.replaceMuxTerminalIfNewer terminal
  | .replaceTab tab => store.replaceTab tab
  | .stageTerminalClose id => (store.stageTerminalClose id).1
  | .stageTabClose id => (store.stageTabClose id).1
  | .confirmTerminalClose id mutationId => store.confirmTerminalClose id mutationId
  | .confirmTabClose id mutationId => store.confirmTabClose id mutationId
  | .rollbackTerminalClose id mutationId => store.rollbackTerminalClose id mutationId
  | .rollbackTabClose id mutationId => store.rollbackTabClose id mutationId
  | .clearPendingCloses => store.clearPendingCloses
  | .setConnection connection => { store with connection := connection }
  | .selectSession id => store.selectSession id
  | .selectTab id => store.selectTab id
  | .selectMuxTerminal id => store.selectMuxTerminal id
  | .apply event => store.apply event

def machine : Machine MuxSessionStore StoreOperation := ⟨fun store a => some (store.perform a)⟩

end MuxSessionStore
end PiDeck.MuxStore
