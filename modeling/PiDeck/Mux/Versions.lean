import Mathlib
import PiDeck.Collections.Versions
import PiDeck.Mux.Writes
import PiDeck.Transition.Machine

/-! The whole store: every operation it offers, the recovery when the host starts, and reopening it
from what was written last. A revision names the content of its row: over any run of the store a row
that changed has a larger revision. -/
namespace PiDeck.Mux
open PiDeck.Collections PiDeck.Transition PersistedState

/-- Archive a tab and leave its terminals as they are. -/
def archiveTab (d : Draw) (tabId : String) : Mutation SessionTab := fun s =>
  match s.getTab tabId with
  | none => .error (.notFound ("tab " ++ tabId))
  | some current =>
    if current.archivedAt.isSome then .ok (current, s)
    else do
      let (archived, s) ← findTabMut tabId
        (fun r => touchTab d.now { r with archivedAt := some d.now }) s
      let s :=
        if s.tabs.any (fun r => r.sessionId = current.sessionId && r.archivedAt.isNone) then s
        else s.pushTab (newTab d current.sessionId "Window 1" 0)
      let next := (orderedTabs s current.sessionId false).head?
      let (_, s) ← findSessionMut current.sessionId (fun r =>
        if r.activeTabId = some tabId then
          touchSession d.now { r with
            activeTabId := next.map SessionTab.id
            activeMuxTerminalId := next.bind SessionTab.activeMuxTerminalId }
        else r) s
      pure (archived, s)

/-- The tab of an archived terminal falls back to `next`, if there is such a tab. -/
def releaseTab (now terminalId : String) (next tabId : Option String) (s : PersistedState) :
    PersistedState :=
  match tabId with
  | none => s
  | some id => s.setTab id (refocusTab now terminalId next)

def archiveTerminal (d : Draw) (terminalId : String) : Mutation MuxTerminal := fun s =>
  match s.getTerminal terminalId with
  | none => .error (.notFound ("terminal " ++ terminalId))
  | some current =>
    if current.archivedAt.isSome then .ok (current, s)
    else do
      let (archived, s) ← findTerminalMut terminalId
        (fun r => touchTerminal d.now { r with archivedAt := some d.now }) s
      let next := current.tabId.bind (fun tabId =>
        (orderedTerminals s tabId false).head?.map MuxTerminal.id)
      let s := releaseTab d.now terminalId next current.tabId s
      let (_, s) ← findSessionMut current.sessionId (refocusSession d.now terminalId next) s
      pure (archived, s)

/-- The rows that an operation answers with. -/
structure Answer where
  sessions : List AppSession := []
  tabs : List SessionTab := []
  terminals : List MuxTerminal := []
  deriving DecidableEq, Repr

def answering {α : Type} (rows : α → Answer) (operation : Mutation α) : Mutation Answer :=
  fun s => (operation s).map (fun (a, s) => (rows a, s))

def ofSessions (rs : List AppSession) : Answer := { sessions := rs }
def ofTabs (rs : List SessionTab) : Answer := { tabs := rs }
def ofTerminals (rs : List MuxTerminal) : Answer := { terminals := rs }
def ofSession (r : AppSession) : Answer := ofSessions [r]
def ofTab (r : SessionTab) : Answer := ofTabs [r]
def ofTerminal (r : MuxTerminal) : Answer := ofTerminals [r]
def ofClosedTerminal (r : CloseTerminalResult) : Answer := ⟨[r.session], r.tab.toList, [r.terminal]⟩
def ofClosedTab (r : CloseTabResult) : Answer := ⟨[r.session], r.tab :: r.createdTabs, r.terminals⟩

/-- The operations of the store on the catalog. -/
inductive StoreOperation
  | createSession (title : String)
  | renameSession (sessionId title : String)
  | reorderSessions (ids : List String)
  | createTab (sessionId title : String)
  | renameTab (tabId title : String)
  | saveTabLayout (tabId layoutJson : String) (expectedRevision : Option ℕ)
  | reorderTabs (sessionId : String) (ids : List String)
  | selectTab (sessionId : String) (tabId : Option String)
  | archiveTab (tabId : String)
  | archiveSession (sessionId : String)
  | restoreSession (sessionId : String)
  | createTerminal (sessionId : String) (tabId : Option String) (title : String)
      (input : TerminalInput)
  | updateTerminal (terminalId : String) (expectedRevision : Option ℕ)
      (update : MuxTerminal → MuxTerminal) (life : LifeUpdate update)
  | renameTerminal (terminalId title : String)
  | selectTerminal (sessionId : String) (terminalId : Option String)
  | reorderTerminals (sessionId : String) (tabId : Option String) (ids : List String)
  | moveTerminal (terminalId targetTabId : String)
  | closeTerminal (terminalId : String) (stop : Bool)
  | closeTab (tabId : String) (stop : Bool)
  | archiveTerminal (terminalId : String)

def StoreOperation.perform (d : Draw) : StoreOperation → Mutation Answer
  | .createSession title => answering ofSession (Mux.createSession d title)
  | .renameSession sessionId title => answering ofSession (Mux.renameSession d sessionId title)
  | .reorderSessions ids => answering ofSessions (Mux.reorderSessions d ids)
  | .createTab sessionId title => answering ofTab (Mux.createTab d sessionId title)
  | .renameTab tabId title => answering ofTab (Mux.renameTab d tabId title)
  | .saveTabLayout tabId layoutJson expectedRevision =>
    answering ofTab (Mux.saveTabLayout d tabId layoutJson expectedRevision)
  | .reorderTabs sessionId ids =>
    answering ofTabs (Mux.reorderTabs d sessionId ids)
  | .selectTab sessionId tabId => answering ofSession (Mux.selectTab d sessionId tabId)
  | .archiveTab tabId => answering ofTab (Mux.archiveTab d tabId)
  | .archiveSession sessionId => answering ofSession (Mux.archiveSession d sessionId)
  | .restoreSession sessionId => answering ofSession (Mux.restoreSession d sessionId)
  | .createTerminal sessionId tabId title input =>
    answering ofTerminal (Mux.createTerminal d sessionId tabId title input)
  | .updateTerminal terminalId expectedRevision update _ =>
    answering ofTerminal (Mux.updateTerminal d terminalId expectedRevision update)
  | .renameTerminal terminalId title => answering ofTerminal (Mux.renameTerminal d terminalId title)
  | .selectTerminal sessionId terminalId =>
    answering ofSession (Mux.selectTerminal d sessionId terminalId)
  | .reorderTerminals sessionId tabId ids =>
    answering ofTerminals (Mux.reorderTerminals d sessionId tabId ids)
  | .moveTerminal terminalId targetTabId =>
    answering ofTerminal (Mux.moveTerminal d terminalId targetTabId)
  | .closeTerminal terminalId stop =>
    answering ofClosedTerminal (Mux.closeTerminal d terminalId stop)
  | .closeTab tabId stop => answering ofClosedTab (Mux.closeTab d tabId stop)
  | .archiveTerminal terminalId => answering ofTerminal (Mux.archiveTerminal d terminalId)

structure HostRestartMetadata where
  reason : String
  previousServerEpoch : Option String
  newServerEpoch : String
  occurredAt : String
  interruptedTerminalIds : List String
  deriving DecidableEq, Repr

/-- What the store holds, in memory and in the database: between two operations they agree. -/
structure StateStore where
  catalog : PersistedState
  lastServerEpoch : Option String
  lastRestart : Option HostRestartMetadata
  deriving DecidableEq, Repr

/-- A terminal that was live when the host stopped. -/
def interruptTerminal (now : String) (available : List String) (r : MuxTerminal) : MuxTerminal :=
  let historyId := r.output.historyId.or r.output.ptyId
  { r with
    status := .disconnected
    output := { r.output with
      processState := .interrupted
      activityState := .idle
      ptyId := none
      historyId := historyId
      processIdentity := none
      replayAvailable := historyId.any (fun id => id ∈ available) }
    revision := r.revision + 1
    updatedAt := now }

def reconcileTerminal (now : String) (available : List String) (r : MuxTerminal) : MuxTerminal :=
  if r.status.isLive then interruptTerminal now available r else r

namespace StateStore

/-- Open the store on what the database holds for this machine, if anything. -/
def openStore (d : Draw) (persisted : Option StateStore) : StateStore :=
  let state := persisted.getD ⟨PersistedState.new d, none, none⟩
  { state with catalog := ensureVisibleSession d state.catalog }

def reconcileStartup (d : Draw) (database : Option String) (serverEpoch : String)
    (available : List String) (s : StateStore) : Except StoreError StateStore :=
  if s.lastServerEpoch = some serverEpoch then .ok s
  else
    match database with
    | some error => .error (.storage error)
    | none => .ok {
        catalog := { s.catalog with
          terminals := s.catalog.terminals.map (reconcileTerminal d.now available) }
        lastServerEpoch := some serverEpoch
        lastRestart := some {
          reason := "host_restart"
          previousServerEpoch := s.lastServerEpoch
          newServerEpoch := serverEpoch
          occurredAt := d.now
          interruptedTerminalIds :=
            (s.catalog.terminals.filter (fun r => r.status.isLive)).map MuxTerminal.id } }

end StateStore

/-- What happens to the store: an operation, the recovery at startup, or the host going down and
opening it again. `database` is the failure of the write, if it fails. -/
inductive StoreAction
  | operate (d : Draw) (database : Option String) (operation : StoreOperation)
  | reconcileStartup (d : Draw) (database : Option String) (serverEpoch : String)
      (available : List String)
  | reopen (d : Draw) (database : Option String)

def StoreAction.draw : StoreAction → Draw
  | operate d _ _ | reconcileStartup d _ _ _ | reopen d _ => d

/-- Drawn identifiers are new. -/
def StoreAction.Fresh (s : StateStore) (a : StoreAction) : Prop := a.draw.Fresh s.catalog

def StateStore.act (s : StateStore) : StoreAction → Except StoreError (Answer × StateStore)
  | .operate d database operation =>
    (mutate database (operation.perform d) s.catalog).map
      (fun (answer, catalog) => (answer, { s with catalog := catalog }))
  | .reconcileStartup d database serverEpoch available =>
    (s.reconcileStartup d database serverEpoch available).map (fun s => ({}, s))
  | .reopen d database =>
    match database with
    | some error => .error (.storage error)
    | none => .ok ({}, .openStore d (some s))

/-- An action that fails leaves the store as it is. -/
def storeMachine : Machine StateStore StoreAction where
  step s a :=
    match s.act a with
    | .ok (_, next) => some next
    | .error _ => some s

namespace PersistedState
variable {s s' s'' : PersistedState} {id : String}

structure Keyed (s : PersistedState) : Prop where
  sessions : (s.sessions.map AppSession.id).Nodup
  tabs : (s.tabs.map SessionTab.id).Nodup
  terminals : (s.terminals.map MuxTerminal.id).Nodup

/-- The catalog only advances: a row that changes gets a larger revision, and identifiers stay
unique. -/
structure Versions (s s' : PersistedState) : Prop where
  sessions : Advances AppSession.revision (fun _ _ => True) Set.univ s.getSession s'.getSession
  tabs : Advances SessionTab.revision (fun _ _ => True) Set.univ s.getTab s'.getTab
  terminals : Advances MuxTerminal.revision (fun _ _ => True) Set.univ s.getTerminal s'.getTerminal
  keyed : s.Keyed → s'.Keyed

namespace Versions

theorem refl (s : PersistedState) : s.Versions s := ⟨.refl _, .refl _, .refl _, fun h => h⟩

theorem trans (A : s.Versions s') (B : s'.Versions s'') : s.Versions s'' where
  sessions := A.sessions.trans (fun _ _ _ _ _ => trivial) B.sessions
  tabs := A.tabs.trans (fun _ _ _ _ _ => trivial) B.tabs
  terminals := A.terminals.trans (fun _ _ _ _ _ => trivial) B.terminals
  keyed := B.keyed ∘ A.keyed

theorem setSession {f : AppSession → AppSession} (hf : Bumps AppSession.id AppSession.revision f) :
    s.Versions (s.setSession id f) :=
  ⟨hf.modifyRow, .refl _, .refl _, fun h => ⟨hf.nodup_modifyRow h.sessions, h.tabs, h.terminals⟩⟩

theorem setTab {f : SessionTab → SessionTab} (hf : Bumps SessionTab.id SessionTab.revision f) :
    s.Versions (s.setTab id f) :=
  ⟨.refl _, hf.modifyRow, .refl _, fun h => ⟨h.sessions, hf.nodup_modifyRow h.tabs, h.terminals⟩⟩

theorem setTerminal {f : MuxTerminal → MuxTerminal}
    (hf : Bumps MuxTerminal.id MuxTerminal.revision f) : s.Versions (s.setTerminal id f) :=
  ⟨.refl _, .refl _, hf.modifyRow, fun h => ⟨h.sessions, h.tabs, hf.nodup_modifyRow h.terminals⟩⟩

theorem mapTerminals {f : MuxTerminal → MuxTerminal}
    (hf : Bumps MuxTerminal.id MuxTerminal.revision f) :
    s.Versions { s with terminals := s.terminals.map f } :=
  ⟨.refl _, .refl _, hf.map, fun h => ⟨h.sessions, h.tabs, hf.nodup_map h.terminals⟩⟩

theorem pushSession {r : AppSession} (fresh : s.getSession r.id = none) :
    s.Versions (s.pushSession r) :=
  ⟨.push fresh, .refl _, .refl _, fun h => ⟨nodup_push fresh h.sessions, h.tabs, h.terminals⟩⟩

theorem pushTab {r : SessionTab} (fresh : s.getTab r.id = none) : s.Versions (s.pushTab r) :=
  ⟨.refl _, .push fresh, .refl _, fun h => ⟨h.sessions, nodup_push fresh h.tabs, h.terminals⟩⟩

theorem pushTerminal {r : MuxTerminal} (fresh : s.getTerminal r.id = none) :
    s.Versions (s.pushTerminal r) :=
  ⟨.refl _, .refl _, .push fresh, fun h => ⟨h.sessions, h.tabs, nodup_push fresh h.terminals⟩⟩

end Versions

theorem findSessionMut_versions {f : AppSession → AppSession} {r : AppSession}
    (h : findSessionMut id f s = .ok (r, s')) (hf : Bumps AppSession.id AppSession.revision f) :
    s.Versions s' ∧ r ∈ s'.sessions ∧ s'.tabs = s.tabs ∧ s'.terminals = s.terminals := by
  obtain ⟨r₀, hr₀, rfl, rfl⟩ := findSessionMut_ok h
  exact ⟨.setSession hf, hf.mem_modifyRow hr₀, rfl, rfl⟩

theorem findTabMut_versions {f : SessionTab → SessionTab} {r : SessionTab}
    (h : findTabMut id f s = .ok (r, s')) (hf : Bumps SessionTab.id SessionTab.revision f) :
    s.Versions s' ∧ r ∈ s'.tabs ∧ s'.sessions = s.sessions ∧ s'.terminals = s.terminals := by
  obtain ⟨r₀, hr₀, rfl, rfl⟩ := findTabMut_ok h
  exact ⟨.setTab hf, hf.mem_modifyRow hr₀, rfl, rfl⟩

theorem findTerminalMut_versions {f : MuxTerminal → MuxTerminal} {r : MuxTerminal}
    (h : findTerminalMut id f s = .ok (r, s'))
    (hf : Bumps MuxTerminal.id MuxTerminal.revision f) :
    s.Versions s' ∧ r ∈ s'.terminals ∧ s'.sessions = s.sessions ∧ s'.tabs = s.tabs := by
  obtain ⟨r₀, hr₀, rfl, rfl⟩ := findTerminalMut_ok h
  exact ⟨.setTerminal hf, hf.mem_modifyRow hr₀, rfl, rfl⟩

theorem onTab_versions {tab : Option String} {f : SessionTab → SessionTab} {o : Option SessionTab}
    (h : onTab tab f s = .ok (o, s')) (hf : Bumps SessionTab.id SessionTab.revision f) :
    s.Versions s' ∧ (∀ r ∈ o, r ∈ s'.tabs) ∧ s'.sessions = s.sessions ∧
      s'.terminals = s.terminals := by
  obtain ⟨-, rfl, rfl⟩ | ⟨id, row, -, hrow, rfl, rfl⟩ := onTab_ok h
  · exact ⟨.refl _, by simp, rfl, rfl⟩
  · refine ⟨.setTab hf, ?_, rfl, rfl⟩
    intro r hr
    obtain rfl := Option.some.inj hr
    exact hf.mem_modifyRow hrow

end PersistedState

section Fresh
variable {d : Draw} {s : PersistedState} {id : String}

theorem Draw.Fresh.setSession {f : AppSession → AppSession} (fresh : d.Fresh s)
    (hf : Bumps AppSession.id AppSession.revision f) : d.Fresh (s.setSession id f) :=
  ⟨hf.findRow_none fresh.session, fresh.tab, fresh.terminal⟩

theorem Draw.Fresh.setTab {f : SessionTab → SessionTab} (fresh : d.Fresh s)
    (hf : Bumps SessionTab.id SessionTab.revision f) : d.Fresh (s.setTab id f) :=
  ⟨fresh.session, hf.findRow_none fresh.tab, fresh.terminal⟩

end Fresh

/-! Every operation: the catalog only advances, and the rows of the answer are the stored ones. -/
section Operations
variable {d : Draw} {s s' : PersistedState} {sessionId tabId terminalId title : String}

theorem bumps_touchSession {f : AppSession → AppSession} (hid : ∀ r, (f r).id = r.id)
    (hrev : ∀ r, (f r).revision = r.revision) :
    Bumps AppSession.id AppSession.revision (fun r => touchSession d.now (f r)) :=
  .always hid (fun r => touchSession_rev (hrev r))

theorem bumps_touchTab {f : SessionTab → SessionTab} (hid : ∀ r, (f r).id = r.id)
    (hrev : ∀ r, (f r).revision = r.revision) :
    Bumps SessionTab.id SessionTab.revision (fun r => touchTab d.now (f r)) :=
  .always hid (fun r => touchTab_rev (hrev r))

theorem bumps_touchTerminal {f : MuxTerminal → MuxTerminal} (hid : ∀ r, (f r).id = r.id)
    (hrev : ∀ r, (f r).revision = r.revision) :
    Bumps MuxTerminal.id MuxTerminal.revision (fun r => touchTerminal d.now (f r)) :=
  .always hid (fun r => (hrev r).symm ▸ Nat.lt_succ_self _)

theorem addSession_versions (fresh : d.Fresh s) {title title' : String} {position : ℕ} :
    s.Versions ((s.pushSession (newSession d title position)).pushTab
      (newTab d d.sessionId title' 0)) := by
  have first : s.Versions (s.pushSession (newSession d title position)) :=
    .pushSession (r := newSession d title position) fresh.session
  have second : (s.pushSession (newSession d title position)).Versions
      ((s.pushSession (newSession d title position)).pushTab (newTab d d.sessionId title' 0)) :=
    .pushTab (r := newTab d d.sessionId title' 0) fresh.tab
  exact first.trans second

theorem ensureVisibleSession_versions (fresh : d.Fresh s) :
    s.Versions (ensureVisibleSession d s) := by
  rw [ensureVisibleSession]
  split_ifs
  · exact .refl s
  · exact addSession_versions fresh

theorem ensureVisibleSession_mem {r : AppSession} (hr : r ∈ s.sessions) :
    r ∈ (ensureVisibleSession d s).sessions := by
  rw [ensureVisibleSession]
  split_ifs
  · exact hr
  · exact List.mem_append_left _ hr

theorem createSession_versions (fresh : d.Fresh s) {r : AppSession}
    (h : createSession d title s = .ok (r, s')) : s.Versions s' ∧ r ∈ s'.sessions := by
  simp only [createSession, Except.ok.injEq, Prod.mk.injEq] at h
  obtain ⟨rfl, rfl⟩ := h
  exact ⟨addSession_versions fresh, List.mem_append_right _ (List.mem_singleton_self _)⟩

theorem renameSession_versions {r : AppSession} (h : renameSession d sessionId title s = .ok (r, s')) :
    s.Versions s' ∧ r ∈ s'.sessions := by
  obtain ⟨hv, hr, -⟩ := findSessionMut_versions h (bumps_touchSession (fun _ => rfl) (fun _ => rfl))
  exact ⟨hv, hr⟩

theorem restoreSession_versions {r : AppSession} (h : restoreSession d sessionId s = .ok (r, s')) :
    s.Versions s' ∧ r ∈ s'.sessions := by
  obtain ⟨hv, hr, -⟩ := findSessionMut_versions h (bumps_touchSession (fun _ => rfl) (fun _ => rfl))
  exact ⟨hv, hr⟩

theorem placeSessions_versions {ps : List (String × ℕ)} (h : placeSessions d.now ps s = .ok s') :
    s.Versions s' := by
  induction ps generalizing s with
  | nil =>
    obtain rfl : s = s' := by simpa [placeSessions] using h
    exact .refl s
  | cons p ps ih =>
    obtain ⟨⟨r, s₁⟩, h₁, h₂⟩ := Except.bind_ok.mp h
    obtain ⟨first, -⟩ := findSessionMut_versions h₁
      (bumps_touchSession (fun _ => rfl) (fun _ => rfl))
    exact first.trans (ih h₂)

theorem placeTabs_versions {ps : List (String × ℕ)} (h : placeTabs d.now ps s = .ok s') :
    s.Versions s' := by
  induction ps generalizing s with
  | nil =>
    obtain rfl : s = s' := by simpa [placeTabs] using h
    exact .refl s
  | cons p ps ih =>
    obtain ⟨⟨r, s₁⟩, h₁, h₂⟩ := Except.bind_ok.mp h
    obtain ⟨first, -⟩ := findTabMut_versions h₁ (bumps_touchTab (fun _ => rfl) (fun _ => rfl))
    exact first.trans (ih h₂)

theorem placeTerminals_versions {ps : List (String × ℕ)} (h : placeTerminals d.now ps s = .ok s') :
    s.Versions s' := by
  induction ps generalizing s with
  | nil =>
    obtain rfl : s = s' := by simpa [placeTerminals] using h
    exact .refl s
  | cons p ps ih =>
    obtain ⟨⟨r, s₁⟩, h₁, h₂⟩ := Except.bind_ok.mp h
    obtain ⟨first, -⟩ := findTerminalMut_versions h₁
      (bumps_touchTerminal (fun _ => rfl) (fun _ => rfl))
    exact first.trans (ih h₂)

theorem reorderSessions_versions {ids : List String} {rs : List AppSession}
    (h : reorderSessions d ids s = .ok (rs, s')) : s.Versions s' ∧ ∀ r ∈ rs, r ∈ s'.sessions := by
  obtain ⟨u, -, h⟩ := Except.bind_ok.mp h
  obtain ⟨s₁, hplace, h⟩ := Except.bind_ok.mp h
  obtain ⟨rfl, rfl⟩ : orderedSessions s₁ false = rs ∧ s₁ = s' := by simpa [pure, Except.pure] using h
  exact ⟨placeSessions_versions hplace, fun r hr => (mem_orderedSessions.mp hr).1⟩

theorem reorderTabs_versions {ids : List String} {rs : List SessionTab}
    (h : reorderTabs d sessionId ids s = .ok (rs, s')) : s.Versions s' ∧ ∀ r ∈ rs, r ∈ s'.tabs := by
  obtain ⟨u, -, h⟩ := Except.bind_ok.mp h
  obtain ⟨s₁, hplace, h⟩ := Except.bind_ok.mp h
  obtain ⟨rfl, rfl⟩ : orderedTabs s₁ sessionId false = rs ∧ s₁ = s' := by
    simpa [pure, Except.pure] using h
  exact ⟨placeTabs_versions hplace, fun r hr => (mem_orderedTabs.mp hr).1⟩

theorem reorderTerminals_versions {tab : Option String} {ids : List String} {rs : List MuxTerminal}
    (h : reorderTerminals d sessionId tab ids s = .ok (rs, s')) :
    s.Versions s' ∧ ∀ r ∈ rs, r ∈ s'.terminals := by
  simp only [reorderTerminals] at h
  cases hsel : selectedTab s sessionId tab with
  | none => simp [hsel] at h
  | some selected =>
    simp only [hsel] at h
    split_ifs at h
    obtain ⟨u, -, h⟩ := Except.bind_ok.mp h
    obtain ⟨s₁, hplace, h⟩ := Except.bind_ok.mp h
    obtain ⟨rfl, rfl⟩ : orderedTerminals s₁ selected false = rs ∧ s₁ = s' := by
      simpa [pure, Except.pure] using h
    exact ⟨placeTerminals_versions hplace, fun r hr => (mem_orderedTerminals.mp hr).1⟩

theorem createTab_versions (fresh : d.Fresh s) {r : SessionTab}
    (h : createTab d sessionId title s = .ok (r, s')) : s.Versions s' ∧ r ∈ s'.tabs := by
  rw [createTab] at h
  split_ifs at h
  obtain ⟨⟨session, s₁⟩, h₁, h⟩ := Except.bind_ok.mp h
  obtain ⟨rfl, rfl⟩ := by simpa only [pure, Except.pure, Except.ok.injEq, Prod.mk.injEq] using h
  obtain ⟨second, -, htabs, -⟩ := findSessionMut_versions h₁ (.ite (fun _ => rfl)
    (fun _ => touchSession_rev rfl))
  refine ⟨.trans (.pushTab (r := newTab d _ _ _) fresh.tab) second, ?_⟩
  rw [htabs]
  exact List.mem_append_right _ (List.mem_singleton_self _)

theorem renameTab_versions {r : SessionTab} (h : renameTab d tabId title s = .ok (r, s')) :
    s.Versions s' ∧ r ∈ s'.tabs := by
  rw [renameTab] at h
  obtain ⟨hv, hr, -⟩ := findTabMut_versions h (.always (fun r => by simp)
    (fun r => Nat.lt_succ_self r.revision))
  exact ⟨hv, hr⟩

theorem saveTabLayout_versions {layoutJson : String} {expectedRevision : Option ℕ} {r : SessionTab}
    (h : saveTabLayout d tabId layoutJson expectedRevision s = .ok (r, s')) :
    s.Versions s' ∧ r ∈ s'.tabs := by
  rw [saveTabLayout] at h
  split_ifs at h
  cases hg : s.getTab tabId with
  | none => simp [hg] at h
  | some tab =>
    simp only [hg] at h
    split_ifs at h
    obtain ⟨hv, hr, -⟩ := findTabMut_versions h (bumps_touchTab (fun _ => rfl) (fun _ => rfl))
    exact ⟨hv, hr⟩

theorem selectTab_versions {tab : Option String} {r : AppSession}
    (h : selectTab d sessionId tab s = .ok (r, s')) : s.Versions s' ∧ r ∈ s'.sessions := by
  have select : ∀ o : Option (String × Option String),
      findSessionMut sessionId (fun r => touchSession d.now { r with
        activeTabId := o.map Prod.fst, activeMuxTerminalId := o.bind Prod.snd }) s =
          .ok (r, s') → s.Versions s' ∧ r ∈ s'.sessions := by
    intro o h
    obtain ⟨hv, hr, -⟩ := findSessionMut_versions h
      (bumps_touchSession (fun _ => rfl) (fun _ => rfl))
    exact ⟨hv, hr⟩
  cases tab with
  | none => exact select none h
  | some tabId =>
    simp only [selectTab] at h
    cases hf : findOwnTab s sessionId tabId with
    | none => simp [hf] at h
    | some row =>
      simp only [hf] at h
      exact select _ h

theorem archiveSession_versions (fresh : d.Fresh s) {r : AppSession}
    (h : archiveSession d sessionId s = .ok (r, s')) : s.Versions s' ∧ r ∈ s'.sessions := by
  obtain ⟨⟨archived, s₁⟩, h₁, h⟩ := Except.bind_ok.mp h
  obtain ⟨rfl, rfl⟩ : archived = r ∧ ensureVisibleSession d s₁ = s' := by
    simpa [pure, Except.pure] using h
  have bumps : Bumps AppSession.id AppSession.revision (fun r =>
      if r.archivedAt.isNone then touchSession d.now { r with archivedAt := some d.now } else r) :=
    .ite (fun _ => rfl) (fun _ => touchSession_rev rfl)
  obtain ⟨first, hr, -⟩ := findSessionMut_versions h₁ bumps
  obtain ⟨r₀, -, -, rfl⟩ := findSessionMut_ok h₁
  exact ⟨first.trans (ensureVisibleSession_versions (fresh.setSession bumps)),
    ensureVisibleSession_mem hr⟩

theorem archiveTab_versions (fresh : d.Fresh s) {r : SessionTab}
    (h : archiveTab d tabId s = .ok (r, s')) : s.Versions s' ∧ r ∈ s'.tabs := by
  rw [archiveTab] at h
  cases hg : s.getTab tabId with
  | none => simp [hg] at h
  | some current =>
    simp only [hg] at h
    split_ifs at h
    · obtain ⟨rfl, rfl⟩ : current = r ∧ s = s' := by simpa using h
      exact ⟨.refl _, findRow_mem hg⟩
    · obtain ⟨⟨archived, s₁⟩, h₁, h⟩ := Except.bind_ok.mp h
      have bumps : Bumps SessionTab.id SessionTab.revision
          (fun r => touchTab d.now { r with archivedAt := some d.now }) :=
        bumps_touchTab (fun _ => rfl) (fun _ => rfl)
      obtain ⟨first, hr, -⟩ := findTabMut_versions h₁ bumps
      obtain ⟨r₀, -, -, rfl⟩ := findTabMut_ok h₁
      set s₂ := if (s.setTab tabId fun r => touchTab d.now { r with archivedAt := some d.now }).tabs.any
          (fun r => r.sessionId = current.sessionId && r.archivedAt.isNone) then
        (s.setTab tabId fun r => touchTab d.now { r with archivedAt := some d.now })
        else (s.setTab tabId fun r => touchTab d.now { r with archivedAt := some d.now }).pushTab
          (newTab d current.sessionId "Window 1" 0) with hs₂
      have second : (s.setTab tabId fun r =>
          touchTab d.now { r with archivedAt := some d.now }).Versions s₂ ∧
          archived ∈ s₂.tabs := by
        rw [hs₂]
        split_ifs
        · exact ⟨.refl _, hr⟩
        · exact ⟨.pushTab (r := newTab d _ _ _) (fresh.setTab bumps).tab, List.mem_append_left _ hr⟩
      obtain ⟨⟨session, s₃⟩, h₃, h⟩ := Except.bind_ok.mp h
      obtain ⟨rfl, rfl⟩ : archived = r ∧ s₃ = s' := by simpa [pure, Except.pure] using h
      obtain ⟨third, -, htabs, -⟩ := findSessionMut_versions h₃ (.ite (fun _ => rfl)
        (fun _ => touchSession_rev rfl))
      exact ⟨(first.trans second.1).trans third, htabs ▸ second.2⟩

theorem selectTerminalInState_versions {terminal : Option String} {r : AppSession}
    (h : selectTerminalInState d sessionId terminal s = .ok (r, s')) :
    s.Versions s' ∧ r ∈ s'.sessions ∧ s'.terminals = s.terminals := by
  cases terminal with
  | none =>
    rw [selectTerminalInState] at h
    obtain ⟨hv, hr, -, ht⟩ := findSessionMut_versions h
      (bumps_touchSession (fun _ => rfl) (fun _ => rfl))
    exact ⟨hv, hr, ht⟩
  | some id =>
    obtain ⟨m, tabId, tab, session, -, -, -, -, -, -, hsession, rfl, rfl⟩ :=
      selectTerminalInState_ok h
    have focus : Bumps AppSession.id AppSession.revision (fun r => touchSession d.now
        { r with activeTabId := some tabId, activeMuxTerminalId := some id }) :=
      bumps_touchSession (fun _ => rfl) (fun _ => rfl)
    have focusTab : Bumps SessionTab.id SessionTab.revision (fun r => touchTab d.now
        { r with activeMuxTerminalId := some id }) := bumps_touchTab (fun _ => rfl) (fun _ => rfl)
    exact ⟨(Versions.setTab focusTab).trans (.setSession focus), focus.mem_modifyRow hsession, rfl⟩

theorem createTerminal_versions (fresh : d.Fresh s) {tab : Option String} {input : TerminalInput}
    {r : MuxTerminal} (h : createTerminal d sessionId tab title input s = .ok (r, s')) :
    s.Versions s' ∧ r ∈ s'.terminals := by
  obtain ⟨selected, row, session, -, -, rfl, hselect⟩ := createTerminal_ok h
  obtain ⟨second, -, hterminals⟩ := selectTerminalInState_versions hselect
  refine ⟨.trans (.pushTerminal (r := newTerminal d _ _ _ _ _) fresh.terminal) second, ?_⟩
  rw [hterminals]
  exact List.mem_append_right _ (List.mem_singleton_self _)

theorem updateTerminal_versions {expected : Option ℕ} {update : MuxTerminal → MuxTerminal}
    {r : MuxTerminal} (h : updateTerminal d terminalId expected update s = .ok (r, s'))
    (hid : ∀ r, (update r).id = r.id) (hrev : ∀ r, (update r).revision = r.revision) :
    s.Versions s' ∧ r ∈ s'.terminals := by
  obtain ⟨r₀, hr₀, -, rfl, rfl⟩ := updateTerminal_ok h
  have bumps : Bumps MuxTerminal.id MuxTerminal.revision
      (fun r => stampTerminal d.now (update r)) := by
    refine .always hid (fun r => ?_)
    rw [stampTerminal_revision, hrev]
    exact Nat.lt_succ_self _
  exact ⟨.setTerminal bumps, bumps.mem_modifyRow hr₀⟩

theorem moveTerminal_versions {target : String} {r : MuxTerminal}
    (h : moveTerminal d terminalId target s = .ok (r, s')) : s.Versions s' ∧ r ∈ s'.terminals := by
  simp only [moveTerminal] at h
  cases hcur : s.terminals.find? (fun r => r.id = terminalId && r.archivedAt.isNone) with
  | none => simp [hcur] at h
  | some current =>
    simp only [hcur] at h
    split_ifs at h
    · obtain ⟨rfl, rfl⟩ : current = r ∧ s = s' := by simpa using h
      exact ⟨.refl _, List.mem_of_find?_eq_some hcur⟩
    · obtain ⟨⟨moved, s₁⟩, h₁, h⟩ := Except.bind_ok.mp h
      obtain ⟨⟨o, s₂⟩, h₂, h⟩ := Except.bind_ok.mp h
      obtain ⟨⟨session, s₃⟩, h₃, h⟩ := Except.bind_ok.mp h
      obtain ⟨rfl, rfl⟩ : moved = r ∧ s₃ = s' := by simpa [pure, Except.pure] using h
      obtain ⟨first, hr, -⟩ := findTerminalMut_versions h₁
        (bumps_touchTerminal (fun _ => rfl) (fun _ => rfl))
      obtain ⟨second, -, -, hsecond⟩ := onTab_versions h₂ (bumps_touchTab
        (fun r => by split_ifs <;> rfl) (fun r => by split_ifs <;> rfl))
      obtain ⟨third, -, hthird⟩ := selectTerminalInState_versions h₃
      exact ⟨(first.trans second).trans third, by rw [hthird, hsecond]; exact hr⟩

theorem bumps_archiveRow {stop : Bool} :
    Bumps MuxTerminal.id MuxTerminal.revision (archiveRow d.now stop) := by
  refine .always (fun _ => archiveRow_id) (fun r => ?_)
  rw [archiveRow_revision]
  exact Nat.lt_succ_self _

theorem closeTerminal_versions {stop : Bool} {result : CloseTerminalResult}
    (h : closeTerminal d terminalId stop s = .ok (result, s')) :
    s.Versions s' ∧ result.session ∈ s'.sessions ∧ (∀ r ∈ result.tab, r ∈ s'.tabs) ∧
      result.terminal ∈ s'.terminals := by
  simp only [closeTerminal] at h
  cases hcur : s.getTerminal terminalId with
  | none => simp [hcur] at h
  | some current =>
    simp only [hcur] at h
    split_ifs at h
    · cases hsess : s.getSession current.sessionId with
      | none => simp [hsess] at h
      | some session =>
        simp only [hsess, Except.ok.injEq, Prod.mk.injEq] at h
        obtain ⟨rfl, rfl⟩ := h
        refine ⟨.refl _, findRow_mem hsess, ?_, findRow_mem hcur⟩
        intro r hr
        obtain ⟨id, -, hrow⟩ := Option.bind_eq_some_iff.mp hr
        exact findRow_mem hrow
    · obtain ⟨⟨archived, s₁⟩, h₁, h⟩ := Except.bind_ok.mp h
      obtain ⟨⟨o, s₂⟩, h₂, h⟩ := Except.bind_ok.mp h
      obtain ⟨⟨session, s₃⟩, h₃, h⟩ := Except.bind_ok.mp h
      obtain ⟨rfl, rfl⟩ := by
        simpa only [pure, Except.pure, Except.ok.injEq, Prod.mk.injEq] using h
      obtain ⟨first, hterminal, -⟩ := findTerminalMut_versions h₁ bumps_archiveRow
      obtain ⟨second, htab, -, hsecond⟩ := onTab_versions h₂
        (.ite (fun _ => rfl) (fun _ => touchTab_rev rfl))
      obtain ⟨third, hsession, htabs, hterminals⟩ := findSessionMut_versions h₃
        (.ite (fun _ => rfl) (fun _ => touchSession_rev rfl))
      refine ⟨(first.trans second).trans third, hsession, ?_, ?_⟩
      · rw [htabs]
        exact htab
      · rw [hterminals, hsecond]
        exact hterminal

theorem sweepTab_versions (fresh : d.Fresh s) {stop : Bool} :
    s.Versions (sweepTab d tabId sessionId stop s) := by
  have sweep : Bumps MuxTerminal.id MuxTerminal.revision (sweepTerminal d.now tabId stop) :=
    .ite bumps_archiveRow.key (fun r => by simp)
  have archive : Bumps SessionTab.id SessionTab.revision (archiveTabRow d.now) :=
    ⟨fun _ => archiveTabRow_id, archiveTabRow_rev⟩
  have both : s.Versions { s with
      tabs := archivedTabs d.now tabId s
      terminals := s.terminals.map (sweepTerminal d.now tabId stop) } :=
    (Versions.mapTerminals sweep).trans (.setTab archive)
  rw [sweepTab, replacementTabs]
  split_ifs
  · rw [List.append_nil]
    exact both
  · exact both.trans (.pushTab (r := newTab d sessionId "Window 1" 0)
      (archive.findRow_none fresh.tab))

theorem closeTab_versions (fresh : d.Fresh s) {stop : Bool} {result : CloseTabResult}
    (h : closeTab d tabId stop s = .ok (result, s')) :
    s.Versions s' ∧ result.session ∈ s'.sessions ∧
      (∀ r ∈ result.tab :: result.createdTabs, r ∈ s'.tabs) ∧
      ∀ r ∈ result.terminals, r ∈ s'.terminals := by
  obtain ⟨current, session, hcur, hsession, rfl, rfl⟩ := closeTab_ok h
  have reselect : Bumps AppSession.id AppSession.revision (reselectSession d.now tabId
      (nextTab (sweepTab d tabId current.sessionId stop s) current.sessionId)) :=
    ⟨fun _ => reselectSession_id, reselectSession_rev⟩
  have archive : Bumps SessionTab.id SessionTab.revision (archiveTabRow d.now) :=
    ⟨fun _ => archiveTabRow_id, archiveTabRow_rev⟩
  refine ⟨(sweepTab_versions fresh).trans (.setSession reselect), reselect.mem_modifyRow hsession,
    ?_, ?_⟩
  · intro r hr
    cases hr with
    | head => exact List.mem_append_left _ (archive.mem_modifyRow hcur)
    | tail _ hr => exact List.mem_append_right _ hr
  · intro r hr
    obtain ⟨r₀, hr₀, rfl⟩ := List.mem_map.mp hr
    obtain ⟨hmem, hin⟩ := List.mem_filter.mp hr₀
    exact List.mem_map.mpr ⟨r₀, hmem, if_pos hin⟩

theorem releaseTab_versions {next tab : Option String} :
    s.Versions (releaseTab d.now terminalId next tab s) := by
  cases tab with
  | none => exact .refl s
  | some id => exact .setTab ⟨fun _ => refocusTab_id, refocusTab_rev⟩

@[simp] theorem releaseTab_terminals {now : String} {next tab : Option String} :
    (releaseTab now terminalId next tab s).terminals = s.terminals := by
  cases tab <;> rfl

theorem archiveTerminal_versions {r : MuxTerminal} (h : archiveTerminal d terminalId s = .ok (r, s')) :
    s.Versions s' ∧ r ∈ s'.terminals := by
  rw [archiveTerminal] at h
  cases hg : s.getTerminal terminalId with
  | none => simp [hg] at h
  | some current =>
    simp only [hg] at h
    split_ifs at h
    · obtain ⟨rfl, rfl⟩ : current = r ∧ s = s' := by simpa using h
      exact ⟨.refl _, findRow_mem hg⟩
    · obtain ⟨⟨archived, s₁⟩, h₁, h⟩ := Except.bind_ok.mp h
      obtain ⟨⟨session, s₂⟩, h₂, h⟩ := Except.bind_ok.mp h
      obtain ⟨rfl, rfl⟩ : archived = r ∧ s₂ = s' := by simpa [pure, Except.pure] using h
      obtain ⟨first, hr, -⟩ := findTerminalMut_versions h₁
        (bumps_touchTerminal (fun _ => rfl) (fun _ => rfl))
      obtain ⟨third, -, -, hterminals⟩ := findSessionMut_versions h₂
        ⟨fun _ => refocusSession_id, refocusSession_rev⟩
      refine ⟨(first.trans releaseTab_versions).trans third, ?_⟩
      rw [hterminals, releaseTab_terminals]
      exact hr

theorem reconcileTerminal_bumps {now : String} {available : List String} :
    Bumps MuxTerminal.id MuxTerminal.revision (reconcileTerminal now available) :=
  .ite (fun _ => rfl) (fun _ => Nat.lt_succ_self _)

end Operations

/-- The rows of the answer are rows of the catalog. -/
structure Answer.Stored (answer : Answer) (s : PersistedState) : Prop where
  sessions : ∀ r ∈ answer.sessions, r ∈ s.sessions
  tabs : ∀ r ∈ answer.tabs, r ∈ s.tabs
  terminals : ∀ r ∈ answer.terminals, r ∈ s.terminals

namespace Answer.Stored
variable {s : PersistedState}

theorem none : ({} : Answer).Stored s := ⟨by simp, by simp, by simp⟩

theorem ofSessions {rs : List AppSession} (h : ∀ r ∈ rs, r ∈ s.sessions) :
    (ofSessions rs).Stored s := ⟨h, by simp [Mux.ofSessions], by simp [Mux.ofSessions]⟩

theorem ofTabs {rs : List SessionTab} (h : ∀ r ∈ rs, r ∈ s.tabs) : (ofTabs rs).Stored s :=
  ⟨by simp [Mux.ofTabs], h, by simp [Mux.ofTabs]⟩

theorem ofTerminals {rs : List MuxTerminal} (h : ∀ r ∈ rs, r ∈ s.terminals) :
    (ofTerminals rs).Stored s := ⟨by simp [Mux.ofTerminals], by simp [Mux.ofTerminals], h⟩

theorem session {r : AppSession} (h : r ∈ s.sessions) : (ofSession r).Stored s :=
  .ofSessions (by simpa using h)

theorem tab {r : SessionTab} (h : r ∈ s.tabs) : (ofTab r).Stored s := .ofTabs (by simpa using h)

theorem terminal {r : MuxTerminal} (h : r ∈ s.terminals) : (ofTerminal r).Stored s :=
  .ofTerminals (by simpa using h)

end Answer.Stored

theorem answering_ok {α : Type} {rows : α → Answer} {operation : Mutation α}
    {s s' : PersistedState} {answer : Answer} (h : answering rows operation s = .ok (answer, s')) :
    ∃ a, operation s = .ok (a, s') ∧ answer = rows a := by
  rw [answering] at h
  cases ho : operation s with
  | error e => simp [ho, Except.map] at h
  | ok p =>
    obtain ⟨a, s₁⟩ := p
    obtain ⟨rfl, rfl⟩ : rows a = answer ∧ s₁ = s' := by simpa [ho, Except.map] using h
    exact ⟨a, rfl, rfl⟩

theorem StoreOperation.versions {d : Draw} {s s' : PersistedState} {operation : StoreOperation}
    {answer : Answer} (fresh : d.Fresh s) (h : operation.perform d s = .ok (answer, s')) :
    s.Versions s' ∧ answer.Stored s' := by
  cases operation <;> obtain ⟨r, hr, rfl⟩ := answering_ok h
  case createSession =>
    exact (createSession_versions fresh hr).imp_right .session
  case renameSession =>
    exact (renameSession_versions hr).imp_right .session
  case reorderSessions =>
    exact (reorderSessions_versions hr).imp_right .ofSessions
  case createTab =>
    exact (createTab_versions fresh hr).imp_right .tab
  case renameTab =>
    exact (renameTab_versions hr).imp_right .tab
  case saveTabLayout =>
    exact (saveTabLayout_versions hr).imp_right .tab
  case reorderTabs =>
    exact (reorderTabs_versions hr).imp_right .ofTabs
  case selectTab =>
    exact (selectTab_versions hr).imp_right .session
  case archiveTab =>
    exact (archiveTab_versions fresh hr).imp_right .tab
  case archiveSession =>
    exact (archiveSession_versions fresh hr).imp_right .session
  case restoreSession =>
    exact (restoreSession_versions hr).imp_right .session
  case createTerminal =>
    exact (createTerminal_versions fresh hr).imp_right .terminal
  case updateTerminal _ _ update life =>
    have keeps := life.keeps
    exact (updateTerminal_versions hr (fun r => (keeps r).1) (fun r => (keeps r).2.1)).imp_right
      .terminal
  case renameTerminal =>
    exact (updateTerminal_versions hr (fun _ => rfl) (fun _ => rfl)).imp_right .terminal
  case selectTerminal =>
    obtain ⟨hv, hsession, -⟩ := selectTerminalInState_versions hr
    exact ⟨hv, .session hsession⟩
  case reorderTerminals =>
    exact (reorderTerminals_versions hr).imp_right .ofTerminals
  case moveTerminal =>
    exact (moveTerminal_versions hr).imp_right .terminal
  case closeTerminal =>
    obtain ⟨hv, hsession, htab, hterminal⟩ := closeTerminal_versions hr
    exact ⟨hv, by simpa [ofClosedTerminal] using hsession, by simpa [ofClosedTerminal] using htab,
      by simpa [ofClosedTerminal] using hterminal⟩
  case closeTab =>
    obtain ⟨hv, hsession, htabs, hterminals⟩ := closeTab_versions fresh hr
    exact ⟨hv, by simpa [ofClosedTab] using hsession, htabs, hterminals⟩
  case archiveTerminal =>
    exact (archiveTerminal_versions hr).imp_right .terminal

namespace StateStore
variable {d : Draw} {s s' t : StateStore} {a : StoreAction} {as bs : List StoreAction}

/-- What an action makes of the store, and what it tells. -/
theorem act_versions {answer : Answer} (fresh : a.Fresh s) (h : s.act a = .ok (answer, s')) :
    s.catalog.Versions s'.catalog ∧ answer.Stored s'.catalog := by
  cases a with
  | operate d database operation =>
    rw [act] at h
    cases hm : mutate database (operation.perform d) s.catalog with
    | error e => simp [hm, Except.map] at h
    | ok p =>
      obtain ⟨rfl, rfl⟩ : p.1 = answer ∧ { s with catalog := p.2 } = s' := by
        simpa [hm, Except.map] using h
      exact StoreOperation.versions fresh (mutate_ok hm)
  | reconcileStartup d database serverEpoch available =>
    simp only [act, StateStore.reconcileStartup] at h
    split_ifs at h
    · obtain ⟨rfl, rfl⟩ : ({} : Answer) = answer ∧ s = s' := by simpa [Except.map] using h
      exact ⟨.refl _, .none⟩
    · cases database with
      | some error => cases h
      | none =>
        obtain ⟨rfl, rfl⟩ := by simpa only [Except.map, Except.ok.injEq, Prod.mk.injEq] using h
        exact ⟨.mapTerminals reconcileTerminal_bumps, .none⟩
  | reopen d database =>
    cases database with
    | some error => cases h
    | none =>
      obtain ⟨rfl, rfl⟩ := by simpa only [act, Except.ok.injEq, Prod.mk.injEq] using h
      exact ⟨ensureVisibleSession_versions fresh, .none⟩

theorem step_versions (fresh : a.Fresh s) (h : storeMachine.step s a = some s') :
    s.catalog.Versions s'.catalog := by
  simp only [storeMachine] at h
  cases ha : s.act a with
  | error e =>
    simp only [ha, Option.some.injEq] at h
    exact h ▸ .refl _
  | ok p =>
    simp only [ha, Option.some.injEq] at h
    exact h ▸ (act_versions fresh ha).1

theorem run_versions (run : storeMachine.Path StoreAction.Fresh s as t) :
    s.catalog.Versions t.catalog := by
  induction run with
  | nil s => exact .refl _
  | cons fresh step _ ih => exact (step_versions fresh step).trans ih

theorem openStore_keyed : (openStore d none).catalog.Keyed := by
  have empty : (⟨[], [], []⟩ : PersistedState).Keyed := ⟨.nil, .nil, .nil⟩
  have fresh : d.Fresh ⟨[], [], []⟩ := ⟨rfl, rfl, rfl⟩
  exact (ensureVisibleSession_versions fresh).keyed empty

/-- Every row that changes from one state of the store to a later one gets a larger revision, so two
sights of a row at one revision are equal. -/
structure Versioned (s t : StateStore) : Prop where
  sessions : Collections.Versioned AppSession.id AppSession.revision s.catalog.sessions t.catalog.sessions
  tabs : Collections.Versioned SessionTab.id SessionTab.revision s.catalog.tabs t.catalog.tabs
  terminals : Collections.Versioned MuxTerminal.id MuxTerminal.revision s.catalog.terminals
    t.catalog.terminals

/-- In every run of the store: from any state reached to any later one, rows that change get larger
revisions; an action that fails changes nothing; and an answer shows stored rows. -/
theorem revisions_version_content (run : storeMachine.Path StoreAction.Fresh (openStore d none) as s)
    (rest : storeMachine.Path StoreAction.Fresh s bs t) : Versioned s t ∧
      (∀ a e, t.act a = .error e → storeMachine.step t a = some t) ∧
      ∀ a answer t', a.Fresh t → t.act a = .ok (answer, t') →
        storeMachine.step t a = some t' ∧ answer.Stored t'.catalog := by
  have first : s.catalog.Keyed := (run_versions run).keyed openStore_keyed
  have later := run_versions rest
  have second : t.catalog.Keyed := later.keyed first
  refine ⟨⟨?_, ?_, ?_⟩, ?_, ?_⟩
  · exact later.sessions.versioned first.sessions second.sessions
  · exact later.tabs.versioned first.tabs second.tabs
  · exact later.terminals.versioned first.terminals second.terminals
  · intro a e h
    simp only [storeMachine, h]
  · intro a answer t' fresh h
    exact ⟨by simp only [storeMachine, h], (act_versions fresh h).2⟩

def openedStore : StateStore := openStore ⟨"t0", "a", "a", ""⟩ none

def renameActions : List StoreAction :=
  [.operate ⟨"t1", "b", "b", "b"⟩ none (.renameSession "ses-a" " Home "),
    .operate ⟨"t2", "c", "c", "c"⟩ none (.saveTabLayout "tab-a" "layout" (some 7))]

theorem renameActions_run : ∃ s, storeMachine.Path StoreAction.Fresh openedStore renameActions s ∧
    s.catalog.sessions.map (fun r => (r.title, r.revision)) = [("Home", 3)] ∧
    s.catalog.tabs.map (fun r => (r.layoutJson, r.revision)) = [(none, 1)] :=
  ⟨_, .cons ⟨rfl, rfl, rfl⟩ rfl (.cons ⟨rfl, rfl, rfl⟩ rfl (.nil _)), by decide +kernel,
    by decide +kernel⟩

theorem revisions_version_content_renamed : ∃ s,
    storeMachine.Path StoreAction.Fresh openedStore renameActions s ∧ Versioned openedStore s := by
  obtain ⟨s, run, -⟩ := renameActions_run
  exact ⟨s, run, (revisions_version_content (.nil _) run).1⟩

end StateStore
end PiDeck.Mux
