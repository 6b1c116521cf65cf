import Mathlib
import PiDeck.MuxStore.Selection

/-! Which operations keep the selection visible, decided on the copy before the operation and on
what the operation carries: a selection must name what is visible by its key in the store, and any
other operation must leave a tab to the session that it leaves shown. -/
namespace PiDeck.MuxStore
open PiDeck.Collections PiDeck.Transition
open PiDeck.Mux (MuxTerminal)

/-- Among the tabs is one of the session that is neither archived nor closing. -/
def HasTab (tabs : List SessionTab) (closing : IndexMap String ℕ) (sessionId : String) : Prop :=
  ∃ tab ∈ tabs, tab.sessionId = sessionId ∧ archived tab.archivedAt = false ∧
    closing.contains tab.id = false

namespace MuxSessionStore
variable {store next : MuxSessionStore} {id sessionId tabId : String}

/-- Selecting the session shows a visible one that has a tab, or nothing is visible. -/
def KeepsSession (store : MuxSessionStore) (id : String) : Prop :=
  match store.resolveSessionId id with
  | none => True
  | some resolved => store.activeSessionId = some resolved ∨ store.visibleSessionIds = [] ∨
      (resolved ∈ store.visibleSessionIds ∧ store.visibleTabIdsBySession resolved ≠ [])

/-- The identifier is itself listed among the tabs of the visible session of the tab it finds. -/
def KeepsTab (store : MuxSessionStore) (id : String) : Prop :=
  match (store.tabsById.get? id).or (findByLocalKey store.tabsById id) with
  | none => True
  | some tab => (archived tab.archivedAt || store.pendingTabCloses.contains tab.id) ∨
      store.visibleSessionIds = [] ∨
      (tab.sessionId ∈ store.visibleSessionIds ∧ id ∈ store.visibleTabIdsBySession tab.sessionId)

/-- The identifier is itself listed in the tab that shows the terminal it finds, and that tab in the
visible session of the terminal. -/
def KeepsTerminal (store : MuxSessionStore) (id : String) : Prop :=
  match (store.terminalsById.get? id).or (findByLocalKey store.terminalsById id) with
  | none => True
  | some terminal =>
    (archived terminal.archivedAt || store.pendingTerminalCloses.contains terminal.id) ∨
      ∀ tabId, store.tabIdForTerminal terminal = some tabId → store.visibleSessionIds = [] ∨
        (terminal.sessionId ∈ store.visibleSessionIds ∧
          tabId ∈ store.visibleTabIdsBySession terminal.sessionId ∧ id ∈ store.terminalIdsByTab tabId)

/-- The rows held leave the session shown a tab, once the hosts' missing windows are added. -/
def KeepsRows (store : MuxSessionStore) : Prop :=
  store.Shows (visibleIds store.sessionsById.rows)
    (HasTab (pushFallbacks store.tabsById.rows store.sessionsById.rows) store.pendingTabCloses)

def Keeps (store : MuxSessionStore) : StoreOperation → Prop
  | .mergeSnapshot sessions _ tabs hasTabs baseline =>
    store.Shows (visibleIds (store.mergedSessions sessions baseline).rows)
      (HasTab (store.mergedTabs sessions tabs hasTabs baseline).rows store.pendingTabCloses)
  | .replace sessions _ tabs => store.Shows (visibleIds sessions)
      (HasTab (pushFallbacks tabs sessions) store.pendingTabCloses)
  | .replaceSession session _ tabs => store.Shows (visibleIds (store.sessionsWith session))
      (HasTab (pushFallbacks (store.tabsWith session.id tabs) (store.sessionsWith session))
        store.pendingTabCloses)
  | .replaceMuxTerminal terminal => store.staleTerminal terminal ∨ store.KeepsRows
  | .replaceMuxTerminalIfNewer terminal => store.staleTerminal terminal ∨ store.KeepsRows
  | .replaceTab tab => store.staleTab tab ∨ store.Shows store.visibleSessionIds
      (HasTab (store.tabsById.set tab).rows store.pendingTabCloses)
  | .stageTabClose id =>
    canClose store.tabsById SessionTab.archivedAt store.pendingTabCloses id = false ∨
      store.Shows store.visibleSessionIds
        (HasTab store.tabsById.rows (store.pendingTabCloses.insert id store.nextCloseMutationId))
  | .rollbackTerminalClose id mutationId => store.pendingTerminalCloses.get? id ≠ some mutationId ∨
      store.Shows store.visibleSessionIds (HasTab store.tabsById.rows store.pendingTabCloses)
  | .rollbackTabClose id mutationId => store.pendingTabCloses.get? id ≠ some mutationId ∨
      store.Shows store.visibleSessionIds
        (HasTab store.tabsById.rows (store.pendingTabCloses.shiftRemove id))
  | .clearPendingCloses =>
    (store.pendingTerminalCloses.isEmpty && store.pendingTabCloses.isEmpty) ∨
      store.Shows store.visibleSessionIds (HasTab store.tabsById.rows .empty)
  | .selectSession id => store.KeepsSession id
  | .selectTab id => store.KeepsTab id
  | .selectMuxTerminal id => store.KeepsTerminal id
  | .apply (.session _ revision session) => revision ≤ store.knownSession session.id ∨
      store.Shows (visibleIds (store.sessionsById.set session).rows)
        (fun sessionId => store.visibleTabIdsBySession sessionId ≠ [])
  | .apply (.tab _ revision tab) => revision ≤ store.knownTab tab.id ∨
      store.Shows store.visibleSessionIds (HasTab (store.tabsById.set tab).rows store.pendingTabCloses)
  -- The others list the same sessions and the same tabs as before.
  | .stageTerminalClose _ | .confirmTerminalClose _ _ | .confirmTabClose _ _ | .setConnection _
  | .apply _ => True

/-! ### What reconciling is given -/

theorem indexTabs_ne_nil {tabs : List SessionTab} :
    store.indexTabs tabs sessionId ≠ [] ↔ HasTab tabs store.pendingTabCloses sessionId := by
  constructor
  · intro h
    obtain ⟨id, hid⟩ := List.exists_mem_of_ne_nil _ h
    rw [indexTabs, sortTabIds, List.mem_insertionSort] at hid
    obtain ⟨tab, htab, rfl⟩ := List.mem_map.mp hid
    obtain ⟨hmem, hshown⟩ := List.mem_filter.mp htab
    simp only [Bool.and_eq_true, Bool.not_eq_true', decide_eq_true_eq] at hshown
    exact ⟨tab, hmem, hshown.2, hshown.1.1, hshown.1.2⟩
  · rintro ⟨tab, hmem, hsession, harchived, hclosing⟩
    apply List.ne_nil_of_mem (a := tab.id)
    rw [indexTabs, sortTabIds, List.mem_insertionSort]
    refine List.mem_map.mpr ⟨tab, List.mem_filter.mpr ⟨hmem, ?_⟩, rfl⟩
    simp [harchived, hclosing, hsession]

/-- Closes of tabs that are archived or gone may be dropped. -/
theorem hasTab_retain {tabs : Tabs} {closing : IndexMap String ℕ} :
    HasTab tabs.rows (closing.retain (fun id _ =>
      (tabs.get? id).any (fun tab => !archived tab.archivedAt))) sessionId ↔
      HasTab tabs.rows closing sessionId := by
  refine exists_congr fun tab => and_congr_right fun hmem => and_congr_right fun _ =>
    and_congr_right fun harchived => ?_
  rw [Bool.eq_false_iff, Bool.eq_false_iff, ne_eq, ne_eq, not_iff_not, IndexMap.contains_iff,
    IndexMap.contains_iff, IndexMap.mem_keys, IndexMap.mem_keys]
  refine exists_congr fun mutationId => ?_
  rw [IndexMap.mem_retain, Table.get?_of_mem hmem]
  simp [harchived]

/-- The close of an archived tab may be dropped. -/
theorem hasTab_set {tabs : Tabs} {tab : SessionTab} {closing : IndexMap String ℕ}
    (h : archived tab.archivedAt = true) :
    HasTab (tabs.set tab).rows (closing.shiftRemove tab.id) sessionId ↔
      HasTab (tabs.set tab).rows closing sessionId := by
  refine exists_congr fun shown => and_congr_right fun hmem => and_congr_right fun _ =>
    and_congr_right fun harchived => ?_
  have hne : shown.id ≠ tab.id := by
    intro hid
    have hget := Table.get?_of_mem hmem
    rw [Table.get?_set, if_pos hid] at hget
    obtain rfl := Option.some.inj hget
    rw [h] at harchived
    cases harchived
  rw [Bool.eq_false_iff, Bool.eq_false_iff, ne_eq, ne_eq, not_iff_not, IndexMap.contains_iff,
    IndexMap.contains_iff, IndexMap.mem_keys, IndexMap.mem_keys]
  refine exists_congr fun mutationId => ?_
  rw [IndexMap.mem_shiftRemove]
  exact and_iff_left hne

/-- Rebuilding the tabs and then reconciling. -/
theorem rebuilt_selected_iff {tabs : List SessionTab} {closing : IndexMap String ℕ}
    (sessions : ∀ id ∈ next.visibleSessionIds, next.sessionsById.has id)
    (active : next.activeSessionId = store.activeSessionId) (rows : next.tabsById.rows = tabs)
    (pending : next.pendingTabCloses = closing) : next.rebuildVisibleTabs.reconcileSelection.Selected ↔
      store.Shows next.visibleSessionIds (HasTab tabs closing) := by
  refine reconciled_selected_iff (rebuildVisibleTabs_indexed sessions) active (fun sessionId => ?_)
  rw [← rows, ← pending]
  exact indexTabs_ne_nil

/-- The operation leaves good indexes, and the selection visible exactly on its condition. -/
def Settles (store : MuxSessionStore) (op : StoreOperation) : Prop :=
  (store.perform op).Indexed ∧ ((store.perform op).Selected ↔ store.Keeps op)

/-- An operation that rebuilds the tabs of `next` and reconciles. -/
theorem rebuilt_settles {op : StoreOperation}
    (performed : store.perform op = next.rebuildVisibleTabs.reconcileSelection)
    (sessions : ∀ id ∈ next.visibleSessionIds, next.sessionsById.has id)
    (active : next.activeSessionId = store.activeSessionId)
    (keeps : store.Keeps op ↔
      store.Shows next.visibleSessionIds (HasTab next.tabsById.rows next.pendingTabCloses)) :
    store.Settles op := by
  rw [Settles, performed, keeps]
  exact ⟨reconcileSelection_indexed (rebuildVisibleTabs_indexed sessions),
    rebuilt_selected_iff sessions active rfl rfl⟩

/-- An operation that is ignored: a visible selection stays. -/
theorem ignored_settles {op : StoreOperation} (indexed : store.Indexed) (selected : store.Selected)
    (same : store.perform op = store) (keeps : store.Keeps op) : store.Settles op := by
  rw [Settles, same]
  exact ⟨indexed, fun _ => keeps, fun _ => selected⟩

/-! ### Snapshots -/

theorem mergeSnapshot_settles {sessions : List AppSession} {terminals : List MuxTerminal}
    {tabs : List SessionTab} {hasTabs : Bool} {baseline : RevisionSnapshot} :
    store.Settles (.mergeSnapshot sessions terminals tabs hasTabs baseline) := by
  refine rebuilt_settles rfl (fun id => mem_rebuildVisibleSessions) rfl ?_
  exact Shows.congr fun sessionId => hasTab_retain.symm

theorem replace_settles {sessions : List AppSession} {terminals : List MuxTerminal}
    {tabs : List SessionTab} : store.Settles (.replace sessions terminals tabs) := by
  constructor
  · refine reconcileSelection_indexed (rebuildTerminalIndexes_indexed ?_ ?_)
    · exact fun id hid => Table.has_ofList.mpr (mem_visibleIds hid)
    · exact fun sessionId id hid => Table.has_ofList.mpr (mem_indexTabs hid)
  · refine reconciled_selected_iff (rebuildTerminalIndexes_indexed ?_ ?_) rfl ?_
    · exact fun id hid => Table.has_ofList.mpr (mem_visibleIds hid)
    · exact fun sessionId id hid => Table.has_ofList.mpr (mem_indexTabs hid)
    · exact fun sessionId => indexTabs_ne_nil

theorem replaceSession_settles {session : AppSession} {terminals : List MuxTerminal}
    {tabs : Option (List SessionTab)} : store.Settles (.replaceSession session terminals tabs) :=
  replace_settles

/-! ### Single rows and closes -/

theorem replaceMuxTerminal_settles (indexed : store.Indexed) (selected : store.Selected)
    {terminal : MuxTerminal} : store.Settles (.replaceMuxTerminal terminal) := by
  cases hstale : store.staleTerminal terminal with
  | true => exact ignored_settles indexed selected (if_pos hstale) (.inl hstale)
  | false =>
    have replaced : store.perform (.replaceMuxTerminal terminal) = _ := if_neg (by simp [hstale])
    rw [Settles, replaced]
    refine ⟨replace_settles.1, replace_settles.2.trans ?_⟩
    simp only [Keeps, hstale, Bool.false_eq_true, false_or]
    exact Iff.rfl

theorem replaceMuxTerminalIfNewer_settles (indexed : store.Indexed) (selected : store.Selected)
    {terminal : MuxTerminal} : store.Settles (.replaceMuxTerminalIfNewer terminal) := by
  by_cases holder : (store.terminalsById.get? terminal.id).any (fun current =>
      terminal.revision < current.revision) = true
  · refine ignored_settles indexed selected (if_pos holder) (.inl ?_)
    cases hheld : store.terminalsById.get? terminal.id with
    | none => simp [hheld] at holder
    | some current =>
      simp only [hheld, Option.any_some, decide_eq_true_eq] at holder
      simp [staleTerminal, hheld, holder]
  · have replaced : store.perform (.replaceMuxTerminalIfNewer terminal) =
        store.perform (.replaceMuxTerminal terminal) := if_neg holder
    rw [Settles, replaced]
    exact replaceMuxTerminal_settles indexed selected

theorem setTab_sessions (tab : SessionTab) (indexed : store.Indexed) :
    ∀ id ∈ (store.setTab tab).visibleSessionIds, (store.setTab tab).sessionsById.has id := by
  simp only [setTab]
  split_ifs
  · exact indexed.sessions
  · exact indexed.sessions

/-- The tabs listed once the row of one is set. -/
theorem setTab_hasTab {tab : SessionTab} :
    (store.setTab tab).rebuildVisibleTabs.visibleTabIdsBySession sessionId ≠ [] ↔
      HasTab (store.tabsById.set tab).rows store.pendingTabCloses sessionId := by
  refine Iff.trans indexTabs_ne_nil ?_
  rw [setTab]
  split_ifs with harchived
  · exact hasTab_set harchived
  · exact Iff.rfl

theorem setTab_shown {tab : SessionTab} :
    (store.setTab tab).activeSessionId = store.activeSessionId ∧
      (store.setTab tab).visibleSessionIds = store.visibleSessionIds := by
  rw [setTab]
  split_ifs
  · exact ⟨rfl, rfl⟩
  · exact ⟨rfl, rfl⟩

theorem replaceTab_settles (indexed : store.Indexed) (selected : store.Selected) {tab : SessionTab} :
    store.Settles (.replaceTab tab) := by
  cases hstale : store.staleTab tab with
  | true => exact ignored_settles indexed selected (if_pos hstale) (.inl hstale)
  | false =>
    have replaced : store.perform (.replaceTab tab) =
        (store.setTab tab).rebuildVisibleTabs.reconcileSelection := if_neg (by simp [hstale])
    rw [Settles, replaced]
    have rebuilt := rebuildVisibleTabs_indexed (setTab_sessions tab indexed)
    refine ⟨reconcileSelection_indexed rebuilt,
      (reconciled_selected_iff rebuilt setTab_shown.1 (fun sessionId => setTab_hasTab)).trans ?_⟩
    rw [Keeps, hstale]
    simp only [Bool.false_eq_true, false_or]
    rw [show (store.setTab tab).rebuildVisibleTabs.visibleSessionIds = store.visibleSessionIds
      from setTab_shown.2]

/-- Reconciling after a change that lists the same sessions and tabs. -/
theorem reconciled_selected (indexed : next.Indexed) (selected : store.Selected)
    (active : next.activeSessionId = store.activeSessionId)
    (sessions : next.visibleSessionIds = store.visibleSessionIds)
    (tabs : next.visibleTabIdsBySession = store.visibleTabIdsBySession) :
    next.reconcileSelection.Selected := by
  rw [reconciled_selected_iff indexed active (fun sessionId => by rw [tabs]), sessions]
  exact selected.shows

/-- A change of what the selection and the indexes do not read. -/
theorem Selected.of_same (selected : store.Selected)
    (active : next.activeSessionId = store.activeSessionId ∧ next.activeTabId = store.activeTabId ∧
      next.activeMuxTerminalId = store.activeMuxTerminalId)
    (rows : next.sessionsById = store.sessionsById ∧ next.tabsById = store.tabsById ∧
      next.terminalsById = store.terminalsById)
    (lists : next.visibleSessionIds = store.visibleSessionIds ∧
      next.visibleTabIdsBySession = store.visibleTabIdsBySession ∧
      next.terminalIdsByTab = store.terminalIdsByTab) : next.Selected := by
  rw [Selected, active.1, active.2.1, active.2.2, rows.1, rows.2.1, rows.2.2, lists.1, lists.2.1,
    lists.2.2]
  exact selected

theorem stageTerminalClose_settles (indexed : store.Indexed) (selected : store.Selected) :
    store.Settles (.stageTerminalClose id) := by
  by_cases hclose :
      canClose store.terminalsById MuxTerminal.archivedAt store.pendingTerminalCloses id = true
  · have staged : store.perform (.stageTerminalClose id) = { store with
        nextCloseMutationId := store.nextCloseMutationId + 1
        pendingTerminalCloses := store.pendingTerminalCloses.insert id
          store.nextCloseMutationId }.rebuildTerminalIndexes.reconcileSelection := by
      simp only [perform, stageTerminalClose, hclose, Bool.not_true, Bool.false_eq_true, if_false]
    have rebuilt : { store with
        nextCloseMutationId := store.nextCloseMutationId + 1
        pendingTerminalCloses := store.pendingTerminalCloses.insert id
          store.nextCloseMutationId }.rebuildTerminalIndexes.Indexed :=
      rebuildTerminalIndexes_indexed indexed.sessions indexed.tabs
    rw [Settles, staged]
    exact ⟨reconcileSelection_indexed rebuilt, fun _ => trivial,
      fun _ => reconciled_selected rebuilt selected rfl rfl rfl⟩
  · refine ignored_settles indexed selected ?_ trivial
    simp [perform, stageTerminalClose, hclose]

theorem stageTabClose_settles (indexed : store.Indexed) (selected : store.Selected) :
    store.Settles (.stageTabClose id) := by
  cases hclose : canClose store.tabsById SessionTab.archivedAt store.pendingTabCloses id with
  | true =>
    have staged : store.perform (.stageTabClose id) = { store with
        nextCloseMutationId := store.nextCloseMutationId + 1
        pendingTabCloses := store.pendingTabCloses.insert id
          store.nextCloseMutationId }.rebuildVisibleTabs.reconcileSelection := by
      simp only [perform, stageTabClose, hclose, Bool.not_true, Bool.false_eq_true, if_false]
    refine rebuilt_settles staged indexed.sessions rfl ?_
    simp only [Keeps, hclose, Bool.true_eq_false, false_or]
  | false =>
    refine ignored_settles indexed selected ?_ (.inl hclose)
    simp [perform, stageTabClose, hclose]

theorem confirmTerminalClose_settles (indexed : store.Indexed) (selected : store.Selected)
    {mutationId : ℕ} : store.Settles (.confirmTerminalClose id mutationId) := by
  simp only [Settles, perform, confirmTerminalClose]
  split_ifs
  · exact ⟨⟨indexed.sessions, indexed.tabs, indexed.terminals⟩, fun _ => trivial,
      fun _ => selected.of_same ⟨rfl, rfl, rfl⟩ ⟨rfl, rfl, rfl⟩ ⟨rfl, rfl, rfl⟩⟩
  · exact ⟨indexed, fun _ => trivial, fun _ => selected⟩

theorem confirmTabClose_settles (indexed : store.Indexed) (selected : store.Selected)
    {mutationId : ℕ} : store.Settles (.confirmTabClose id mutationId) := by
  simp only [Settles, perform, confirmTabClose]
  split_ifs
  · exact ⟨⟨indexed.sessions, indexed.tabs, indexed.terminals⟩, fun _ => trivial,
      fun _ => selected.of_same ⟨rfl, rfl, rfl⟩ ⟨rfl, rfl, rfl⟩ ⟨rfl, rfl, rfl⟩⟩
  · exact ⟨indexed, fun _ => trivial, fun _ => selected⟩

theorem rollbackTerminalClose_settles (indexed : store.Indexed) (selected : store.Selected)
    {mutationId : ℕ} : store.Settles (.rollbackTerminalClose id mutationId) := by
  by_cases hpending : store.pendingTerminalCloses.get? id = some mutationId
  · have rolled : store.perform (.rollbackTerminalClose id mutationId) = { store with
        pendingTerminalCloses :=
          store.pendingTerminalCloses.shiftRemove id }.rebuildVisibleTabs.reconcileSelection :=
      if_pos hpending
    refine rebuilt_settles rolled indexed.sessions rfl ?_
    simp only [Keeps, hpending, ne_eq, not_true_eq_false, false_or]
  · exact ignored_settles indexed selected (if_neg hpending) (.inl hpending)

theorem rollbackTabClose_settles (indexed : store.Indexed) (selected : store.Selected)
    {mutationId : ℕ} : store.Settles (.rollbackTabClose id mutationId) := by
  by_cases hpending : store.pendingTabCloses.get? id = some mutationId
  · have rolled : store.perform (.rollbackTabClose id mutationId) = { store with
        pendingTabCloses :=
          store.pendingTabCloses.shiftRemove id }.rebuildVisibleTabs.reconcileSelection :=
      if_pos hpending
    refine rebuilt_settles rolled indexed.sessions rfl ?_
    simp only [Keeps, hpending, ne_eq, not_true_eq_false, false_or]
  · exact ignored_settles indexed selected (if_neg hpending) (.inl hpending)

theorem clearPendingCloses_settles (indexed : store.Indexed) (selected : store.Selected) :
    store.Settles .clearPendingCloses := by
  by_cases hempty : (store.pendingTerminalCloses.isEmpty && store.pendingTabCloses.isEmpty) = true
  · exact ignored_settles indexed selected (if_pos hempty) (.inl hempty)
  · have cleared : store.perform .clearPendingCloses = { store with
        pendingTerminalCloses := .empty
        pendingTabCloses := .empty }.rebuildVisibleTabs.reconcileSelection := if_neg hempty
    refine rebuilt_settles cleared indexed.sessions rfl ?_
    simp only [Keeps, hempty, Bool.false_eq_true, false_or]

/-! ### Events -/

theorem Indexed.revise (indexed : store.Indexed) (revisions : RevisionSnapshot) :
    { store with revisions := revisions }.Indexed :=
  ⟨indexed.sessions, indexed.tabs, indexed.terminals⟩

/-- A session event rewrites the sessions and moves the tab, no list of tabs. -/
theorem applySession_shape (store : MuxSessionStore) (session : AppSession) : ∃ tabId terminalId,
    store.applySession session = { store with
      sessionsById := store.sessionsById.set session
      visibleSessionIds := visibleIds (store.sessionsById.set session).rows
      activeTabId := tabId
      activeMuxTerminalId := terminalId } := by
  by_cases hactive : store.activeSessionId = some session.id
  · exact ⟨_, _, if_pos hactive⟩
  · exact ⟨_, _, if_neg hactive⟩

theorem applySession_indexed {session : AppSession} (indexed : store.Indexed) :
    (store.applySession session).Indexed := by
  obtain ⟨tabId, terminalId, placed⟩ := applySession_shape store session
  rw [placed]
  exact ⟨fun id hid => Table.has_iff.mpr (mem_visibleIds hid), indexed.tabs, indexed.terminals⟩

theorem applySession_selected_iff {session : AppSession} (indexed : store.Indexed) :
    (store.applySession session).reconcileSelection.Selected ↔
      store.Shows (visibleIds (store.sessionsById.set session).rows)
        (fun sessionId => store.visibleTabIdsBySession sessionId ≠ []) := by
  have hindexed : (store.applySession session).Indexed := applySession_indexed indexed
  obtain ⟨tabId, terminalId, placed⟩ := applySession_shape store session
  rw [placed] at hindexed ⊢
  exact reconciled_selected_iff hindexed rfl (fun sessionId => Iff.rfl)

theorem applySession_settles (indexed : store.Indexed) (selected : store.Selected)
    {tag : SessionEventTag} {revision : ℕ} {session : AppSession} :
    store.Settles (.apply (.session tag revision session)) := by
  by_cases hknown : revision ≤ store.knownSession session.id
  · exact ignored_settles indexed selected (if_pos hknown) (.inl hknown)
  · have applied : store.perform (.apply (.session tag revision session)) =
        ({ store with revisions := { store.revisions with
          sessions := Function.update store.revisions.sessions session.id revision } }.applySession
            session).reconcileSelection := if_neg hknown
    have revised := indexed.revise { store.revisions with
      sessions := Function.update store.revisions.sessions session.id revision }
    rw [Settles, applied]
    refine ⟨reconcileSelection_indexed (applySession_indexed revised),
      (applySession_selected_iff revised).trans ?_⟩
    simp only [Keeps, hknown, false_or]
    exact Iff.rfl

theorem applyTab_shape (store : MuxSessionStore) (tab : SessionTab) : ∃ terminalId, store.applyTab tab =
    { (store.setTab tab).rebuildVisibleTabs with activeMuxTerminalId := terminalId } := by
  rw [applyTab]
  dsimp only
  split_ifs
  · exact ⟨_, rfl⟩
  · exact ⟨_, rfl⟩

theorem applyTab_indexed {tab : SessionTab} (indexed : store.Indexed) :
    (store.applyTab tab).Indexed := by
  obtain ⟨terminalId, placed⟩ := applyTab_shape store tab
  have rebuilt := rebuildVisibleTabs_indexed (setTab_sessions tab indexed)
  rw [placed]
  exact ⟨rebuilt.sessions, rebuilt.tabs, rebuilt.terminals⟩

theorem applyTab_selected_iff {tab : SessionTab} (indexed : store.Indexed) :
    (store.applyTab tab).reconcileSelection.Selected ↔ store.Shows store.visibleSessionIds
      (HasTab (store.tabsById.set tab).rows store.pendingTabCloses) := by
  have hindexed : (store.applyTab tab).Indexed := applyTab_indexed indexed
  obtain ⟨terminalId, placed⟩ := applyTab_shape store tab
  rw [placed] at hindexed ⊢
  refine Iff.trans (reconciled_selected_iff hindexed setTab_shown.1 (fun sessionId => setTab_hasTab)) ?_
  rw [show (store.setTab tab).rebuildVisibleTabs.visibleSessionIds = store.visibleSessionIds
    from setTab_shown.2]

theorem applyTab_settles (indexed : store.Indexed) (selected : store.Selected)
    {tag : TabEventTag} {revision : ℕ} {tab : SessionTab} :
    store.Settles (.apply (.tab tag revision tab)) := by
  by_cases hknown : revision ≤ store.knownTab tab.id
  · exact ignored_settles indexed selected (if_pos hknown) (.inl hknown)
  · have applied : store.perform (.apply (.tab tag revision tab)) =
        ({ store with revisions := { store.revisions with
          tabs := Function.update store.revisions.tabs tab.id revision } }.applyTab
            tab).reconcileSelection := if_neg hknown
    have revised := indexed.revise { store.revisions with
      tabs := Function.update store.revisions.tabs tab.id revision }
    rw [Settles, applied]
    refine ⟨reconcileSelection_indexed (applyTab_indexed revised),
      (applyTab_selected_iff revised).trans ?_⟩
    simp only [Keeps, hknown, false_or]
    exact Iff.rfl

/-- A terminal that changes moves no session and no tab. -/
structure SameLists (store next : MuxSessionStore) : Prop where
  indexed : next.Indexed
  active : next.activeSessionId = store.activeSessionId
  sessions : next.visibleSessionIds = store.visibleSessionIds
  tabs : next.visibleTabIdsBySession = store.visibleTabIdsBySession

theorem upsertTerminal_lists (terminal : MuxTerminal) (indexed : store.Indexed) :
    store.SameLists (store.upsertTerminal terminal) := by
  have hindexed : (store.upsertTerminal terminal).Indexed := upsertTerminal_indexed indexed
  simp only [upsertTerminal] at hindexed ⊢
  split_ifs at hindexed ⊢
  · exact ⟨hindexed, rfl, rfl, rfl⟩
  · exact ⟨hindexed, rfl, rfl, rfl⟩

theorem applyTerminal_lists (terminal : MuxTerminal) (indexed : store.Indexed) :
    store.SameLists (store.applyTerminal terminal) := by
  rw [applyTerminal]
  split_ifs
  · exact ⟨indexed, rfl, rfl, rfl⟩
  · exact upsertTerminal_lists terminal indexed

/-- An event of a terminal. -/
theorem terminalEvent_settles {event : MuxEvent} (selected : store.Selected)
    (keeps : store.Keeps (.apply event)) (lists : store.SameLists next)
    (applied : store.apply event = next.reconcileSelection) : store.Settles (.apply event) := by
  have performed : store.perform (.apply event) = next.reconcileSelection := applied
  rw [Settles, performed]
  exact ⟨reconcileSelection_indexed lists.indexed, fun _ => keeps,
    fun _ => reconciled_selected lists.indexed selected lists.active lists.sessions lists.tabs⟩

theorem apply_settles (indexed : store.Indexed) (selected : store.Selected) {event : MuxEvent} :
    store.Settles (.apply event) := by
  cases event with
  | session tag revision session => exact applySession_settles indexed selected
  | tab tag revision tab => exact applyTab_settles indexed selected
  | terminal tag revision muxTerminalId muxTerminal =>
    by_cases hknown : revision ≤ store.knownTerminal muxTerminalId
    · exact ignored_settles indexed selected (if_pos hknown) trivial
    · have lists := applyTerminal_lists muxTerminal (indexed.revise { store.revisions with
        terminals := Function.update store.revisions.terminals muxTerminalId revision })
      exact terminalEvent_settles selected trivial
        ⟨lists.indexed, lists.active, lists.sessions, lists.tabs⟩ (if_neg hknown)
  | outputChanged revision occurredAt muxTerminalId output =>
    by_cases hknown : revision ≤ store.knownTerminal muxTerminalId
    · exact ignored_settles indexed selected (if_pos hknown) trivial
    · have revised := indexed.revise { store.revisions with
        terminals := Function.update store.revisions.terminals muxTerminalId revision }
      cases hheld : store.terminalsById.get? muxTerminalId with
      | none =>
        refine terminalEvent_settles selected trivial ⟨revised, rfl, rfl, rfl⟩ ?_
        simp only [apply, hknown, if_false, hheld]
      | some terminal =>
        have lists := upsertTerminal_lists { terminal with
          output := output, revision := revision, updatedAt := occurredAt } revised
        refine terminalEvent_settles selected trivial
          ⟨lists.indexed, lists.active, lists.sessions, lists.tabs⟩ ?_
        simp only [apply, hknown, if_false, hheld]
  | terminalArchived revision occurredAt muxTerminalId =>
    by_cases hknown : revision ≤ store.knownTerminal muxTerminalId
    · exact ignored_settles indexed selected (if_pos hknown) trivial
    · have revised := indexed.revise { store.revisions with
        terminals := Function.update store.revisions.terminals muxTerminalId revision }
      cases hheld : store.terminalsById.get? muxTerminalId with
      | none =>
        refine terminalEvent_settles selected trivial ⟨revised, rfl, rfl, rfl⟩ ?_
        simp only [apply, hknown, if_false, hheld]
      | some terminal =>
        have cleared : { store with
            revisions := { store.revisions with
              terminals := Function.update store.revisions.terminals muxTerminalId revision }
            pendingTerminalCloses :=
              store.pendingTerminalCloses.shiftRemove muxTerminalId }.Indexed :=
          ⟨revised.sessions, revised.tabs, revised.terminals⟩
        have lists := upsertTerminal_lists { terminal with
          archivedAt := some occurredAt, revision := revision, updatedAt := occurredAt } cleared
        refine terminalEvent_settles selected trivial
          ⟨lists.indexed, lists.active, lists.sessions, lists.tabs⟩ ?_
        simp only [apply, hknown, if_false, hheld]

/-! ### Selections -/

theorem selectSession_settles (indexed : store.Indexed) (selected : store.Selected) :
    store.Settles (.selectSession id) := by
  simp only [Settles, perform, selectSession, Keeps, KeepsSession]
  cases hresolved : store.resolveSessionId id with
  | none => exact ⟨indexed, fun _ => trivial, fun _ => selected⟩
  | some resolved =>
    by_cases hactive : store.activeSessionId = some resolved
    · simp only [hactive, if_true]
      exact ⟨indexed, fun _ => .inl trivial, fun _ => selected⟩
    · simp only [hactive, if_false, false_or]
      refine ⟨⟨indexed.sessions, indexed.tabs, indexed.terminals⟩, ?_, ?_⟩
      · intro hselected
        by_cases hvisible : store.visibleSessionIds = []
        · exact .inl hvisible
        · obtain ⟨sessionId, tabId, ⟨hsession, hmem, -⟩, ⟨-, htab, -⟩, -⟩ := hselected hvisible
          obtain rfl : resolved = sessionId := Option.some.inj hsession
          exact .inr ⟨hmem, List.ne_nil_of_mem htab⟩
      · rintro (hvisible | ⟨hmem, htabs⟩) hnonempty
        · exact absurd hvisible hnonempty
        · obtain ⟨tabId, htabId⟩ := preferred_isSome htabs
          have htab : tabId ∈ store.visibleTabIdsBySession resolved := preferred_mem htabId
          refine ⟨resolved, tabId, ⟨rfl, hmem, indexed.sessions _ hmem⟩,
            ⟨htabId, htab, indexed.tabs _ _ htab⟩, ?_⟩
          intro terminalId hterminal
          have hchosen : store.selectedTerminalForTab tabId = some terminalId := by
            change (store.selectedTabForSession resolved).bind store.selectedTerminalForTab =
              some terminalId at hterminal
            rwa [selectedTabForSession, htabId, Option.bind_some] at hterminal
          exact ⟨preferred_mem hchosen, indexed.terminals _ _ (preferred_mem hchosen)⟩

theorem selectTab_settles (indexed : store.Indexed) (selected : store.Selected) :
    store.Settles (.selectTab id) := by
  simp only [Settles, perform, selectTab, Keeps, KeepsTab]
  cases (store.tabsById.get? id).or (findByLocalKey store.tabsById id) with
  | none => exact ⟨indexed, fun _ => trivial, fun _ => selected⟩
  | some tab =>
    by_cases hclosed : (archived tab.archivedAt || store.pendingTabCloses.contains tab.id) = true
    · simp only [hclosed, if_true, true_or, iff_true]
      exact ⟨indexed, selected⟩
    · simp only [hclosed, Bool.false_eq_true, if_false, false_or]
      refine ⟨⟨indexed.sessions, indexed.tabs, indexed.terminals⟩, ?_, ?_⟩
      · intro hselected
        by_cases hvisible : store.visibleSessionIds = []
        · exact .inl hvisible
        · obtain ⟨sessionId, tabId, ⟨hsession, hmem, -⟩, ⟨hactive, htab, -⟩, -⟩ := hselected hvisible
          obtain rfl : tab.sessionId = sessionId := Option.some.inj hsession
          obtain rfl : id = tabId := Option.some.inj hactive
          exact .inr ⟨hmem, htab⟩
      · rintro (hvisible | ⟨hmem, htab⟩) hnonempty
        · exact absurd hvisible hnonempty
        · refine ⟨tab.sessionId, id, ⟨rfl, hmem, indexed.sessions _ hmem⟩,
            ⟨rfl, htab, indexed.tabs _ _ htab⟩, ?_⟩
          intro terminalId hterminal
          have hchosen : store.selectedTerminalForTab id = some terminalId := hterminal
          exact ⟨preferred_mem hchosen, indexed.terminals _ _ (preferred_mem hchosen)⟩

theorem selectMuxTerminal_settles (indexed : store.Indexed) (selected : store.Selected) :
    store.Settles (.selectMuxTerminal id) := by
  simp only [Settles, perform, selectMuxTerminal, Keeps, KeepsTerminal]
  cases (store.terminalsById.get? id).or (findByLocalKey store.terminalsById id) with
  | none => exact ⟨indexed, fun _ => trivial, fun _ => selected⟩
  | some terminal =>
    by_cases hclosed : (archived terminal.archivedAt ||
        store.pendingTerminalCloses.contains terminal.id) = true
    · simp only [hclosed, if_true, true_or, iff_true]
      exact ⟨indexed, selected⟩
    · simp only [hclosed, Bool.false_eq_true, if_false, false_or]
      cases htabId : store.tabIdForTerminal terminal with
      | none => exact ⟨indexed, fun _ tabId htab => absurd htab (by simp), fun _ => selected⟩
      | some shown =>
        refine ⟨⟨indexed.sessions, indexed.tabs, indexed.terminals⟩, ?_, ?_⟩
        · rintro hselected tabId htab
          obtain rfl : shown = tabId := Option.some.inj htab
          by_cases hvisible : store.visibleSessionIds = []
          · exact .inl hvisible
          · obtain ⟨sessionId, tabId, ⟨hsession, hmem, -⟩, ⟨hactive, htab, -⟩, hterminal⟩ :=
              hselected hvisible
            obtain rfl : terminal.sessionId = sessionId := Option.some.inj hsession
            obtain rfl : shown = tabId := Option.some.inj hactive
            exact .inr ⟨hmem, htab, (hterminal id rfl).1⟩
        · intro hkeeps hnonempty
          obtain hvisible | ⟨hmem, htab, hterminal⟩ := hkeeps shown rfl
          · exact absurd hvisible hnonempty
          · refine ⟨terminal.sessionId, shown, ⟨rfl, hmem, indexed.sessions _ hmem⟩,
              ⟨rfl, htab, indexed.tabs _ _ htab⟩, ?_⟩
            intro terminalId hactive
            obtain rfl : id = terminalId := Option.some.inj hactive
            exact ⟨hterminal, indexed.terminals _ _ hterminal⟩

/-! ### Runs -/

theorem settles (indexed : store.Indexed) (selected : store.Selected) (op : StoreOperation) :
    store.Settles op := by
  cases op with
  | mergeSnapshot => exact mergeSnapshot_settles
  | replace => exact replace_settles
  | replaceSession => exact replaceSession_settles
  | replaceMuxTerminal => exact replaceMuxTerminal_settles indexed selected
  | replaceMuxTerminalIfNewer => exact replaceMuxTerminalIfNewer_settles indexed selected
  | replaceTab => exact replaceTab_settles indexed selected
  | stageTerminalClose => exact stageTerminalClose_settles indexed selected
  | stageTabClose => exact stageTabClose_settles indexed selected
  | confirmTerminalClose => exact confirmTerminalClose_settles indexed selected
  | confirmTabClose => exact confirmTabClose_settles indexed selected
  | rollbackTerminalClose => exact rollbackTerminalClose_settles indexed selected
  | rollbackTabClose => exact rollbackTabClose_settles indexed selected
  | clearPendingCloses => exact clearPendingCloses_settles indexed selected
  | setConnection => exact ⟨⟨indexed.sessions, indexed.tabs, indexed.terminals⟩, fun _ => trivial,
      fun _ => selected.of_same ⟨rfl, rfl, rfl⟩ ⟨rfl, rfl, rfl⟩ ⟨rfl, rfl, rfl⟩⟩
  | selectSession => exact selectSession_settles indexed selected
  | selectTab => exact selectTab_settles indexed selected
  | selectMuxTerminal => exact selectMuxTerminal_settles indexed selected
  | apply => exact apply_settles indexed selected

theorem initial_indexed : initial.Indexed := by
  refine ⟨?_, ?_, ?_⟩
  · intro id hid
    cases hid
  · intro sessionId id hid
    cases hid
  · intro tabId id hid
    cases hid

/-- The runs whose operations meet the condition are the runs that show a visible selection in every
state they reach. -/
theorem selection_visible_iff (operations : List StoreOperation) (store : MuxSessionStore) :
    machine.Path Keeps initial operations store ↔ machine.Run initial operations store ∧
      ∀ done reached, done <+: operations → machine.Run initial done reached → reached.Selected := by
  refine Machine.Path.iff_reached (I := Indexed) (P := Selected) ?_ ?_ initial_indexed
    (fun hvisible => absurd rfl hvisible)
  · rintro s op t hindexed hselected hstep
    obtain rfl := Option.some.inj hstep
    exact (settles hindexed hselected op).1
  · rintro s op t hindexed hselected hstep
    obtain rfl := Option.some.inj hstep
    exact (settles hindexed hselected op).2

/-- A session of a host, and its window. -/
def hostSession : AppSession where
  id := "ses-A--1"
  title := "Session"
  position := 0
  activeTabId := some "tab-A--1"
  activeMuxTerminalId := none
  revision := some 1
  createdAt := "2026-01-01"
  updatedAt := "2026-01-01"
  archivedAt := none

def hostTab : SessionTab where
  id := "tab-A--1"
  sessionId := "ses-A--1"
  title := "Window 1"
  position := 0
  activeMuxTerminalId := none
  layoutJson := none
  revision := some 1
  createdAt := "2026-01-01"
  updatedAt := "2026-01-01"
  archivedAt := none

/-- The window is selected by the identifier that its host uses. -/
def localSelection : MuxSessionStore :=
  (initial.mergeSnapshot [hostSession] [] [hostTab] true
    ⟨fun _ => 0, fun _ => 0, fun _ => 0⟩).selectTab "tab-1"

theorem local_selection_dangles :
    ¬ ∀ operations store, machine.Run initial operations store → store.Selected := by
  intro h
  have hrun : machine.Run initial [.mergeSnapshot [hostSession] [] [hostTab] true
      ⟨fun _ => 0, fun _ => 0, fun _ => 0⟩, .selectTab "tab-1"] localSelection :=
    .cons trivial rfl (.cons trivial rfl (.nil _))
  obtain ⟨sessionId, tabId, ⟨hsession, -, -⟩, ⟨htab, hlisted, -⟩, -⟩ :=
    h _ _ hrun (by decide +kernel)
  obtain rfl : "ses-A--1" = sessionId :=
    Option.some.inj ((by decide +kernel : localSelection.activeSessionId = some "ses-A--1").symm.trans hsession)
  obtain rfl : "tab-1" = tabId :=
    Option.some.inj ((by decide +kernel : localSelection.activeTabId = some "tab-1").symm.trans htab)
  exact absurd hlisted (by decide +kernel)

end MuxSessionStore
end PiDeck.MuxStore
