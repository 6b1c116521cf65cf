import Mathlib
import PiDeck.MuxStore.Operations

/-! What the indexes list: the rows of the store that are not archived, and each terminal under its
own session and tab. -/
namespace PiDeck.MuxStore
open PiDeck.Collections
open PiDeck.Mux (MuxTerminal)

namespace MuxSessionStore
variable {store : MuxSessionStore} {id sessionId tabId : String}

/-- Every identifier that is listed is that of a row that is not archived. -/
structure Listed (store : MuxSessionStore) : Prop where
  sessions : ∀ id ∈ store.visibleSessionIds, ∃ session ∈ store.sessionsById.rows,
    session.id = id ∧ archived session.archivedAt = false
  tabs : ∀ sessionId, ∀ id ∈ store.visibleTabIdsBySession sessionId, ∃ tab ∈ store.tabsById.rows,
    tab.id = id ∧ archived tab.archivedAt = false
  bySession : ∀ sessionId, ∀ id ∈ store.terminalIdsBySession sessionId,
    ∃ terminal ∈ store.terminalsById.rows, terminal.id = id ∧
      archived terminal.archivedAt = false ∧ terminal.sessionId = sessionId
  byTab : ∀ tabId, ∀ id ∈ store.terminalIdsByTab tabId,
    ∃ terminal ∈ store.terminalsById.rows, terminal.id = id ∧
      archived terminal.archivedAt = false ∧ store.tabIdForTerminal terminal = some tabId

theorem initial_listed : initial.Listed := by
  refine ⟨?_, ?_, ?_, ?_⟩
  · intro id hid
    cases hid
  · intro sessionId id hid
    cases hid
  · intro sessionId id hid
    cases hid
  · intro tabId id hid
    cases hid

theorem mem_visibleIds_unarchived {sessions : List AppSession} (h : id ∈ visibleIds sessions) :
    ∃ session ∈ sessions, session.id = id ∧ archived session.archivedAt = false := by
  obtain ⟨session, hsession, rfl⟩ := List.mem_map.mp h
  rw [List.mem_insertionSort] at hsession
  obtain ⟨hmem, hvisible⟩ := List.mem_filter.mp hsession
  exact ⟨session, hmem, rfl, by simpa using hvisible⟩

theorem mem_indexTabs_unarchived {tabs : List SessionTab} (h : id ∈ store.indexTabs tabs sessionId) :
    ∃ tab ∈ tabs, tab.id = id ∧ archived tab.archivedAt = false := by
  rw [indexTabs, sortTabIds, List.mem_insertionSort] at h
  obtain ⟨tab, htab, rfl⟩ := List.mem_map.mp h
  obtain ⟨hmem, hshown⟩ := List.mem_filter.mp htab
  simp only [Bool.and_eq_true, Bool.not_eq_true'] at hshown
  exact ⟨tab, hmem, rfl, hshown.1.1⟩

/-- A terminal that is shown is not archived, and its tab shows it. -/
theorem shownIn_some {terminal : MuxTerminal} (h : store.shownIn terminal = some tabId) :
    archived terminal.archivedAt = false ∧ store.tabIdForTerminal terminal = some tabId := by
  rw [shownIn] at h
  split_ifs at h with hhidden
  simp only [Bool.or_eq_true, not_or, Bool.not_eq_true] at hhidden
  obtain ⟨htab, -⟩ := Option.filter_eq_some_iff.mp h
  exact ⟨hhidden.1, htab⟩

theorem rebuildTerminalIndexes_listed
    (hsessions : ∀ id ∈ store.visibleSessionIds, ∃ session ∈ store.sessionsById.rows,
      session.id = id ∧ archived session.archivedAt = false)
    (htabs : ∀ sessionId, ∀ id ∈ store.visibleTabIdsBySession sessionId,
      ∃ tab ∈ store.tabsById.rows, tab.id = id ∧ archived tab.archivedAt = false) :
    store.rebuildTerminalIndexes.Listed := by
  refine ⟨hsessions, htabs, fun sessionId id hid => ?_, fun tabId id hid => ?_⟩
  · simp only [rebuildTerminalIndexes, sortTerminalIds, List.mem_insertionSort] at hid
    obtain ⟨terminal, hterminal, rfl⟩ := List.mem_map.mp hid
    obtain ⟨hmem, hshown⟩ := List.mem_filter.mp hterminal
    simp only [Bool.and_eq_true, decide_eq_true_eq] at hshown
    obtain ⟨tabId, htab⟩ := Option.isSome_iff_exists.mp hshown.1
    exact ⟨terminal, hmem, rfl, (shownIn_some htab).1, hshown.2⟩
  · simp only [rebuildTerminalIndexes, sortTerminalIds, List.mem_insertionSort] at hid
    obtain ⟨terminal, hterminal, rfl⟩ := List.mem_map.mp hid
    obtain ⟨hmem, hshown⟩ := List.mem_filter.mp hterminal
    obtain ⟨harchived, htab⟩ := shownIn_some (of_decide_eq_true hshown)
    exact ⟨terminal, hmem, rfl, harchived, htab⟩

theorem rebuildVisibleTabs_listed
    (hsessions : ∀ id ∈ store.visibleSessionIds, ∃ session ∈ store.sessionsById.rows,
      session.id = id ∧ archived session.archivedAt = false) :
    store.rebuildVisibleTabs.Listed :=
  rebuildTerminalIndexes_listed hsessions fun _ _ hid => mem_indexTabs_unarchived hid

theorem reconcileSelection_listed (h : store.Listed) : store.reconcileSelection.Listed := by
  rw [reconcileSelection]
  split
  · exact ⟨h.sessions, h.tabs, h.bySession, h.byTab⟩
  · exact ⟨h.sessions, h.tabs, h.bySession, h.byTab⟩

theorem applySession_listed (h : store.Listed) (session : AppSession) :
    (store.applySession session).Listed := by
  have hrebuilt :
      { store with sessionsById := store.sessionsById.set session }.rebuildVisibleSessions.Listed :=
    ⟨fun id hid => mem_visibleIds_unarchived hid, h.tabs, h.bySession, h.byTab⟩
  rw [applySession]
  split
  · exact ⟨hrebuilt.sessions, hrebuilt.tabs, hrebuilt.bySession, hrebuilt.byTab⟩
  · exact hrebuilt

theorem applyTab_listed (h : store.Listed) (tab : SessionTab) : (store.applyTab tab).Listed := by
  have hrebuilt : (store.setTab tab).rebuildVisibleTabs.Listed := by
    refine rebuildVisibleTabs_listed ?_
    rw [setTab]
    split
    · exact h.sessions
    · exact h.sessions
  rw [applyTab]
  split
  · exact ⟨hrebuilt.sessions, hrebuilt.tabs, hrebuilt.bySession, hrebuilt.byTab⟩
  · exact hrebuilt

/-! ### One terminal -/

theorem mem_removeTerminal_bySession {terminal : MuxTerminal} {indexes : TerminalIndexes}
    (h : id ∈ (store.removeTerminal terminal indexes).bySession sessionId) :
    id ∈ indexes.bySession sessionId ∧
      (archived terminal.archivedAt = false → terminal.sessionId = sessionId → id ≠ terminal.id) := by
  rw [removeTerminal] at h
  split_ifs at h with harchived
  · exact ⟨h, fun hvisible => by simp [harchived] at hvisible⟩
  · have hmem : id ∈ Function.update indexes.bySession terminal.sessionId
        ((indexes.bySession terminal.sessionId).filter (fun id => id ≠ terminal.id)) sessionId := by
      cases htab : store.tabIdForTerminal terminal with
      | none => simpa only [htab] using h
      | some tabId => simpa only [htab] using h
    by_cases hs : sessionId = terminal.sessionId
    · subst hs
      rw [Function.update_self] at hmem
      obtain ⟨hold, hne⟩ := List.mem_filter.mp hmem
      exact ⟨hold, fun _ _ => by simpa using hne⟩
    · rw [Function.update_of_ne hs] at hmem
      exact ⟨hmem, fun _ heq => absurd heq.symm hs⟩

theorem mem_removeTerminal_byTab {terminal : MuxTerminal} {indexes : TerminalIndexes}
    (h : id ∈ (store.removeTerminal terminal indexes).byTab tabId) :
    id ∈ indexes.byTab tabId ∧ (archived terminal.archivedAt = false →
      store.tabIdForTerminal terminal = some tabId → id ≠ terminal.id) := by
  rw [removeTerminal] at h
  split_ifs at h with harchived
  · exact ⟨h, fun hvisible => by simp [harchived] at hvisible⟩
  · cases htab : store.tabIdForTerminal terminal with
    | none =>
      simp only [htab] at h
      exact ⟨h, fun _ hsome => nomatch hsome⟩
    | some shown =>
      simp only [htab] at h
      by_cases hk : tabId = shown
      · subst hk
        rw [Function.update_self] at h
        obtain ⟨hold, hne⟩ := List.mem_filter.mp h
        exact ⟨hold, fun _ _ => by simpa using hne⟩
      · rw [Function.update_of_ne hk] at h
        exact ⟨h, fun _ hsome => absurd (Option.some.inj hsome).symm hk⟩

theorem mem_insertTerminal_bySession {terminal : MuxTerminal} {indexes : TerminalIndexes}
    (h : id ∈ (store.insertTerminal terminal indexes).bySession sessionId) :
    id ∈ indexes.bySession sessionId ∨ (id = terminal.id ∧ terminal.sessionId = sessionId ∧
      (store.shownIn terminal).isSome) := by
  rw [insertTerminal] at h
  cases htab : store.shownIn terminal with
  | none => exact .inl (by simpa only [htab] using h)
  | some shown =>
    simp only [htab] at h
    by_cases hs : sessionId = terminal.sessionId
    · subst hs
      rw [Function.update_self, List.mem_append, List.mem_singleton] at h
      exact h.imp_right fun heq => ⟨heq, rfl, rfl⟩
    · rw [Function.update_of_ne hs] at h
      exact .inl h

theorem mem_insertTerminal_byTab {terminal : MuxTerminal} {indexes : TerminalIndexes}
    (h : id ∈ (store.insertTerminal terminal indexes).byTab tabId) :
    id ∈ indexes.byTab tabId ∨ (id = terminal.id ∧ store.shownIn terminal = some tabId) := by
  rw [insertTerminal] at h
  cases htab : store.shownIn terminal with
  | none => exact .inl (by simpa only [htab] using h)
  | some shown =>
    simp only [htab] at h
    by_cases hk : tabId = shown
    · subst hk
      rw [Function.update_self, List.mem_append, List.mem_singleton] at h
      exact h.imp_right fun heq => ⟨heq, rfl⟩
    · rw [Function.update_of_ne hk] at h
      exact .inl h

/-- The tab of a terminal depends on its session and its own tab only. -/
theorem tabIdForTerminal_congr {terminal other : MuxTerminal}
    (hsession : other.sessionId = terminal.sessionId) (htab : other.tabId = terminal.tabId) :
    store.tabIdForTerminal other = store.tabIdForTerminal terminal := by
  rw [tabIdForTerminal, tabIdForTerminal, hsession, htab]

theorem mem_set_self {terminal : MuxTerminal} :
    terminal ∈ (store.terminalsById.set terminal).rows := by
  have hget : (store.terminalsById.set terminal).get? terminal.id = some terminal := by
    rw [Table.get?_set, if_pos rfl]
  exact findRow_mem hget

/-- Setting the row of a terminal keeps the other rows. -/
theorem mem_set_other {terminal row : MuxTerminal} (hrow : row ∈ store.terminalsById.rows)
    (hother : store.terminalsById.get? terminal.id ≠ some row) :
    row ∈ (store.terminalsById.set terminal).rows := by
  have hne : row.id ≠ terminal.id := by
    intro heq
    rw [← heq] at hother
    exact hother (Table.get?_of_mem hrow)
  have hget : (store.terminalsById.set terminal).get? row.id = some row := by
    rw [Table.get?_set, if_neg hne, Table.get?_of_mem hrow]
  exact findRow_mem hget

/-- The indexes after the row of one terminal was set and it has moved in them. -/
theorem updateTerminalIndexes_listed (h : store.Listed) {terminal : MuxTerminal} :
    ({ store with terminalsById := store.terminalsById.set terminal }.updateTerminalIndexes
      (store.terminalsById.get? terminal.id) terminal).Listed := by
  let updated := { store with terminalsById := store.terminalsById.set terminal }
  let before : TerminalIndexes := ⟨store.terminalIdsBySession, store.terminalIdsByTab, [], []⟩
  let indexes := updated.insertTerminal terminal
    ((store.terminalsById.get? terminal.id).elim before (fun old => updated.removeTerminal old before))
  refine ⟨h.sessions, h.tabs, fun sessionId id hid => ?_, fun tabId id hid => ?_⟩
  · have hinserted : id ∈ indexes.bySession sessionId := by
      simp only [updateTerminalIndexes, sortTerminalIds] at hid
      split_ifs at hid
      · rwa [List.mem_insertionSort] at hid
      · exact hid
    obtain hold | ⟨rfl, hsession, hshown⟩ := mem_insertTerminal_bySession hinserted
    · cases hprevious : store.terminalsById.get? terminal.id with
      | none =>
        rw [hprevious] at hold
        obtain ⟨row, hrow, rfl, hvisible, hsession⟩ := h.bySession sessionId id hold
        exact ⟨row, mem_set_other hrow (by simp [hprevious]), rfl, hvisible, hsession⟩
      | some old =>
        rw [hprevious] at hold
        obtain ⟨hlisted, hother⟩ := mem_removeTerminal_bySession hold
        obtain ⟨row, hrow, rfl, hvisible, hsession⟩ := h.bySession sessionId id hlisted
        refine ⟨row, mem_set_other hrow fun hrow' => ?_, rfl, hvisible, hsession⟩
        obtain rfl := Option.some.inj (hprevious.symm.trans hrow')
        exact hother hvisible hsession rfl
    · obtain ⟨tabId, htab⟩ := Option.isSome_iff_exists.mp hshown
      exact ⟨terminal, mem_set_self, rfl, (shownIn_some htab).1, hsession⟩
  · have hinserted : id ∈ indexes.byTab tabId := by
      simp only [updateTerminalIndexes, sortTerminalIds] at hid
      split_ifs at hid
      · rwa [List.mem_insertionSort] at hid
      · exact hid
    obtain hold | ⟨rfl, hshown⟩ := mem_insertTerminal_byTab hinserted
    · cases hprevious : store.terminalsById.get? terminal.id with
      | none =>
        rw [hprevious] at hold
        obtain ⟨row, hrow, rfl, hvisible, htab⟩ := h.byTab tabId id hold
        exact ⟨row, mem_set_other hrow (by simp [hprevious]), rfl, hvisible, htab⟩
      | some old =>
        rw [hprevious] at hold
        obtain ⟨hlisted, hother⟩ := mem_removeTerminal_byTab hold
        obtain ⟨row, hrow, rfl, hvisible, htab⟩ := h.byTab tabId id hlisted
        refine ⟨row, mem_set_other hrow fun hrow' => ?_, rfl, hvisible, htab⟩
        obtain rfl := Option.some.inj (hprevious.symm.trans hrow')
        exact hother hvisible htab rfl
    · obtain ⟨hvisible, htab⟩ := shownIn_some hshown
      exact ⟨terminal, mem_set_self, rfl, hvisible, htab⟩

/-- The indexes after the row of one terminal was set with the same place in them. -/
theorem setTerminal_listed (h : store.Listed) {old terminal : MuxTerminal}
    (hold : store.terminalsById.get? terminal.id = some old)
    (hsession : terminal.sessionId = old.sessionId) (htab : terminal.tabId = old.tabId)
    (harchived : terminal.archivedAt = old.archivedAt) :
    ({ store with terminalsById := store.terminalsById.set terminal } : MuxSessionStore).Listed := by
  have hid : old.id = terminal.id := Table.get?_key hold
  have hrows : ∀ row ∈ store.terminalsById.rows, row = old ∨
      row ∈ (store.terminalsById.set terminal).rows := by
    intro row hrow
    by_cases hrow' : row = old
    · exact .inl hrow'
    · refine .inr (mem_set_other hrow fun hsome => hrow' ?_)
      exact Option.some.inj (hsome.symm.trans hold)
  refine ⟨h.sessions, h.tabs, fun sessionId id hlisted => ?_, fun tabId id hlisted => ?_⟩
  · obtain ⟨row, hrow, rfl, hvisible, hown⟩ := h.bySession sessionId id hlisted
    obtain rfl | hkept := hrows row hrow
    · exact ⟨terminal, mem_set_self, hid.symm, by rw [harchived, hvisible], by rw [hsession, hown]⟩
    · exact ⟨row, hkept, rfl, hvisible, hown⟩
  · obtain ⟨row, hrow, rfl, hvisible, hown⟩ := h.byTab tabId id hlisted
    obtain rfl | hkept := hrows row hrow
    · refine ⟨terminal, mem_set_self, hid.symm, by rw [harchived, hvisible], ?_⟩
      exact (tabIdForTerminal_congr hsession htab).trans hown
    · exact ⟨row, hkept, rfl, hvisible, hown⟩

theorem upsertTerminal_listed (h : store.Listed) (terminal : MuxTerminal) :
    (store.upsertTerminal terminal).Listed := by
  simp only [upsertTerminal]
  split_ifs with hmoved
  · exact updateTerminalIndexes_listed h
  · cases hold : store.terminalsById.get? terminal.id with
    | none => simp [hold] at hmoved
    | some old =>
      simp only [hold, Option.all_some, Bool.or_eq_true, decide_eq_true_eq, not_or, not_not]
        at hmoved
      obtain ⟨⟨⟨hsession, htab⟩, harchived⟩, -⟩ := hmoved
      exact setTerminal_listed h hold hsession.symm htab.symm harchived.symm

end MuxSessionStore
end PiDeck.MuxStore
