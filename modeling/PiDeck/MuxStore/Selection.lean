import Mathlib
import PiDeck.MuxStore.Operations

/-! What the client shows. While a session is visible, the active session is a visible one, the
active tab a visible tab of it and the active terminal a visible terminal of that tab, all under the
keys of the store. Which operations keep this is decided exactly. -/
namespace PiDeck.MuxStore
open PiDeck.Collections PiDeck.Transition
open PiDeck.Mux (MuxTerminal)

namespace MuxSessionStore
variable {store next : MuxSessionStore} {id sessionId tabId : String}

/-- The selection is visible, and under the keys of the store. -/
def Selected (store : MuxSessionStore) : Prop :=
  store.visibleSessionIds ≠ [] → ∃ sessionId tabId,
    (store.activeSessionId = some sessionId ∧ sessionId ∈ store.visibleSessionIds ∧
      store.sessionsById.has sessionId) ∧
    (store.activeTabId = some tabId ∧ tabId ∈ store.visibleTabIdsBySession sessionId ∧
      store.tabsById.has tabId) ∧
    ∀ terminalId, store.activeMuxTerminalId = some terminalId →
      terminalId ∈ store.terminalIdsByTab tabId ∧ store.terminalsById.has terminalId

/-- The indexes list keys of the store. -/
structure Indexed (store : MuxSessionStore) : Prop where
  sessions : ∀ id ∈ store.visibleSessionIds, store.sessionsById.has id
  tabs : ∀ sessionId, ∀ id ∈ store.visibleTabIdsBySession sessionId, store.tabsById.has id
  terminals : ∀ tabId, ∀ id ∈ store.terminalIdsByTab tabId, store.terminalsById.has id

/-! ### The indexes list keys -/

theorem mem_visibleIds {sessions : List AppSession} (h : id ∈ visibleIds sessions) :
    ∃ session ∈ sessions, session.id = id := by
  obtain ⟨session, hsession, rfl⟩ := List.mem_map.mp h
  rw [List.mem_insertionSort] at hsession
  exact ⟨session, List.mem_of_mem_filter hsession, rfl⟩

theorem mem_indexTabs {tabs : List SessionTab} (h : id ∈ store.indexTabs tabs sessionId) :
    ∃ tab ∈ tabs, tab.id = id := by
  rw [indexTabs, sortTabIds, List.mem_insertionSort] at h
  obtain ⟨tab, htab, rfl⟩ := List.mem_map.mp h
  exact ⟨tab, List.mem_of_mem_filter htab, rfl⟩

theorem mem_rebuiltTerminals (h : id ∈ store.rebuildTerminalIndexes.terminalIdsByTab tabId) :
    store.terminalsById.has id := by
  simp only [rebuildTerminalIndexes, sortTerminalIds, List.mem_insertionSort] at h
  obtain ⟨terminal, hterminal, rfl⟩ := List.mem_map.mp h
  exact Table.has_iff.mpr ⟨terminal, List.mem_of_mem_filter hterminal, rfl⟩

theorem rebuildTerminalIndexes_indexed
    (hsessions : ∀ id ∈ store.visibleSessionIds, store.sessionsById.has id)
    (htabs : ∀ sessionId, ∀ id ∈ store.visibleTabIdsBySession sessionId, store.tabsById.has id) :
    store.rebuildTerminalIndexes.Indexed :=
  ⟨hsessions, htabs, fun _ _ h => mem_rebuiltTerminals h⟩

theorem rebuildVisibleTabs_indexed
    (hsessions : ∀ id ∈ store.visibleSessionIds, store.sessionsById.has id) :
    store.rebuildVisibleTabs.Indexed := by
  refine ⟨hsessions, fun sessionId id hid => ?_, fun _ _ h => mem_rebuiltTerminals h⟩
  exact Table.has_iff.mpr (mem_indexTabs hid)

theorem mem_rebuildVisibleSessions (h : id ∈ store.rebuildVisibleSessions.visibleSessionIds) :
    store.sessionsById.has id := Table.has_iff.mpr (mem_visibleIds h)

theorem removeTerminal_byTab {terminal : MuxTerminal} {indexes : TerminalIndexes}
    (h : id ∈ (store.removeTerminal terminal indexes).byTab tabId) : id ∈ indexes.byTab tabId := by
  rw [removeTerminal] at h
  split_ifs at h
  · exact h
  · cases htab : store.tabIdForTerminal terminal with
    | none => simpa [htab] using h
    | some shown =>
      simp only [htab] at h
      by_cases hk : tabId = shown
      · subst hk
        rw [Function.update_self] at h
        exact List.mem_of_mem_filter h
      · rwa [Function.update_of_ne hk] at h

theorem insertTerminal_byTab {terminal : MuxTerminal} {indexes : TerminalIndexes}
    (h : id ∈ (store.insertTerminal terminal indexes).byTab tabId) :
    id ∈ indexes.byTab tabId ∨ id = terminal.id := by
  rw [insertTerminal] at h
  cases htab : store.shownIn terminal with
  | none => exact .inl (by simpa [htab] using h)
  | some shown =>
    simp only [htab] at h
    by_cases hk : tabId = shown
    · subst hk
      rw [Function.update_self, List.mem_append, List.mem_singleton] at h
      exact h
    · rw [Function.update_of_ne hk] at h
      exact .inl h

theorem updateTerminalIndexes_byTab {previous : Option MuxTerminal} {terminal : MuxTerminal}
    (h : id ∈ (store.updateTerminalIndexes previous terminal).terminalIdsByTab tabId) :
    id ∈ store.terminalIdsByTab tabId ∨ id = terminal.id := by
  simp only [updateTerminalIndexes, sortTerminalIds] at h
  have hinserted : id ∈ (store.insertTerminal terminal (previous.elim
      ⟨store.terminalIdsBySession, store.terminalIdsByTab, [], []⟩
      (fun terminal => store.removeTerminal terminal
        ⟨store.terminalIdsBySession, store.terminalIdsByTab, [], []⟩))).byTab tabId := by
    split_ifs at h
    · rwa [List.mem_insertionSort] at h
    · exact h
  obtain hold | hnew := insertTerminal_byTab hinserted
  · cases previous with
    | none => exact .inl hold
    | some old => exact .inl (removeTerminal_byTab hold)
  · exact .inr hnew

theorem upsertTerminal_indexed (h : store.Indexed) {terminal : MuxTerminal} :
    (store.upsertTerminal terminal).Indexed := by
  have keeps : ∀ id, store.terminalsById.has id → (store.terminalsById.set terminal).has id := by
    intro id hid
    rw [Table.has_set, hid, Bool.or_true]
  simp only [upsertTerminal]
  split_ifs
  · refine ⟨h.sessions, h.tabs, fun tabId id hid => ?_⟩
    obtain hold | rfl := updateTerminalIndexes_byTab hid
    · exact keeps id (h.terminals tabId id hold)
    · change (store.terminalsById.set terminal).has terminal.id
      rw [Table.has_set]
      simp
  · exact ⟨h.sessions, h.tabs, fun tabId id hid => keeps id (h.terminals tabId id hid)⟩

/-! ### Reconciling -/

theorem preferred_mem {wanted : Option String} {ids : List String} (h : preferred wanted ids = some id) :
    id ∈ ids := by
  cases wanted with
  | none => exact List.mem_of_mem_head? h
  | some want =>
    simp only [preferred] at h
    split_ifs at h with hmem
    · exact Option.some.inj h ▸ hmem
    · exact List.mem_of_mem_head? h

theorem preferred_isSome {wanted : Option String} {ids : List String} (h : ids ≠ []) :
    ∃ id, preferred wanted ids = some id := by
  obtain ⟨first, rest, rfl⟩ := List.exists_cons_of_ne_nil h
  cases wanted with
  | none => exact ⟨first, rfl⟩
  | some want =>
    simp only [preferred]
    split_ifs
    · exact ⟨want, rfl⟩
    · exact ⟨first, rfl⟩

theorem listedIn_some {wanted : Option String} {ids : List String} (h : listedIn wanted ids = true) :
    ∃ id, wanted = some id ∧ id ∈ ids := by
  cases wanted with
  | none => cases h
  | some id => exact ⟨id, rfl, by simpa [listedIn] using h⟩

/-- The session that reconciling shows: the active one if it is visible, or else the first. -/
def shownNext (active : Option String) (visible : List String) : Option String :=
  if listedIn active visible then active else visible.head?

/-- With these sessions visible, none is left to show or the one shown next has a tab. -/
def Shows (store : MuxSessionStore) (visible : List String) (hasTab : String → Prop) : Prop :=
  visible = [] ∨ ∃ sessionId, shownNext store.activeSessionId visible = some sessionId ∧ hasTab sessionId

theorem Shows.congr {visible : List String} {hasTab hasTab' : String → Prop}
    (h : ∀ sessionId, hasTab sessionId ↔ hasTab' sessionId) :
    store.Shows visible hasTab ↔ store.Shows visible hasTab' := by
  rw [Shows, Shows]
  simp only [h]

theorem shownNext_mem {active : Option String} {visible : List String}
    (h : shownNext active visible = some id) : id ∈ visible := by
  rw [shownNext] at h
  split_ifs at h with hlisted
  · obtain ⟨own, rfl, hmem⟩ := listedIn_some hlisted
    exact Option.some.inj h ▸ hmem
  · exact List.mem_of_mem_head? h

theorem reconcileTerminal_mem {terminalId : String}
    (h : store.reconcileTerminal (some tabId) = some terminalId) :
    terminalId ∈ store.terminalIdsByTab tabId := by
  simp only [reconcileTerminal, Option.bind_some] at h
  split_ifs at h with hlisted
  · obtain ⟨own, hown, hmem⟩ := listedIn_some hlisted
    exact Option.some.inj (h.symm.trans hown) ▸ hmem
  · exact preferred_mem h

theorem reconcileSelection_indexed (h : store.Indexed) : store.reconcileSelection.Indexed := by
  rw [reconcileSelection]
  split
  · exact ⟨h.sessions, h.tabs, h.terminals⟩
  · exact ⟨h.sessions, h.tabs, h.terminals⟩

/-- Reconciling finds a visible selection exactly if the session it shows has a visible tab. -/
theorem reconcileSelection_selected_iff (h : store.Indexed) : store.reconcileSelection.Selected ↔
    store.Shows store.visibleSessionIds (fun sessionId =>
      store.visibleTabIdsBySession sessionId ≠ []) := by
  have shown : (if store.activeSessionId.any (fun id => store.sessionsById.has id &&
      decide (id ∈ store.visibleSessionIds)) then store.activeSessionId
      else store.visibleSessionIds.head?) =
        shownNext store.activeSessionId store.visibleSessionIds := by
    rw [shownNext]
    congr 1
    cases hactive : store.activeSessionId with
    | none => rfl
    | some id =>
      by_cases hmem : id ∈ store.visibleSessionIds
      · simp [listedIn, hmem, h.sessions id hmem]
      · simp [listedIn, hmem]
  rw [reconcileSelection, shown]
  cases hnext : shownNext store.activeSessionId store.visibleSessionIds with
  | none =>
    -- No session is shown, so none is visible.
    have hempty : store.visibleSessionIds = [] := by
      rw [shownNext] at hnext
      split_ifs at hnext with hlisted
      · obtain ⟨own, hown, -⟩ := listedIn_some hlisted
        cases hnext.symm.trans hown
      · exact List.head?_eq_none_iff.mp hnext
    exact ⟨fun _ => .inl hempty, fun _ hvisible => absurd hempty hvisible⟩
  | some sessionId =>
    have hmem := shownNext_mem hnext
    have hvisible : store.visibleSessionIds ≠ [] := List.ne_nil_of_mem hmem
    constructor
    · intro hselected
      obtain ⟨shownId, tabId, ⟨hsession, -, -⟩, ⟨-, htab, -⟩, -⟩ := hselected hvisible
      obtain rfl : sessionId = shownId := Option.some.inj hsession
      exact .inr ⟨sessionId, hnext, List.ne_nil_of_mem htab⟩
    · rintro (hempty | ⟨shownId, hshown, htabs⟩) -
      · exact absurd hempty hvisible
      · obtain rfl : sessionId = shownId := Option.some.inj (hnext.symm.trans hshown)
        obtain ⟨tabId, htabId, htabMem⟩ : ∃ tabId,
            (if listedIn store.activeTabId (store.visibleTabIdsBySession sessionId) then
              store.activeTabId else store.selectedTabForSession sessionId) = some tabId ∧
            tabId ∈ store.visibleTabIdsBySession sessionId := by
          split_ifs with hlisted
          · exact listedIn_some hlisted
          · obtain ⟨tabId, htabId⟩ := preferred_isSome htabs
            exact ⟨tabId, htabId, preferred_mem htabId⟩
        refine ⟨sessionId, tabId, ⟨rfl, hmem, h.sessions _ hmem⟩,
          ⟨htabId, htabMem, h.tabs _ _ htabMem⟩, ?_⟩
        intro terminalId hterminal
        change store.reconcileTerminal (if listedIn store.activeTabId
          (store.visibleTabIdsBySession sessionId) then store.activeTabId
          else store.selectedTabForSession sessionId) = some terminalId at hterminal
        rw [htabId] at hterminal
        have hterminalMem := reconcileTerminal_mem hterminal
        exact ⟨hterminalMem, h.terminals _ _ hterminalMem⟩

/-- The same for what an operation made of the indexes before it reconciles. -/
theorem reconciled_selected_iff {hasTab : String → Prop} (indexed : next.Indexed)
    (active : next.activeSessionId = store.activeSessionId)
    (tabs : ∀ sessionId, next.visibleTabIdsBySession sessionId ≠ [] ↔ hasTab sessionId) :
    next.reconcileSelection.Selected ↔ store.Shows next.visibleSessionIds hasTab := by
  rw [reconcileSelection_selected_iff indexed, Shows, Shows, active]
  simp only [tabs]

/-- A visible selection is one that reconciling keeps. -/
theorem Selected.shows (h : store.Selected) : store.Shows store.visibleSessionIds (fun sessionId =>
    store.visibleTabIdsBySession sessionId ≠ []) := by
  by_cases hvisible : store.visibleSessionIds = []
  · exact .inl hvisible
  · obtain ⟨sessionId, tabId, ⟨hsession, hmem, -⟩, ⟨-, htab, -⟩, -⟩ := h hvisible
    refine .inr ⟨sessionId, ?_, List.ne_nil_of_mem htab⟩
    rw [shownNext, hsession, if_pos]
    simpa [listedIn] using hmem

end MuxSessionStore
end PiDeck.MuxStore
