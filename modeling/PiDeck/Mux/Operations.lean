import Mathlib
import PiDeck.Mux.Catalog

/-! What each operation of the store does to the catalog: the rows it may change, that the rows it
answers with are the stored ones, and that it leaves the processes of terminals alone. -/
namespace PiDeck.Mux
open PiDeck.Collections PersistedState

/-- A terminal was rewritten without reviving it, giving it a process or restoring it; a new one has
no process. -/
def Calm : Option MuxTerminal → MuxTerminal → Prop
  | none, r' => r'.output.ptyId = none
  | some r, r' => (r.archivedAt.isSome → r'.archivedAt.isSome) ∧
      r'.output.ptyId = r.output.ptyId ∧ (r'.status.isLive → r.status.isLive)

theorem Calm.trans (o : Option MuxTerminal) (r r' : MuxTerminal) (h : Calm o r)
    (h' : Calm (some r) r') : Calm o r' := by
  cases o with
  | none => exact h'.2.1.trans h
  | some r₀ => exact ⟨h'.1 ∘ h.1, h'.2.1.trans h.2.1, h.2.2 ∘ h'.2.2⟩

@[simp] theorem touchSession_id {now r} : (touchSession now r).id = r.id := rfl
@[simp] theorem touchTab_id {now r} : (touchTab now r).id = r.id := rfl
@[simp] theorem touchTerminal_id {now r} : (touchTerminal now r).id = r.id := rfl
@[simp] theorem stampTerminal_id {now r} : (stampTerminal now r).id = r.id := rfl
@[simp] theorem stampTerminal_tabId {now r} : (stampTerminal now r).tabId = r.tabId := rfl
@[simp] theorem stampTerminal_sessionId {now r} :
    (stampTerminal now r).sessionId = r.sessionId := rfl
@[simp] theorem stampTerminal_archivedAt {now r} :
    (stampTerminal now r).archivedAt = r.archivedAt := rfl
@[simp] theorem stampTerminal_output {now r} : (stampTerminal now r).output = r.output := rfl
@[simp] theorem stampTerminal_status {now r} : (stampTerminal now r).status = r.status := rfl
@[simp] theorem stampTerminal_revision {now r} :
    (stampTerminal now r).revision = r.revision + 1 := rfl

theorem touchSession_rev {now : String} {r r₀ : AppSession} (h : r₀.revision = r.revision) :
    r.revision < (touchSession now r₀).revision := by simp [touchSession, h]

theorem touchTab_rev {now : String} {r r₀ : SessionTab} (h : r₀.revision = r.revision) :
    r.revision < (touchTab now r₀).revision := by simp [touchTab, h]

section Archive
variable {now : String} {stop : Bool} {r : MuxTerminal}

@[simp] theorem archiveRow_id : (archiveRow now stop r).id = r.id := by
  simp only [archiveRow]; split_ifs <;> rfl

@[simp] theorem archiveRow_archivedAt : (archiveRow now stop r).archivedAt = some now := rfl

@[simp] theorem archiveRow_updatedAt : (archiveRow now stop r).updatedAt = now := rfl

@[simp] theorem archiveRow_revision : (archiveRow now stop r).revision = r.revision + 1 := by
  simp only [archiveRow]; split_ifs <;> rfl

theorem archiveRow_calm : Calm (some r) (archiveRow now stop r) := by
  refine ⟨fun _ => rfl, ?_, ?_⟩
  · simp only [archiveRow]; split_ifs <;> rfl
  · simp only [archiveRow]
    split_ifs
    · simp [TerminalStatus.isLive]
    · exact id

end Archive

section Find
variable {R : Option MuxTerminal → MuxTerminal → Prop} {S T M : Set String}
  {s s' : PersistedState} {id : String}

theorem findSessionMut_ok {f} {r : AppSession} (h : findSessionMut id f s = .ok (r, s')) :
    ∃ r₀, s.getSession id = some r₀ ∧ r = f r₀ ∧ s' = s.setSession id f := by
  rw [findSessionMut] at h
  cases hg : s.getSession id with
  | none => simp [hg] at h
  | some r₀ =>
    obtain ⟨rfl, rfl⟩ : f r₀ = r ∧ s.setSession id f = s' := by simpa [hg] using h
    exact ⟨r₀, rfl, rfl, rfl⟩

theorem findTabMut_ok {f} {r : SessionTab} (h : findTabMut id f s = .ok (r, s')) :
    ∃ r₀, s.getTab id = some r₀ ∧ r = f r₀ ∧ s' = s.setTab id f := by
  rw [findTabMut] at h
  cases hg : s.getTab id with
  | none => simp [hg] at h
  | some r₀ =>
    obtain ⟨rfl, rfl⟩ : f r₀ = r ∧ s.setTab id f = s' := by simpa [hg] using h
    exact ⟨r₀, rfl, rfl, rfl⟩

theorem findTerminalMut_ok {f} {r : MuxTerminal} (h : findTerminalMut id f s = .ok (r, s')) :
    ∃ r₀, s.getTerminal id = some r₀ ∧ r = f r₀ ∧ s' = s.setTerminal id f := by
  rw [findTerminalMut] at h
  cases hg : s.getTerminal id with
  | none => simp [hg] at h
  | some r₀ =>
    obtain ⟨rfl, rfl⟩ : f r₀ = r ∧ s.setTerminal id f = s' := by simpa [hg] using h
    exact ⟨r₀, rfl, rfl, rfl⟩

/-- Rewriting a session changes that row only and answers with the stored row. -/
theorem findSessionMut_evolves {f} {r : AppSession} (h : findSessionMut id f s = .ok (r, s'))
    (hS : id ∈ S) (hid : ∀ r, (f r).id = r.id)
    (hrev : ∀ r, f r = r ∨ r.revision < (f r).revision) :
    Evolves R S T M s s' ∧ s'.getSession id = some r := by
  obtain ⟨r₀, hr₀, rfl, rfl⟩ := findSessionMut_ok h
  exact ⟨.setSession hS hid hrev, getSession_setSession_self hid hr₀⟩

theorem findTabMut_evolves {f} {r : SessionTab} (h : findTabMut id f s = .ok (r, s'))
    (hT : id ∈ T) (hid : ∀ r, (f r).id = r.id) (hrev : ∀ r, f r = r ∨ r.revision < (f r).revision)
    (hsess : ∀ r, (f r).sessionId = r.sessionId) (harch : ∀ r, (f r).archivedAt = r.archivedAt) :
    Evolves R S T M s s' ∧ s'.getTab id = some r := by
  obtain ⟨r₀, hr₀, rfl, rfl⟩ := findTabMut_ok h
  exact ⟨.setTab hT hid hrev hsess harch, getTab_setTab_self hid hr₀⟩

end Find

section Orders
variable {s : PersistedState} {sessionId tabId : String} {includeArchived : Bool}

theorem mem_orderedSessions {r : AppSession} : r ∈ orderedSessions s includeArchived ↔
    r ∈ s.sessions ∧ listed includeArchived r.archivedAt = true := by simp [orderedSessions]

theorem mem_orderedTabs {r : SessionTab} : r ∈ orderedTabs s sessionId includeArchived ↔
    r ∈ s.tabs ∧ r.sessionId = sessionId ∧ listed includeArchived r.archivedAt = true := by
  simp [orderedTabs]

theorem mem_orderedTerminals {r : MuxTerminal} : r ∈ orderedTerminals s tabId includeArchived ↔
    r ∈ s.terminals ∧ r.tabId = some tabId ∧ listed includeArchived r.archivedAt = true := by
  simp [orderedTerminals]

@[simp] theorem listed_false {a : Option String} : listed false a = true ↔ a = none := by
  simp [listed]

theorem assertPermutation_mem {actual expected : List String} {label : String} {u : Unit}
    (h : assertPermutation actual expected label = .ok u) (id : String) :
    id ∈ actual ↔ id ∈ expected := by
  rw [assertPermutation] at h
  split_ifs at h with hne
  obtain ⟨-, he⟩ := not_or.mp hne
  rw [not_not] at he
  rw [← mem_sortDedup, he, List.mem_insertionSort]

end Orders
section Sessions
variable {d : Draw} {s s' : PersistedState} {sessionId title : String} {r : AppSession}
  {S T M : Set String}

theorem createSession_evolves (fresh : d.Fresh s) (h : createSession d title s = .ok (r, s')) :
    Evolves Calm {d.sessionId} {d.tabId} ∅ s s' ∧ s'.getSession d.sessionId = some r ∧
      r.id = d.sessionId := by
  simp only [createSession, Except.ok.injEq, Prod.mk.injEq] at h
  obtain ⟨rfl, rfl⟩ := h
  refine ⟨.addSession rfl rfl fresh.session fresh.tab rfl rfl (Nat.succ_pos _) (Nat.succ_pos _), ?_,
    rfl⟩
  exact (findRow_push (r := newSession d _ _) fresh.session _).trans (if_pos rfl)

theorem ensureVisibleSession_evolves (fresh : d.Fresh s) :
    Evolves Calm {d.sessionId} {d.tabId} ∅ s (ensureVisibleSession d s) := by
  rw [ensureVisibleSession]
  split_ifs
  · exact .refl s
  · exact .addSession rfl rfl fresh.session fresh.tab rfl rfl (Nat.succ_pos _) (Nat.succ_pos _)

theorem renameSession_evolves (h : renameSession d sessionId title s = .ok (r, s')) :
    Evolves Calm {sessionId} ∅ ∅ s s' ∧ s'.getSession sessionId = some r :=
  findSessionMut_evolves h (Set.mem_singleton _) (fun _ => rfl) (fun _ => .inr (touchSession_rev rfl))

theorem placeSessions_evolves {ps : List (String × ℕ)} (h : placeSessions d.now ps s = .ok s')
    (hS : ∀ p ∈ ps, p.1 ∈ S) : Evolves Calm S T M s s' := by
  induction ps generalizing s with
  | nil =>
    obtain rfl : s = s' := by simpa [placeSessions] using h
    exact .refl s
  | cons p ps ih =>
    obtain ⟨⟨r, s₁⟩, h₁, h₂⟩ := Except.bind_ok.mp h
    obtain ⟨head, -⟩ := findSessionMut_evolves (R := Calm) (T := T) (M := M) h₁
      (hS p List.mem_cons_self) (fun _ => rfl) (fun _ => .inr (touchSession_rev rfl))
    exact head.trans Calm.trans (ih h₂ (fun q hq => hS q (List.mem_cons_of_mem _ hq)))

theorem reorderSessions_evolves {ids : List String} {rs : List AppSession} (wf : s.WellFormed)
    (h : reorderSessions d ids s = .ok (rs, s')) :
    Evolves Calm {id | ∃ r, s.getSession id = some r ∧ r.archivedAt = none} ∅ ∅ s s' ∧
      rs = orderedSessions s' false := by
  obtain ⟨u, hperm, h⟩ := Except.bind_ok.mp h
  obtain ⟨s₁, hplace, h⟩ := Except.bind_ok.mp h
  obtain ⟨rfl, rfl⟩ : orderedSessions s₁ false = rs ∧ s₁ = s' := by simpa [pure, Except.pure] using h
  refine ⟨placeSessions_evolves hplace ?_, rfl⟩
  intro p hp
  -- Every listed id is that of an unarchived session.
  have hmem : p.1 ∈ ids := List.fst_mem_of_mem_zipIdx hp
  rw [assertPermutation_mem hperm, List.mem_map] at hmem
  obtain ⟨r, hr, hid⟩ := hmem
  obtain ⟨hrs, harch⟩ := List.mem_filter.mp hr
  exact ⟨r, hid ▸ wf.getSession_of_mem hrs, by simpa using harch⟩

theorem archiveSession_evolves (fresh : d.Fresh s)
    (h : archiveSession d sessionId s = .ok (r, s')) :
    Evolves Calm {sessionId, d.sessionId} {d.tabId} ∅ s s' ∧
      s'.getSession sessionId = some r := by
  obtain ⟨⟨archived, s₁⟩, h₁, h⟩ := Except.bind_ok.mp h
  obtain ⟨rfl, rfl⟩ : archived = r ∧ ensureVisibleSession d s₁ = s' := by
    simpa [pure, Except.pure] using h
  obtain ⟨first, hrow⟩ := findSessionMut_evolves (R := Calm) (S := {sessionId, d.sessionId})
    (T := {d.tabId}) (M := ∅) h₁ (Set.mem_insert _ _) (fun r => by split_ifs <;> rfl) (fun r => by
      split_ifs
      · exact .inr (touchSession_rev rfl)
      · exact .inl rfl)
  obtain ⟨r₀, hr₀, -, rfl⟩ := findSessionMut_ok h₁
  have hne : sessionId ≠ d.sessionId := fun e => by rw [e, fresh.session] at hr₀; cases hr₀
  have fresh₁ : d.Fresh (s.setSession sessionId fun r =>
      if r.archivedAt.isNone then touchSession d.now { r with archivedAt := some d.now } else r) := by
    refine ⟨?_, fresh.tab, fresh.terminal⟩
    rw [getSession_setSession (fun r => by split_ifs <;> rfl), if_neg hne.symm]
    exact fresh.session
  have second := ensureVisibleSession_evolves fresh₁
  refine ⟨first.trans Calm.trans (second.mono (fun _ _ => id) (by simp) (by simp) (by simp)), ?_⟩
  exact (second.sessions.frame _ hne).trans hrow

theorem restoreSession_evolves (h : restoreSession d sessionId s = .ok (r, s')) :
    Evolves Calm {sessionId} ∅ ∅ s s' ∧ s'.getSession sessionId = some r :=
  findSessionMut_evolves h (Set.mem_singleton _) (fun _ => rfl) (fun _ => .inr (touchSession_rev rfl))

end Sessions

section Tabs
variable {d : Draw} {s s' : PersistedState} {sessionId tabId title : String} {r : SessionTab}
  {S T M : Set String}

theorem createTab_evolves (fresh : d.Fresh s) (h : createTab d sessionId title s = .ok (r, s')) :
    Evolves Calm {sessionId} {d.tabId} ∅ s s' ∧ s'.getTab d.tabId = some r ∧ r.id = d.tabId := by
  rw [createTab] at h
  split_ifs at h
  obtain ⟨⟨session, s₁⟩, h₁, h⟩ := Except.bind_ok.mp h
  obtain ⟨rfl, rfl⟩ := by simpa only [pure, Except.pure, Except.ok.injEq, Prod.mk.injEq] using h
  obtain ⟨second, -⟩ := findSessionMut_evolves (R := Calm) (S := {sessionId}) (T := {d.tabId})
    (M := ∅) h₁ (Set.mem_singleton _) (fun r => by split_ifs <;> rfl) (fun r => by
      split_ifs
      · exact .inr (touchSession_rev rfl)
      · exact .inl rfl)
  obtain ⟨r₀, hr₀, -, rfl⟩ := findSessionMut_ok h₁
  refine ⟨.trans Calm.trans
    (.pushTab (Set.mem_singleton d.tabId) fresh.tab Nat.one_pos ?_) second, ?_, rfl⟩
  · intro _
    simp only [getSession_pushTab] at hr₀
    simp [newTab, hr₀]
  · rw [getTab_setSession]
    exact (findRow_push (r := newTab d _ _ _) fresh.tab _).trans (if_pos rfl)

theorem renameTab_evolves (h : renameTab d tabId title s = .ok (r, s')) :
    Evolves Calm ∅ {tabId} ∅ s s' ∧ s'.getTab tabId = some r := by
  rw [renameTab] at h
  apply findTabMut_evolves h (Set.mem_singleton _)
  · simp
  · exact fun r => .inr (Nat.lt_succ_self r.revision)
  · simp [touchTab]
  · simp [touchTab]

theorem saveTabLayout_evolves {layoutJson : String} {expectedRevision : Option ℕ}
    (h : saveTabLayout d tabId layoutJson expectedRevision s = .ok (r, s')) :
    Evolves Calm ∅ {tabId} ∅ s s' ∧ s'.getTab tabId = some r := by
  rw [saveTabLayout] at h
  split_ifs at h
  cases hg : s.getTab tabId with
  | none => simp [hg] at h
  | some tab =>
    simp only [hg] at h
    split_ifs at h
    exact findTabMut_evolves h (Set.mem_singleton _) (fun _ => rfl) (fun _ => .inr (touchTab_rev rfl)) (fun _ => rfl)
      (fun _ => rfl)

theorem placeTabs_evolves {ps : List (String × ℕ)} (h : placeTabs d.now ps s = .ok s')
    (hT : ∀ p ∈ ps, p.1 ∈ T) : Evolves Calm S T M s s' := by
  induction ps generalizing s with
  | nil =>
    obtain rfl : s = s' := by simpa [placeTabs] using h
    exact .refl s
  | cons p ps ih =>
    obtain ⟨⟨r, s₁⟩, h₁, h₂⟩ := Except.bind_ok.mp h
    obtain ⟨head, -⟩ := findTabMut_evolves (R := Calm) (S := S) (M := M) h₁
      (hT p List.mem_cons_self) (fun _ => rfl) (fun _ => .inr (touchTab_rev rfl)) (fun _ => rfl)
      (fun _ => rfl)
    exact head.trans Calm.trans (ih h₂ (fun q hq => hT q (List.mem_cons_of_mem _ hq)))

theorem reorderTabs_evolves {ids : List String} {rs : List SessionTab} (wf : s.WellFormed)
    (h : reorderTabs d sessionId ids s = .ok (rs, s')) :
    Evolves Calm ∅ {id | ∃ r, s.getTab id = some r ∧ r.sessionId = sessionId ∧ r.archivedAt = none}
      ∅ s s' ∧ rs = orderedTabs s' sessionId false := by
  obtain ⟨u, hperm, h⟩ := Except.bind_ok.mp h
  obtain ⟨s₁, hplace, h⟩ := Except.bind_ok.mp h
  obtain ⟨rfl, rfl⟩ : orderedTabs s₁ sessionId false = rs ∧ s₁ = s' := by
    simpa [pure, Except.pure] using h
  refine ⟨placeTabs_evolves hplace ?_, rfl⟩
  intro p hp
  have hmem : p.1 ∈ ids := List.fst_mem_of_mem_zipIdx hp
  rw [assertPermutation_mem hperm, List.mem_map] at hmem
  obtain ⟨r, hr, hid⟩ := hmem
  obtain ⟨hrs, hsess, harch⟩ := mem_orderedTabs.mp hr
  exact ⟨r, hid ▸ wf.getTab_of_mem hrs, hsess, listed_false.mp harch⟩

theorem selectTab_evolves {tab : Option String} {session : AppSession}
    (h : selectTab d sessionId tab s = .ok (session, s')) :
    Evolves Calm {sessionId} ∅ ∅ s s' ∧ s'.getSession sessionId = some session := by
  have select : ∀ o : Option (String × Option String),
      findSessionMut sessionId (fun r => touchSession d.now { r with
        activeTabId := o.map Prod.fst, activeMuxTerminalId := o.bind Prod.snd }) s =
          .ok (session, s') →
      Evolves Calm {sessionId} ∅ ∅ s s' ∧ s'.getSession sessionId = some session := fun o h =>
    findSessionMut_evolves h (Set.mem_singleton _) (fun _ => rfl)
      (fun _ => .inr (touchSession_rev rfl))
  cases tab with
  | none => exact select none h
  | some tabId =>
    simp only [selectTab] at h
    cases hf : findOwnTab s sessionId tabId with
    | none => simp [hf] at h
    | some row =>
      simp only [hf] at h
      exact select _ h

end Tabs

section Terminals
variable {d : Draw} {s s' : PersistedState} {sessionId tabId terminalId title : String}
  {S T M : Set String}

theorem findOwnTab_some {tab : SessionTab} (h : findOwnTab s sessionId tabId = some tab) :
    tab ∈ s.tabs ∧ tab.id = tabId ∧ tab.sessionId = sessionId ∧ tab.archivedAt = none := by
  refine ⟨List.mem_of_find?_eq_some h, ?_⟩
  simpa [and_assoc] using List.find?_some h

/-- Selecting no terminal touches the session only. -/
theorem selectTerminalInState_none {r : AppSession}
    (h : selectTerminalInState d sessionId none s = .ok (r, s')) :
    Evolves Calm {sessionId} ∅ ∅ s s' ∧ s'.getSession sessionId = some r ∧
      (∀ r₀, s.getSession sessionId = some r₀ → r.activeTabId = r₀.activeTabId) := by
  rw [selectTerminalInState] at h
  obtain ⟨hev, hrow⟩ := findSessionMut_evolves (R := Calm) (T := ∅) (M := ∅) h
    (Set.mem_singleton _) (fun _ => rfl) (fun _ => .inr (touchSession_rev rfl))
  obtain ⟨r₁, hr₁, rfl, rfl⟩ := findSessionMut_ok h
  refine ⟨hev, hrow, fun r₀ hr₀ => ?_⟩
  obtain rfl := Option.some.inj (hr₀.symm.trans hr₁)
  rfl

/-- The writes of selecting a terminal: its tab and the session point at it. -/
theorem selectTerminalInState_ok {r : AppSession}
    (h : selectTerminalInState d sessionId (some terminalId) s = .ok (r, s')) :
    ∃ m tabId tab session, m ∈ s.terminals ∧ m.id = terminalId ∧ m.sessionId = sessionId ∧
      m.archivedAt = none ∧ m.tabId = some tabId ∧ s.getTab tabId = some tab ∧
      s.getSession sessionId = some session ∧
      r = touchSession d.now { session with
        activeTabId := some tabId, activeMuxTerminalId := some terminalId } ∧
      s' = (s.setTab tabId fun r => touchTab d.now
          { r with activeMuxTerminalId := some terminalId }).setSession sessionId
        fun r => touchSession d.now { r with
          activeTabId := some tabId, activeMuxTerminalId := some terminalId } := by
  simp only [selectTerminalInState] at h
  cases hf : (s.terminals.find? fun r =>
      decide (r.id = terminalId) && decide (r.sessionId = sessionId) && r.archivedAt.isNone).bind
        MuxTerminal.tabId with
  | none => simp [hf] at h
  | some tabId =>
    simp only [hf] at h
    obtain ⟨m, hm, htab⟩ := Option.bind_eq_some_iff.mp hf
    obtain ⟨hid, hsess, harch⟩ : m.id = terminalId ∧ m.sessionId = sessionId ∧
        m.archivedAt = none := by simpa [and_assoc] using List.find?_some hm
    obtain ⟨⟨tab', s₁⟩, htab', h⟩ := Except.bind_ok.mp h
    obtain ⟨tab, htab₀, rfl, rfl⟩ := findTabMut_ok htab'
    obtain ⟨session, hr₁, rfl, rfl⟩ := findSessionMut_ok h
    exact ⟨m, tabId, tab, session, List.mem_of_find?_eq_some hm, hid, hsess, harch, htab, htab₀, hr₁,
      rfl, rfl⟩

/-- Selecting a terminal touches its tab and the session, which then has that tab active. -/
theorem selectTerminalInState_some {r : AppSession}
    (h : selectTerminalInState d sessionId (some terminalId) s = .ok (r, s')) :
    ∃ m tabId tab, m ∈ s.terminals ∧ m.id = terminalId ∧ m.sessionId = sessionId ∧
      m.archivedAt = none ∧ m.tabId = some tabId ∧ s.getTab tabId = some tab ∧
      r.activeTabId = some tabId ∧ Evolves Calm {sessionId} {tabId} ∅ s s' ∧
      s'.getSession sessionId = some r ∧
      s'.getTab tabId = some (touchTab d.now { tab with activeMuxTerminalId := some terminalId }) := by
  obtain ⟨m, tabId, tab, session, hm, hid, hsess, harch, htab, htab₀, hsession, rfl, rfl⟩ :=
    selectTerminalInState_ok h
  have focusTab : Evolves Calm {sessionId} {tabId} ∅ s (s.setTab tabId fun r =>
      touchTab d.now { r with activeMuxTerminalId := some terminalId }) :=
    .setTab (Set.mem_singleton _) (fun _ => rfl) (fun _ => .inr (touchTab_rev rfl)) (fun _ => rfl)
      (fun _ => rfl)
  refine ⟨m, tabId, tab, hm, hid, hsess, harch, htab, htab₀, rfl, focusTab.trans Calm.trans
    (.setSession (Set.mem_singleton _) (fun _ => rfl) (fun _ => .inr (touchSession_rev rfl))), ?_, ?_⟩
  · exact getSession_setSession_self (fun _ => rfl) hsession
  · exact getTab_setTab_self (fun _ => rfl) htab₀

/-- A new terminal goes to an open tab of its session, which is selected with it. -/
theorem createTerminal_ok {tab : Option String} {input : TerminalInput} {r : MuxTerminal}
    (h : createTerminal d sessionId tab title input s = .ok (r, s')) :
    ∃ selected row session, selectedTab s sessionId tab = some selected ∧
      findOwnTab s sessionId selected = some row ∧
      r = newTerminal d sessionId selected title input
        (s.terminals.filter (fun r => r.tabId = some selected && r.archivedAt.isNone)).length ∧
      selectTerminalInState d sessionId (some r.id) (s.pushTerminal r) = .ok (session, s') := by
  simp only [createTerminal] at h
  split_ifs at h
  cases hsel : selectedTab s sessionId tab with
  | none => simp [hsel] at h
  | some selected =>
    simp only [hsel] at h
    cases hrow : findOwnTab s sessionId selected with
    | none => simp [hrow] at h
    | some row =>
      simp only [hrow, Option.isNone_some, Bool.false_eq_true, if_false] at h
      obtain ⟨⟨session, s₁⟩, h₁, h⟩ := Except.bind_ok.mp h
      obtain ⟨rfl, rfl⟩ := by simpa only [pure, Except.pure, Except.ok.injEq, Prod.mk.injEq] using h
      exact ⟨selected, row, session, rfl, hrow, rfl, h₁⟩

theorem createTerminal_evolves {tab : Option String} {input : TerminalInput} {r : MuxTerminal}
    (fresh : d.Fresh s) (wf : s.WellFormed)
    (h : createTerminal d sessionId tab title input s = .ok (r, s')) :
    ∃ selected, selectedTab s sessionId tab = some selected ∧ r.tabId = some selected ∧
      r.id = d.terminalId ∧ r.output.ptyId = none ∧
      Evolves Calm {sessionId} {selected} {d.terminalId} s s' ∧
      s'.getTerminal d.terminalId = some r := by
  obtain ⟨selected, row, session, hsel, hrow, rfl, hselect⟩ := createTerminal_ok h
  set r := newTerminal d sessionId selected title input
    (s.terminals.filter (fun r => r.tabId = some selected && r.archivedAt.isNone)).length with hr
  obtain ⟨htab, hid, hsess, hopen⟩ := findOwnTab_some hrow
  have pushed : Evolves Calm {sessionId} {selected} {d.terminalId} s (s.pushTerminal r) := by
    refine .pushTerminal (Set.mem_singleton d.terminalId) fresh.terminal Nat.one_pos rfl ?_
    intro wf
    exact ⟨selected, row, rfl, hid ▸ wf.getTab_of_mem htab, hsess, hopen⟩
  have found : (s.pushTerminal r).getTerminal d.terminalId = some r :=
    (findRow_push (r := r) fresh.terminal _).trans (if_pos rfl)
  obtain ⟨m, tabId, -, hm, hmid, -, -, hmtab, -, -, hev, -, -⟩ := selectTerminalInState_some hselect
  -- The terminal found again is the one just pushed.
  have hmr : m = r := by
    have hfound := (pushed.wf wf).getTerminal_of_mem hm
    rw [hmid] at hfound
    exact Option.some.inj (hfound.symm.trans found)
  obtain rfl : selected = tabId := by
    rw [hmr] at hmtab
    exact Option.some.inj hmtab
  refine ⟨selected, hsel, rfl, rfl, rfl, pushed.trans Calm.trans
    (hev.mono (fun _ _ => id) subset_rfl subset_rfl (Set.empty_subset _)), ?_⟩
  exact (hev.terminals.frame _ (Set.notMem_empty _)).trans found

/-- An update finds the row at the revision it expects and rewrites it. -/
theorem updateTerminal_ok {expected : Option ℕ} {update : MuxTerminal → MuxTerminal}
    {r : MuxTerminal} (h : updateTerminal d terminalId expected update s = .ok (r, s')) :
    ∃ r₀, s.getTerminal terminalId = some r₀ ∧ (∀ revision, expected = some revision →
      r₀.revision = revision) ∧ r = stampTerminal d.now (update r₀) ∧
      s' = s.setTerminal terminalId (fun r => stampTerminal d.now (update r)) := by
  rw [updateTerminal] at h
  cases hg : s.getTerminal terminalId with
  | none => simp [hg] at h
  | some r₀ =>
    simp only [hg] at h
    split_ifs at h with hrev
    obtain ⟨r₁, hr₁, rfl, rfl⟩ := findTerminalMut_ok h
    obtain rfl := Option.some.inj (hr₁.symm.trans hg)
    refine ⟨r₁, rfl, ?_, rfl, rfl⟩
    rintro revision rfl
    simpa using hrev

/-- An update that leaves a terminal in its place changes that row only. -/
theorem updateTerminal_evolves {R : Option MuxTerminal → MuxTerminal → Prop} {expected : Option ℕ}
    {update : MuxTerminal → MuxTerminal} {r : MuxTerminal}
    (h : updateTerminal d terminalId expected update s = .ok (r, s'))
    (hid : ∀ r, (update r).id = r.id) (hrev : ∀ r, (update r).revision = r.revision)
    (htab : ∀ r, (update r).tabId = r.tabId) (hsess : ∀ r, (update r).sessionId = r.sessionId)
    (harch : ∀ r, (update r).archivedAt = r.archivedAt)
    (hR : ∀ r, s.getTerminal terminalId = some r → R (some r) (stampTerminal d.now (update r))) :
    Evolves R ∅ ∅ {terminalId} s s' ∧ s'.getTerminal terminalId = some r := by
  obtain ⟨r₀, hr₀, -, rfl, rfl⟩ := updateTerminal_ok h
  refine ⟨.setTerminal_inPlace (Set.mem_singleton _) hid ?_ hR htab hsess
    (fun r hr => (harch r).symm.trans hr), getTerminal_setTerminal_self hid hr₀⟩
  intro r
  simp [hrev]

theorem renameTerminal_evolves {r : MuxTerminal}
    (h : renameTerminal d terminalId title s = .ok (r, s')) :
    Evolves Calm ∅ ∅ {terminalId} s s' ∧ s'.getTerminal terminalId = some r := by
  rw [renameTerminal] at h
  apply updateTerminal_evolves h
  · simp
  · simp
  · simp
  · simp
  · simp
  · simp [Calm]

theorem placeTerminals_evolves {ps : List (String × ℕ)} (h : placeTerminals d.now ps s = .ok s')
    (hM : ∀ p ∈ ps, p.1 ∈ M) : Evolves Calm S T M s s' := by
  induction ps generalizing s with
  | nil =>
    obtain rfl : s = s' := by simpa [placeTerminals] using h
    exact .refl s
  | cons p ps ih =>
    obtain ⟨⟨r, s₁⟩, h₁, h₂⟩ := Except.bind_ok.mp h
    obtain ⟨r₀, hr₀, rfl, rfl⟩ := findTerminalMut_ok h₁
    have head : Evolves Calm S T M s (s.setTerminal p.1 fun r =>
        touchTerminal d.now { r with position := p.2 }) :=
      .setTerminal_inPlace (hM p List.mem_cons_self) (fun _ => rfl) (fun r => Nat.lt_succ_self _)
        (fun r _ => ⟨id, rfl, id⟩) (fun _ => rfl) (fun _ => rfl) (fun _ => id)
    exact head.trans Calm.trans (ih h₂ (fun q hq => hM q (List.mem_cons_of_mem _ hq)))

theorem reorderTerminals_evolves {tab : Option String} {ids : List String} {rs : List MuxTerminal}
    (wf : s.WellFormed) (h : reorderTerminals d sessionId tab ids s = .ok (rs, s')) :
    ∃ selected, Evolves Calm ∅ ∅
        {id | ∃ r, s.getTerminal id = some r ∧ r.tabId = some selected ∧ r.archivedAt = none} s s' ∧
      rs = orderedTerminals s' selected false := by
  simp only [reorderTerminals] at h
  cases hsel : selectedTab s sessionId tab with
  | none => simp [hsel] at h
  | some selected =>
    simp only [hsel] at h
    split_ifs at h
    obtain ⟨u, hperm, h⟩ := Except.bind_ok.mp h
    obtain ⟨s₁, hplace, h⟩ := Except.bind_ok.mp h
    obtain ⟨rfl, rfl⟩ : orderedTerminals s₁ selected false = rs ∧ s₁ = s' := by
      simpa [pure, Except.pure] using h
    refine ⟨selected, placeTerminals_evolves hplace ?_, rfl⟩
    intro p hp
    have hmem : p.1 ∈ ids := List.fst_mem_of_mem_zipIdx hp
    rw [assertPermutation_mem hperm, List.mem_map] at hmem
    obtain ⟨r, hr, hid⟩ := hmem
    obtain ⟨hrs, htab, harch⟩ := mem_orderedTerminals.mp hr
    exact ⟨r, hid ▸ wf.getTerminal_of_mem hrs, htab, listed_false.mp harch⟩

end Terminals
end PiDeck.Mux
