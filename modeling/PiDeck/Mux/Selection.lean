import Mathlib
import PiDeck.Transition.Machine
import PiDeck.Mux.Writes

/-! What the catalog points at. The active tab of a session is an open tab of it, the focused
terminal of a session is an open terminal of its active tab, the focused terminal of an open tab is
an open terminal of that tab, and some session is open. -/
namespace PiDeck.Mux
open PiDeck.Collections PiDeck.Transition PersistedState

namespace PersistedState
variable {s s' : PersistedState} {id : String}

/-- `terminalId` names an open terminal of the tab. -/
def Focusable (s : PersistedState) (tabId terminalId : String) : Prop :=
  ∃ m, s.getTerminal terminalId = some m ∧ m.tabId = some tabId ∧ m.archivedAt = none

/-- `tabId` names an open tab of the session. -/
def Selectable (s : PersistedState) (sessionId tabId : String) : Prop :=
  ∃ tab, s.getTab tabId = some tab ∧ tab.sessionId = sessionId ∧ tab.archivedAt = none

structure SessionPoints (s : PersistedState) (r : AppSession) : Prop where
  tab : ∀ t, r.activeTabId = some t → s.Selectable r.id t
  terminal : ∀ m, r.activeMuxTerminalId = some m → ∃ t, r.activeTabId = some t ∧ s.Focusable t m

def TabPoints (s : PersistedState) (r : SessionTab) : Prop :=
  r.archivedAt = none → ∀ m, r.activeMuxTerminalId = some m → s.Focusable r.id m

/-- The pointers of the catalog. -/
structure Selected (s : PersistedState) : Prop where
  sessions : ∀ id r, s.getSession id = some r → s.SessionPoints r
  tabs : ∀ id r, s.getTab id = some r → s.TabPoints r
  visible : ∃ id r, s.getSession id = some r ∧ r.archivedAt = none

theorem SessionPoints.mono {r : AppSession} (h : s.SessionPoints r)
    (ht : ∀ t, s.Selectable r.id t → s'.Selectable r.id t)
    (hm : ∀ t m, s.Selectable r.id t → s.Focusable t m → s'.Focusable t m) : s'.SessionPoints r where
  tab t h₁ := ht t (h.tab t h₁)
  terminal m h₁ := by
    obtain ⟨t, h₂, h₃⟩ := h.terminal m h₁
    exact ⟨t, h₂, hm t m (h.tab t h₂) h₃⟩

/-- The same pointers in another row of the session. -/
theorem SessionPoints.congr {r r' : AppSession} (h : s.SessionPoints r) (hid : r'.id = r.id)
    (htab : r'.activeTabId = r.activeTabId)
    (hterm : r'.activeMuxTerminalId = r.activeMuxTerminalId) : s.SessionPoints r' where
  tab t h₁ := hid ▸ h.tab t (htab ▸ h₁)
  terminal m h₁ := by
    obtain ⟨t, h₂, h₃⟩ := h.terminal m (hterm ▸ h₁)
    exact ⟨t, htab.trans h₂, h₃⟩

theorem SessionPoints.of_none {r : AppSession} (htab : r.activeTabId = none)
    (hterm : r.activeMuxTerminalId = none) : s.SessionPoints r where
  tab t h := by cases htab.symm.trans h
  terminal m h := by cases hterm.symm.trans h

end PersistedState
open PersistedState

namespace PersistedState.Selected
variable {s s' : PersistedState} {id : String}

/-- A session row rewritten to valid pointers. -/
theorem setSession {f : AppSession → AppSession} (sel : s.Selected) (hid : ∀ r, (f r).id = r.id)
    (hf : ∀ r, s.getSession id = some r → s.SessionPoints (f r))
    (hvis : ∃ k r, (s.setSession id f).getSession k = some r ∧ r.archivedAt = none) :
    (s.setSession id f).Selected where
  sessions k r hr := by
    rw [getSession_setSession hid] at hr
    split_ifs at hr with hk
    · obtain ⟨r₀, hr₀, rfl⟩ := Option.map_eq_some_iff.mp hr
      exact (hf r₀ hr₀).mono (fun _ h => h) (fun _ _ _ h => h)
    · exact (sel.sessions k r hr).mono (fun _ h => h) (fun _ _ _ h => h)
  tabs k r hr := sel.tabs k r hr
  visible := hvis

/-- A session row rewritten without archiving it. -/
theorem setSession_open {f : AppSession → AppSession} (sel : s.Selected)
    (hid : ∀ r, (f r).id = r.id) (hopen : ∀ r, r.archivedAt = none → (f r).archivedAt = none)
    (hf : ∀ r, s.getSession id = some r → s.SessionPoints (f r)) :
    (s.setSession id f).Selected := by
  apply setSession sel hid hf
  obtain ⟨k, r, hr, ha⟩ := sel.visible
  by_cases hk : k = id
  · subst hk
    exact ⟨k, f r, getSession_setSession_self hid hr, hopen r ha⟩
  · exact ⟨k, r, by rw [getSession_setSession hid, if_neg hk, hr], ha⟩

/-- A tab row rewritten in its session, to a valid pointer. -/
theorem setTab {f : SessionTab → SessionTab} (sel : s.Selected) (hid : ∀ r, (f r).id = r.id)
    (hsess : ∀ r, (f r).sessionId = r.sessionId) (harch : ∀ r, (f r).archivedAt = r.archivedAt)
    (hf : ∀ r, s.getTab id = some r → s.TabPoints (f r)) : (s.setTab id f).Selected where
  sessions k r hr := by
    refine (sel.sessions k r hr).mono ?_ (fun _ _ _ h => h)
    rintro t ⟨tab, htab, h₁, h₂⟩
    by_cases ht : t = id
    · subst ht
      exact ⟨f tab, getTab_setTab_self hid htab, (hsess tab).trans h₁, (harch tab).trans h₂⟩
    · exact ⟨tab, by rw [getTab_setTab hid, if_neg ht, htab], h₁, h₂⟩
  tabs k r hr := by
    rw [getTab_setTab hid] at hr
    split_ifs at hr with hk
    · obtain ⟨r₀, hr₀, rfl⟩ := Option.map_eq_some_iff.mp hr
      exact hf r₀ hr₀
    · exact sel.tabs k r hr
  visible := sel.visible

/-- A tab row rewritten without moving its pointer. -/
theorem setTab_keep {f : SessionTab → SessionTab} (sel : s.Selected) (hid : ∀ r, (f r).id = r.id)
    (hsess : ∀ r, (f r).sessionId = r.sessionId) (harch : ∀ r, (f r).archivedAt = r.archivedAt)
    (hterm : ∀ r, (f r).activeMuxTerminalId = r.activeMuxTerminalId) : (s.setTab id f).Selected := by
  apply setTab sel hid hsess harch
  intro r hr ha m hm
  rw [hid]
  exact sel.tabs id r hr ((harch r).symm.trans ha) m ((hterm r).symm.trans hm)

/-- A terminal rewritten where it is. -/
theorem setTerminal {f : MuxTerminal → MuxTerminal} (sel : s.Selected) (hid : ∀ r, (f r).id = r.id)
    (htab : ∀ r, (f r).tabId = r.tabId) (harch : ∀ r, (f r).archivedAt = r.archivedAt) :
    (s.setTerminal id f).Selected := by
  have focus : ∀ t m, s.Focusable t m → (s.setTerminal id f).Focusable t m := by
    rintro t m ⟨r, hr, h₁, h₂⟩
    by_cases hm : m = id
    · subst hm
      exact ⟨f r, getTerminal_setTerminal_self hid hr, (htab r).trans h₁, (harch r).trans h₂⟩
    · exact ⟨r, by rw [getTerminal_setTerminal hid, if_neg hm, hr], h₁, h₂⟩
  exact ⟨fun k r hr => (sel.sessions k r hr).mono (fun _ h => h) (fun t m _ => focus t m),
    fun k r hr ha m hm => focus _ _ (sel.tabs k r hr ha m hm), sel.visible⟩

theorem pushTab {r : SessionTab} (sel : s.Selected) (fresh : s.getTab r.id = none)
    (hterm : r.activeMuxTerminalId = none) : (s.pushTab r).Selected := by
  have lookup : ∀ k, (s.pushTab r).getTab k = if k = r.id then some r else s.getTab k :=
    findRow_push fresh
  refine ⟨fun k q hq => (sel.sessions k q hq).mono ?_ (fun _ _ _ h => h), ?_, sel.visible⟩
  · rintro t ⟨tab, htab, h⟩
    have hne : t ≠ r.id := fun e => by rw [e, fresh] at htab; cases htab
    exact ⟨tab, by rw [lookup, if_neg hne, htab], h⟩
  · intro k q hq
    rw [lookup] at hq
    split_ifs at hq
    · obtain rfl := Option.some.inj hq
      intro _ m hm
      cases hterm.symm.trans hm
    · exact sel.tabs k q hq

theorem pushTerminal {r : MuxTerminal} (sel : s.Selected) (fresh : s.getTerminal r.id = none) :
    (s.pushTerminal r).Selected := by
  have focus : ∀ t m, s.Focusable t m → (s.pushTerminal r).Focusable t m := by
    rintro t m ⟨q, hq, h⟩
    have hne : m ≠ r.id := fun e => by rw [e, fresh] at hq; cases hq
    exact ⟨q, (findRow_push fresh m).trans ((if_neg hne).trans hq), h⟩
  exact ⟨fun k r hr => (sel.sessions k r hr).mono (fun _ h => h) (fun t m _ => focus t m),
    fun k r hr ha m hm => focus _ _ (sel.tabs k r hr ha m hm), sel.visible⟩

/-- A session pushed with its first window. The other sessions need not be open. -/
theorem addSession {d : Draw} {title title' : String} {position : ℕ}
    (hsessions : ∀ id r, s.getSession id = some r → s.SessionPoints r)
    (htabs : ∀ id r, s.getTab id = some r → s.TabPoints r) (fresh : d.Fresh s) :
    ((s.pushSession (newSession d title position)).pushTab
      (newTab d d.sessionId title' 0)).Selected := by
  have lookupS : ∀ k, ((s.pushSession (newSession d title position)).pushTab
      (newTab d d.sessionId title' 0)).getSession k =
        if k = d.sessionId then some (newSession d title position) else s.getSession k :=
    findRow_push (r := newSession d title position) fresh.session
  have lookupT : ∀ k, ((s.pushSession (newSession d title position)).pushTab
      (newTab d d.sessionId title' 0)).getTab k =
        if k = d.tabId then some (newTab d d.sessionId title' 0) else s.getTab k :=
    findRow_push (r := newTab d d.sessionId title' 0) fresh.tab
  refine ⟨?_, ?_, ⟨d.sessionId, newSession d title position, by rw [lookupS, if_pos rfl], rfl⟩⟩
  · intro k r hr
    rw [lookupS] at hr
    split_ifs at hr with hk
    · obtain rfl := Option.some.inj hr
      refine ⟨?_, fun m hm => by cases hm⟩
      intro t ht
      obtain rfl : d.tabId = t := Option.some.inj ht
      exact ⟨newTab d d.sessionId title' 0, by rw [lookupT, if_pos rfl], rfl, rfl⟩
    · refine (hsessions k r hr).mono ?_ (fun _ _ _ h => h)
      rintro t ⟨tab, htab, h⟩
      have hne : t ≠ d.tabId := fun e => by rw [e, fresh.tab] at htab; cases htab
      exact ⟨tab, by rw [lookupT, if_neg hne, htab], h⟩
  · intro k r hr
    rw [lookupT] at hr
    split_ifs at hr with hk
    · obtain rfl := Option.some.inj hr
      intro _ m hm
      cases hm
    · exact htabs k r hr

theorem placeSessions {now : String} {ps : List (String × ℕ)} (sel : s.Selected)
    (h : placeSessions now ps s = .ok s') : s'.Selected := by
  induction ps generalizing s with
  | nil =>
    obtain rfl : s = s' := by simpa [Mux.placeSessions] using h
    exact sel
  | cons p ps ih =>
    obtain ⟨⟨r, s₁⟩, h₁, h₂⟩ := Except.bind_ok.mp h
    obtain ⟨r₀, hr₀, rfl, rfl⟩ := findSessionMut_ok h₁
    refine ih ?_ h₂
    exact sel.setSession_open (fun _ => rfl) (fun _ ha => ha)
      (fun r hr => (sel.sessions _ r hr).congr rfl rfl rfl)

theorem placeTabs {now : String} {ps : List (String × ℕ)} (sel : s.Selected)
    (h : placeTabs now ps s = .ok s') : s'.Selected := by
  induction ps generalizing s with
  | nil =>
    obtain rfl : s = s' := by simpa [Mux.placeTabs] using h
    exact sel
  | cons p ps ih =>
    obtain ⟨⟨r, s₁⟩, h₁, h₂⟩ := Except.bind_ok.mp h
    obtain ⟨r₀, hr₀, rfl, rfl⟩ := findTabMut_ok h₁
    refine ih ?_ h₂
    exact sel.setTab_keep (fun _ => rfl) (fun _ => rfl) (fun _ => rfl) (fun _ => rfl)

theorem placeTerminals {now : String} {ps : List (String × ℕ)} (sel : s.Selected)
    (h : placeTerminals now ps s = .ok s') : s'.Selected := by
  induction ps generalizing s with
  | nil =>
    obtain rfl : s = s' := by simpa [Mux.placeTerminals] using h
    exact sel
  | cons p ps ih =>
    obtain ⟨⟨r, s₁⟩, h₁, h₂⟩ := Except.bind_ok.mp h
    obtain ⟨r₀, hr₀, rfl, rfl⟩ := findTerminalMut_ok h₁
    refine ih ?_ h₂
    exact sel.setTerminal (fun _ => rfl) (fun _ => rfl) (fun _ => rfl)

variable {d : Draw} {sessionId tabId terminalId title : String}

/-- Selecting a terminal repairs the pointers of its session and its tab, whatever they were. -/
theorem selectTerminal_repairs {r : AppSession} (wf : s.WellFormed)
    (hsessions : ∀ k r, k ≠ sessionId → s.getSession k = some r → s.SessionPoints r)
    (htabs : ∀ k r, (∀ m, s.getTerminal terminalId = some m → m.tabId ≠ some k) →
      s.getTab k = some r → s.TabPoints r)
    (hvis : ∃ k r, s.getSession k = some r ∧ r.archivedAt = none)
    (h : selectTerminalInState d sessionId (some terminalId) s = .ok (r, s')) : s'.Selected := by
  obtain ⟨m, tabId, tab, session, hm, rfl, rfl, harch, htab, htabRow, hsession, -, rfl⟩ :=
    selectTerminalInState_ok h
  have hget := wf.getTerminal_of_mem hm
  obtain ⟨tabId', tab', htab', htabRow', hsess, hopen⟩ := wf.placed _ _ hget harch
  obtain rfl := Option.some.inj (htab.symm.trans htab')
  obtain rfl := Option.some.inj (htabRow.symm.trans htabRow')
  have select : ∀ k t, s.Selectable k t → (s.setTab tabId fun r =>
      touchTab d.now { r with activeMuxTerminalId := some m.id }).Selectable k t := by
    rintro k t ⟨row, hrow, h₁, h₂⟩
    by_cases ht : t = tabId
    · subst ht
      exact ⟨_, getTab_setTab_self (fun _ => rfl) hrow, h₁, h₂⟩
    · refine ⟨row, ?_, h₁, h₂⟩
      rw [getTab_setTab (fun _ => by rfl), if_neg ht, hrow]
  have focus : s.Focusable tabId m.id := ⟨m, hget, htab, harch⟩
  refine ⟨?_, ?_, ?_⟩
  · intro k r hr
    rw [getSession_setSession (fun _ => by rfl)] at hr
    split_ifs at hr with hk
    · obtain ⟨r₀, hr₀, rfl⟩ := Option.map_eq_some_iff.mp hr
      refine ⟨?_, ?_⟩
      · rintro t ht
        obtain rfl : tabId = t := Option.some.inj ht
        exact select _ _ ⟨tab, htabRow, hsess.trans (getSession_id hr₀).symm, hopen⟩
      · rintro t ht
        obtain rfl : m.id = t := Option.some.inj ht
        exact ⟨tabId, rfl, focus⟩
    · exact (hsessions k r hk hr).mono (fun t => select _ t) (fun _ _ _ h => h)
  · intro k r hr
    rw [getTab_setSession, getTab_setTab (fun _ => by rfl)] at hr
    split_ifs at hr with hk
    · obtain ⟨r₀, hr₀, rfl⟩ := Option.map_eq_some_iff.mp hr
      intro _ t ht
      obtain rfl : m.id = t := Option.some.inj ht
      have hid : r₀.id = tabId := getTab_id hr₀
      exact hid.symm ▸ focus
    · refine htabs k r ?_ hr
      intro m' hm' he
      obtain rfl := Option.some.inj (hget.symm.trans hm')
      exact hk (Option.some.inj (he.symm.trans htab))
  · obtain ⟨k, r, hr, ha⟩ := hvis
    by_cases hk : k = m.sessionId
    · subst hk
      exact ⟨_, _, getSession_setSession_self (fun _ => rfl) hr, ha⟩
    · exact ⟨k, r, by rw [getSession_setSession (fun _ => by rfl), if_neg hk]; exact hr, ha⟩

theorem selectTerminalInState {terminal : Option String} {r : AppSession} (wf : s.WellFormed)
    (sel : s.Selected) (h : selectTerminalInState d sessionId terminal s = .ok (r, s')) :
    s'.Selected := by
  cases terminal with
  | none =>
    rw [Mux.selectTerminalInState] at h
    obtain ⟨r₀, hr₀, rfl, rfl⟩ := findSessionMut_ok h
    refine sel.setSession_open (fun _ => rfl) (fun _ ha => ha) ?_
    exact fun r hr => ⟨(sel.sessions _ r hr).tab, fun m hm => by cases hm⟩
  | some id =>
    exact selectTerminal_repairs wf (fun k r _ => sel.sessions k r) (fun k r _ => sel.tabs k r)
      sel.visible h

theorem createTerminal {tab : Option String} {input : TerminalInput} {r : MuxTerminal}
    (wf : s.WellFormed) (sel : s.Selected) (fresh : d.Fresh s)
    (h : createTerminal d sessionId tab title input s = .ok (r, s')) : s'.Selected := by
  obtain ⟨selected, row, session, -, hrow, rfl, hselect⟩ := createTerminal_ok h
  set r := newTerminal d sessionId selected title input
    (s.terminals.filter (fun r => r.tabId = some selected && r.archivedAt.isNone)).length
  obtain ⟨htab, hid, hsess, hopen⟩ := findOwnTab_some hrow
  have pushed : Evolves Calm ∅ ∅ {d.terminalId} s (s.pushTerminal r) :=
    .pushTerminal (Set.mem_singleton d.terminalId) fresh.terminal Nat.one_pos rfl
      (fun wf => ⟨selected, row, rfl, hid ▸ wf.getTab_of_mem htab, hsess, hopen⟩)
  exact selectTerminalInState (pushed.wf wf) (sel.pushTerminal fresh.terminal) hselect

/-- The other open terminals of the tab stay where they are when `terminalId` leaves. -/
theorem focusable_of_ne {f : MuxTerminal → MuxTerminal} (hid : ∀ r, (f r).id = r.id) {t m : String}
    (hm : m ≠ terminalId) (h : s.Focusable t m) : (s.setTerminal terminalId f).Focusable t m := by
  obtain ⟨r, hr, h⟩ := h
  exact ⟨r, by rw [getTerminal_setTerminal hid, if_neg hm, hr], h⟩

/-- Only the tab a terminal is in can focus it. -/
theorem ne_of_focusable {current : MuxTerminal} {t m : String} (hcur : s.getTerminal terminalId = some current)
    (ht : current.tabId ≠ some t) (h : s.Focusable t m) : m ≠ terminalId := by
  rintro rfl
  obtain ⟨r, hr, htab, -⟩ := h
  obtain rfl := Option.some.inj (hr.symm.trans hcur)
  exact ht htab

theorem sourceReplacement_focusable (wf : s.WellFormed) {m : String}
    (h : sourceReplacement s terminalId tabId = some m) : m ≠ terminalId ∧ s.Focusable tabId m := by
  obtain ⟨r, hr, rfl⟩ := Option.map_eq_some_iff.mp h
  obtain ⟨hmem, htab, hopen⟩ := mem_orderedTerminals.mp (List.mem_of_find?_eq_some hr)
  exact ⟨by simpa using List.find?_some hr, r, wf.getTerminal_of_mem hmem, htab, listed_false.mp hopen⟩

theorem nextTerminal_focusable (wf : s.WellFormed) {m : String}
    (h : nextTerminal s terminalId tabId = some m) : m ≠ terminalId ∧ s.Focusable tabId m := by
  obtain ⟨r, hr, rfl⟩ := Option.map_eq_some_iff.mp h
  obtain ⟨hmem, hr⟩ := List.mem_filter.mp (List.argmin_mem hr)
  obtain ⟨htab, hne, hopen⟩ : r.tabId = some tabId ∧ r.id ≠ terminalId ∧ r.archivedAt = none := by
    simpa [and_assoc] using hr
  exact ⟨hne, r, wf.getTerminal_of_mem hmem, htab, hopen⟩

theorem moveTerminal {target : String} {r : MuxTerminal} (wf : s.WellFormed) (sel : s.Selected)
    (h : moveTerminal d terminalId target s = .ok (r, s')) : s'.Selected := by
  obtain ⟨current, own, hcur, harch, hown, hownSess, hownOpen, ⟨-, rfl, rfl⟩ |
    ⟨sourceId, source, position, session, htab, hne, hsource, hsourceSess, hsourceOpen, rfl, hselect⟩⟩ :=
    moveTerminal_ok wf h
  · exact sel
  set f : MuxTerminal → MuxTerminal := fun r =>
    touchTerminal d.now { r with tabId := some target, position := position }
  set g := leaveTab d.now terminalId (sourceReplacement s terminalId sourceId) with hg
  have wf₂ : ((s.setTerminal terminalId f).setTab sourceId g).WellFormed := by
    have move : Evolves Calm ∅ ∅ {terminalId} s (s.setTerminal terminalId f) := by
      refine .setTerminal (Set.mem_singleton _) (fun _ => rfl) (fun r => Nat.lt_succ_self _)
        (fun r _ => ⟨id, rfl, id⟩) ?_
      intro _ r hr _
      obtain rfl := Option.some.inj (hr.symm.trans hcur)
      exact ⟨target, own, rfl, hown, hownSess, hownOpen⟩
    have leave : Evolves Calm ∅ {sourceId} ∅ (s.setTerminal terminalId f)
        ((s.setTerminal terminalId f).setTab sourceId g) :=
      .setTab (Set.mem_singleton _) (fun _ => leaveTab_id) (fun _ => .inr (by simp [hg]))
        (fun _ => leaveTab_sessionId) (fun _ => leaveTab_archivedAt)
    exact leave.wf (move.wf wf)
  have focus : ∀ t m, m ≠ terminalId → s.Focusable t m →
      ((s.setTerminal terminalId f).setTab sourceId g).Focusable t m :=
    fun t m hm h => focusable_of_ne (f := f) (fun _ => rfl) hm h
  have lookup : ∀ k, ((s.setTerminal terminalId f).setTab sourceId g).getTab k =
      if k = sourceId then (s.getTab sourceId).map g else s.getTab k :=
    fun k => getTab_setTab (fun _ => leaveTab_id)
  apply selectTerminal_repairs wf₂ ?_ ?_ sel.visible hselect
  · -- Another session keeps its tab, and its focused terminal is another one.
    intro k r hk hr
    refine (sel.sessions k r hr).mono ?_ ?_
    · rintro t ⟨tab, htabRow, hs, ho⟩
      by_cases ht : t = sourceId
      · subst ht
        exact ⟨g tab, by rw [lookup, if_pos rfl, htabRow]; rfl, leaveTab_sessionId.trans hs,
          leaveTab_archivedAt.trans ho⟩
      · exact ⟨tab, by rw [lookup, if_neg ht, htabRow], hs, ho⟩
    · rintro t m ⟨tab, htabRow, hs, -⟩ hm
      refine focus t m (ne_of_focusable hcur ?_ hm) hm
      rintro he
      obtain rfl := Option.some.inj (htab.symm.trans he)
      obtain rfl := Option.some.inj (htabRow.symm.trans hsource)
      exact hk ((getSession_id hr).symm.trans (hs.symm.trans hsourceSess))
  · -- The source tab falls back to another of its terminals; other tabs keep theirs.
    intro k r hk hr
    rw [lookup] at hr
    split_ifs at hr with hks
    · subst hks
      obtain ⟨r₀, hr₀, rfl⟩ := Option.map_eq_some_iff.mp hr
      intro ha m hm
      rw [hg, leaveTab_id]
      have hid : r₀.id = k := getTab_id hr₀
      simp only [hg, leaveTab, touchTab] at hm
      split_ifs at hm with hfocus
      · obtain ⟨hne', hfoc⟩ := sourceReplacement_focusable wf hm
        exact hid.symm ▸ focus _ _ hne' hfoc
      · exact focus _ _ (fun e => hfocus (e ▸ hm))
          (sel.tabs _ _ hr₀ (leaveTab_archivedAt.symm.trans ha) m hm)
    · intro ha m hm
      have hfoc := sel.tabs k r hr ha m hm
      refine focus _ _ (ne_of_focusable hcur ?_ hfoc) hfoc
      rintro he
      obtain rfl := Option.some.inj (htab.symm.trans he)
      exact hks (getTab_id hr).symm

theorem closeTerminal {stop : Bool} {result : CloseTerminalResult} (wf : s.WellFormed)
    (sel : s.Selected) (h : closeTerminal d terminalId stop s = .ok (result, s')) : s'.Selected := by
  obtain ⟨current, hcur, ⟨-, rfl, -⟩ | ⟨tabId, tab, session, hopen, htab, htabRow, htabSess, htabOpen,
    hsession, -, rfl⟩⟩ := closeTerminal_ok wf h
  · exact sel
  set next := nextTerminal s terminalId tabId with hnext
  have focus : ∀ t m, m ≠ terminalId → s.Focusable t m → (((s.setTerminal terminalId
      (archiveRow d.now stop)).setTab tabId (refocusTab d.now terminalId next)).setSession
        current.sessionId (refocusSession d.now terminalId next)).Focusable t m :=
    fun t m hm h => focusable_of_ne (fun _ => archiveRow_id) hm h
  have lookupT : ∀ k, (((s.setTerminal terminalId (archiveRow d.now stop)).setTab tabId
      (refocusTab d.now terminalId next)).setSession current.sessionId
        (refocusSession d.now terminalId next)).getTab k =
      if k = tabId then (s.getTab tabId).map (refocusTab d.now terminalId next) else s.getTab k :=
    fun k => getTab_setTab (fun _ => refocusTab_id)
  have lookupS : ∀ k, (((s.setTerminal terminalId (archiveRow d.now stop)).setTab tabId
      (refocusTab d.now terminalId next)).setSession current.sessionId
        (refocusSession d.now terminalId next)).getSession k =
      if k = current.sessionId then (s.getSession current.sessionId).map
        (refocusSession d.now terminalId next) else s.getSession k :=
    fun k => getSession_setSession (fun _ => refocusSession_id)
  have select : ∀ k t, s.Selectable k t → (((s.setTerminal terminalId
      (archiveRow d.now stop)).setTab tabId (refocusTab d.now terminalId next)).setSession
        current.sessionId (refocusSession d.now terminalId next)).Selectable k t := by
    rintro k t ⟨row, hrow, hs, ho⟩
    by_cases ht : t = tabId
    · subst ht
      exact ⟨_, by rw [lookupT, if_pos rfl, hrow]; rfl, refocusTab_sessionId.trans hs,
        refocusTab_archivedAt.trans ho⟩
    · exact ⟨row, by rw [lookupT, if_neg ht, hrow], hs, ho⟩
  refine ⟨?_, ?_, ?_⟩
  · intro k r hr
    rw [lookupS] at hr
    split_ifs at hr with hk
    · obtain ⟨r₀, hr₀, rfl⟩ := Option.map_eq_some_iff.mp hr
      have points := sel.sessions _ _ hr₀
      simp only [refocusSession]
      split_ifs with hfocus
      · -- The focused terminal was in the active tab, where the next one is.
        refine ⟨fun t ht => select _ _ (points.tab t ht), ?_⟩
        intro m hm
        obtain ⟨t, ht, q, hq, hqtab, -⟩ := points.terminal _ hfocus
        obtain rfl := Option.some.inj (hq.symm.trans hcur)
        obtain rfl := Option.some.inj (htab.symm.trans hqtab)
        obtain ⟨hne, hfoc⟩ := nextTerminal_focusable wf hm
        exact ⟨tabId, ht, focus _ _ hne hfoc⟩
      · refine ⟨fun t ht => select _ _ (points.tab t ht), ?_⟩
        intro m hm
        obtain ⟨t, ht, hfoc⟩ := points.terminal m hm
        exact ⟨t, ht, focus _ _ (fun e => hfocus (e ▸ hm)) hfoc⟩
    · refine (sel.sessions k r hr).mono (fun t => select _ t) ?_
      rintro t m ⟨row, hrow, hs, -⟩ hfoc
      refine focus t m (ne_of_focusable hcur ?_ hfoc) hfoc
      rintro he
      obtain rfl := Option.some.inj (htab.symm.trans he)
      obtain rfl := Option.some.inj (hrow.symm.trans htabRow)
      exact hk ((getSession_id hr).symm.trans (hs.symm.trans htabSess))
  · intro k r hr
    rw [lookupT] at hr
    split_ifs at hr with hk
    · obtain ⟨r₀, hr₀, rfl⟩ := Option.map_eq_some_iff.mp hr
      have hid : r₀.id = tabId := getTab_id hr₀
      intro ha m hm
      rw [refocusTab_id]
      simp only [refocusTab] at hm
      split_ifs at hm with hfocus
      · obtain ⟨hne, hfoc⟩ := nextTerminal_focusable wf hm
        exact hid.symm ▸ focus _ _ hne hfoc
      · exact focus _ _ (fun e => hfocus (e ▸ hm))
          (sel.tabs _ _ hr₀ (refocusTab_archivedAt.symm.trans ha) m hm)
    · intro ha m hm
      have hfoc := sel.tabs k r hr ha m hm
      refine focus _ _ (ne_of_focusable hcur ?_ hfoc) hfoc
      rintro he
      obtain rfl := Option.some.inj (htab.symm.trans he)
      exact hk (getTab_id hr).symm
  · obtain ⟨k, r, hr, ha⟩ := sel.visible
    by_cases hk : k = current.sessionId
    · subst hk
      refine ⟨_, _, by rw [lookupS, if_pos rfl, hr]; rfl, ?_⟩
      simp only [refocusSession]
      split_ifs
      · exact ha
      · exact ha
    · exact ⟨k, r, by rw [lookupS, if_neg hk, hr], ha⟩

section CloseTab
variable {current : SessionTab} {stop : Bool}

theorem sweepTab_focusable {t m : String} (ht : t ≠ tabId) (h : s.Focusable t m) :
    (sweepTab d tabId sessionId stop s).Focusable t m := by
  obtain ⟨r, hr, htab, hopen⟩ := h
  have hout : inTab tabId r = false := by
    simp only [inTab, htab, hopen, Option.some.injEq, Option.isNone_none, Bool.and_true]
    simpa using ht
  refine ⟨r, ?_, htab, hopen⟩
  rw [getTerminal_sweepTab, hr]
  simp [sweepTerminal, hout]

/-- Every open tab of the swept catalog focuses one of its open terminals, or none. -/
theorem sweepTab_points (sel : s.Selected) (fresh : d.Fresh s) (k : String) (r : SessionTab)
    (hr : (sweepTab d tabId sessionId stop s).getTab k = some r) :
    (sweepTab d tabId sessionId stop s).TabPoints r := by
  rw [getTab_sweepTab fresh.tab] at hr
  split_ifs at hr with h₁ h₂
  · obtain rfl := Option.some.inj hr
    intro _ m hm
    cases hm
  · obtain ⟨r₀, hr₀, rfl⟩ := Option.map_eq_some_iff.mp hr
    intro ha
    exact absurd ha archiveTabRow_archived
  · intro ha m hm
    refine sweepTab_focusable ?_ (sel.tabs k r hr ha m hm)
    rw [getTab_id hr]
    exact h₂

theorem closeTab {result : CloseTabResult} (wf : s.WellFormed) (sel : s.Selected)
    (fresh : d.Fresh s) (h : closeTab d tabId stop s = .ok (result, s')) : s'.Selected := by
  obtain ⟨current, session, hcur, hsession, -, rfl⟩ := closeTab_ok h
  set next := nextTab (sweepTab d tabId current.sessionId stop s) current.sessionId with hnext
  have wf' := (sweepTab_evolves stop wf fresh hcur).wf wf
  have select : ∀ k t, t ≠ tabId → s.Selectable k t →
      (sweepTab d tabId current.sessionId stop s).Selectable k t := by
    rintro k t ht ⟨row, hrow, h⟩
    have hne : t ≠ d.tabId := fun e => by rw [e, fresh.tab] at hrow; cases hrow
    exact ⟨row, by rw [getTab_sweepTab fresh.tab, if_neg (fun h => hne h.1), if_neg ht, hrow], h⟩
  refine ⟨?_, fun k r hr => sweepTab_points sel fresh k r hr, ?_⟩
  · intro k r hr
    rw [getSession_setSession (fun _ => reselectSession_id)] at hr
    suffices hpoints : (sweepTab d tabId current.sessionId stop s).SessionPoints r from
      hpoints.mono (fun _ h => h) (fun _ _ _ h => h)
    split_ifs at hr with hk
    · obtain ⟨r₀, hr₀, rfl⟩ := Option.map_eq_some_iff.mp hr
      have hr₀' : s.getSession current.sessionId = some r₀ := hr₀
      have points := sel.sessions _ _ hr₀'
      simp only [reselectSession]
      split_ifs with hactive
      · -- The session falls back to its first open tab and what that tab focuses.
        refine ⟨?_, ?_⟩
        · intro t ht
          obtain ⟨tab, htab, rfl⟩ := Option.map_eq_some_iff.mp ht
          obtain ⟨hmem, hopen⟩ := List.mem_filter.mp (List.argmin_mem htab)
          obtain ⟨hsess, harch⟩ : tab.sessionId = current.sessionId ∧ tab.archivedAt = none := by
            simpa using hopen
          exact ⟨tab, wf'.getTab_of_mem hmem, hsess.trans (getSession_id hr₀').symm, harch⟩
        · intro m hm
          obtain ⟨tab, htab, hfocus⟩ := Option.bind_eq_some_iff.mp hm
          obtain ⟨hmem, hopen⟩ := List.mem_filter.mp (List.argmin_mem htab)
          obtain ⟨-, harch⟩ : tab.sessionId = current.sessionId ∧ tab.archivedAt = none := by
            simpa using hopen
          refine ⟨tab.id, ?_, sweepTab_points sel fresh _ _ (wf'.getTab_of_mem hmem) harch m hfocus⟩
          exact congrArg (Option.map SessionTab.id) htab
      · refine ⟨fun t ht => select _ t (fun e => hactive (e ▸ ht)) (points.tab t ht), ?_⟩
        intro m hm
        obtain ⟨t, ht, hfocus⟩ := points.terminal m hm
        exact ⟨t, ht, sweepTab_focusable (fun e => hactive (e ▸ ht)) hfocus⟩
    · -- The closed tab is not of this session.
      have hr' : s.getSession k = some r := hr
      have other : ∀ t, s.Selectable r.id t → t ≠ tabId := by
        rintro t ⟨row, hrow, hs, -⟩ rfl
        obtain rfl := Option.some.inj (hrow.symm.trans hcur)
        exact hk ((getSession_id hr').symm.trans hs.symm)
      exact (sel.sessions k r hr').mono (fun t ht => select _ t (other t ht) ht)
        (fun t m ht hfocus => sweepTab_focusable (other t ht) hfocus)
  · obtain ⟨k, r, hr, ha⟩ := sel.visible
    by_cases hk : k = current.sessionId
    · subst hk
      refine ⟨_, _, getSession_setSession_self (fun _ => reselectSession_id) hr, ?_⟩
      simp only [reselectSession]
      split_ifs
      · exact ha
      · exact ha
    · exact ⟨k, r, by rw [getSession_setSession (fun _ => reselectSession_id), if_neg hk]; exact hr, ha⟩

end CloseTab

theorem ensureVisibleSession (wf : s.WellFormed) (fresh : d.Fresh s)
    (hsessions : ∀ id r, s.getSession id = some r → s.SessionPoints r)
    (htabs : ∀ id r, s.getTab id = some r → s.TabPoints r) :
    (ensureVisibleSession d s).Selected := by
  rw [Mux.ensureVisibleSession]
  split_ifs with hany
  · obtain ⟨r, hr, ha⟩ := List.any_eq_true.mp hany
    exact ⟨hsessions, htabs, r.id, r, wf.getSession_of_mem hr, by simpa using ha⟩
  · exact addSession hsessions htabs fresh

theorem archiveSession {r : AppSession} (wf : s.WellFormed) (sel : s.Selected) (fresh : d.Fresh s)
    (h : archiveSession d sessionId s = .ok (r, s')) : s'.Selected := by
  obtain ⟨⟨archived, s₁⟩, h₁, h⟩ := Except.bind_ok.mp h
  obtain ⟨rfl, rfl⟩ : archived = r ∧ Mux.ensureVisibleSession d s₁ = s' := by
    simpa [pure, Except.pure] using h
  obtain ⟨e, -⟩ := findSessionMut_evolves (R := Calm) (S := {sessionId}) (T := ∅) (M := ∅) h₁
    (Set.mem_singleton _) (fun r => by split_ifs <;> rfl) (fun r => by
      split_ifs
      · exact .inr (touchSession_rev rfl)
      · exact .inl rfl)
  obtain ⟨r₀, hr₀, -, rfl⟩ := findSessionMut_ok h₁
  have hid : ∀ r : AppSession, (if r.archivedAt.isNone then
      touchSession d.now { r with archivedAt := some d.now } else r).id = r.id :=
    fun r => by split_ifs <;> rfl
  have hne : d.sessionId ≠ sessionId := fun he => by
    have := fresh.session
    rw [he, hr₀] at this
    cases this
  refine ensureVisibleSession (e.wf wf) ⟨?_, fresh.tab, fresh.terminal⟩ ?_ (fun k r hr => sel.tabs k r hr)
  · rw [getSession_setSession hid, if_neg hne]
    exact fresh.session
  · intro k r hr
    rw [getSession_setSession hid] at hr
    split_ifs at hr with hk
    · obtain ⟨q, hq, rfl⟩ := Option.map_eq_some_iff.mp hr
      refine ((sel.sessions _ _ hq).congr (hid q) ?_ ?_).mono (fun _ h => h) (fun _ _ _ h => h)
      · split_ifs <;> rfl
      · split_ifs <;> rfl
    · exact (sel.sessions k r hr).mono (fun _ h => h) (fun _ _ _ h => h)

theorem createTab {r : SessionTab} (sel : s.Selected) (fresh : d.Fresh s)
    (h : createTab d sessionId title s = .ok (r, s')) : s'.Selected := by
  rw [Mux.createTab] at h
  split_ifs at h
  obtain ⟨⟨session, s₁⟩, h₁, h⟩ := Except.bind_ok.mp h
  obtain ⟨rfl, rfl⟩ := by simpa only [pure, Except.pure, Except.ok.injEq, Prod.mk.injEq] using h
  obtain ⟨r₀, hr₀, -, rfl⟩ := findSessionMut_ok h₁
  have sel₁ := sel.pushTab (r := newTab d sessionId (nonempty title "New tab")
    ((s.tabs.filter (fun r => r.sessionId = sessionId && r.archivedAt.isNone)).length)) fresh.tab rfl
  refine sel₁.setSession_open (fun r => by split_ifs <;> rfl) (fun r ha => by split_ifs <;> exact ha) ?_
  intro r hr
  split_ifs with hnone
  · -- A session without an active tab has no focused terminal either.
    refine ⟨?_, ?_⟩
    · intro t ht
      obtain rfl : d.tabId = t := Option.some.inj ht
      exact ⟨newTab d sessionId _ _, (findRow_push (r := newTab d sessionId _ _) fresh.tab _).trans
        (if_pos rfl), (getSession_id hr).symm, rfl⟩
    · intro m hm
      obtain ⟨t, ht, -⟩ := (sel₁.sessions _ r hr).terminal m hm
      rw [ht] at hnone
      cases hnone
  · exact sel₁.sessions _ r hr

theorem selectTab {tab : Option String} {r : AppSession} (wf : s.WellFormed) (sel : s.Selected)
    (h : selectTab d sessionId tab s = .ok (r, s')) : s'.Selected := by
  cases tab with
  | none =>
    obtain ⟨r₀, hr₀, rfl, rfl⟩ := findSessionMut_ok h
    exact sel.setSession_open (fun _ => rfl) (fun _ ha => ha) (fun r _ => .of_none rfl rfl)
  | some tabId =>
    simp only [Mux.selectTab] at h
    cases hf : findOwnTab s sessionId tabId with
    | none => simp [hf] at h
    | some row =>
      simp only [hf] at h
      obtain ⟨r₀, hr₀, rfl, rfl⟩ := findSessionMut_ok h
      obtain ⟨hmem, -, hsess, hopen⟩ := findOwnTab_some hf
      have hget := wf.getTab_of_mem hmem
      refine sel.setSession_open (fun _ => rfl) (fun _ ha => ha) ?_
      intro r hr
      refine ⟨?_, ?_⟩
      · intro t ht
        obtain rfl : row.id = t := Option.some.inj ht
        exact ⟨row, hget, hsess.trans (getSession_id hr).symm, hopen⟩
      · intro m hm
        exact ⟨row.id, rfl, sel.tabs _ _ hget hopen m hm⟩

/-- Every write of the store keeps the pointers valid. -/
theorem write (wf : s.WellFormed) (sel : s.Selected) (h : Write d s s') : s'.Selected := by
  cases h with
  | createSession fresh h =>
    simp only [createSession, Except.ok.injEq, Prod.mk.injEq] at h
    obtain ⟨-, rfl⟩ := h
    exact addSession sel.sessions sel.tabs fresh
  | renameSession h =>
    obtain ⟨r₀, hr₀, rfl, rfl⟩ := findSessionMut_ok h
    exact sel.setSession_open (fun _ => rfl) (fun _ ha => ha)
      (fun r hr => (sel.sessions _ r hr).congr rfl rfl rfl)
  | reorderSessions h =>
    obtain ⟨u, -, h⟩ := Except.bind_ok.mp h
    obtain ⟨s₁, hplace, h⟩ := Except.bind_ok.mp h
    obtain ⟨-, rfl⟩ : _ ∧ s₁ = s' := by simpa [pure, Except.pure] using h
    exact sel.placeSessions hplace
  | createTab fresh h => exact sel.createTab fresh h
  | renameTab h =>
    rw [renameTab] at h
    obtain ⟨r₀, hr₀, rfl, rfl⟩ := findTabMut_ok h
    apply sel.setTab_keep
    · simp
    · simp [touchTab]
    · simp [touchTab]
    · simp [touchTab]
  | saveTabLayout h =>
    rw [saveTabLayout] at h
    split_ifs at h
    split at h
    · cases h
    · split_ifs at h
      obtain ⟨r₀, hr₀, rfl, rfl⟩ := findTabMut_ok h
      exact sel.setTab_keep (fun _ => rfl) (fun _ => rfl) (fun _ => rfl) (fun _ => rfl)
  | reorderTabs h =>
    obtain ⟨u, -, h⟩ := Except.bind_ok.mp h
    obtain ⟨s₁, hplace, h⟩ := Except.bind_ok.mp h
    obtain ⟨-, rfl⟩ : _ ∧ s₁ = s' := by simpa [pure, Except.pure] using h
    exact sel.placeTabs hplace
  | closeTab fresh h => exact sel.closeTab wf fresh h
  | selectTab h => exact sel.selectTab wf h
  | archiveSession fresh h => exact sel.archiveSession wf fresh h
  | restoreSession h =>
    obtain ⟨r₀, hr₀, rfl, rfl⟩ := findSessionMut_ok h
    exact sel.setSession_open (fun _ => rfl) (fun _ _ => rfl)
      (fun r hr => (sel.sessions _ r hr).congr rfl rfl rfl)
  | createTerminal fresh h => exact sel.createTerminal wf fresh h
  | reorderTerminals h =>
    simp only [reorderTerminals] at h
    split at h
    · cases h
    · split_ifs at h
      obtain ⟨u, -, h⟩ := Except.bind_ok.mp h
      obtain ⟨s₁, hplace, h⟩ := Except.bind_ok.mp h
      obtain ⟨-, rfl⟩ : _ ∧ s₁ = s' := by simpa [pure, Except.pure] using h
      exact sel.placeTerminals hplace
  | moveTerminal h => exact sel.moveTerminal wf h
  | selectTerminal h => exact sel.selectTerminalInState wf h
  | closeTerminal h => exact sel.closeTerminal wf h
  | renameTerminal h =>
    obtain ⟨r₀, -, -, -, rfl⟩ := updateTerminal_ok h
    apply sel.setTerminal
    · simp
    · simp
    · simp
  | updateTerminal life h =>
    obtain ⟨r₀, -, -, -, rfl⟩ := updateTerminal_ok h
    apply sel.setTerminal
    · exact fun r => (life.keeps r).1
    · exact fun r => (life.keeps r).2.2.1
    · exact fun r => (life.keeps r).2.2.2.2

end PersistedState.Selected

/-- The catalog with its invariant. -/
structure Sound (s : PersistedState) : Prop where
  wf : s.WellFormed
  selected : s.Selected

theorem Sound.write {d : Draw} {s s' : PersistedState} (h : Sound s) (hw : Write d s s') :
    Sound s' := by
  obtain ⟨S, T, M, e⟩ := hw.evolves h.wf
  exact ⟨e.wf h.wf, h.selected.write h.wf hw⟩

theorem Sound.writes {w : World} {s s' : PersistedState} (h : Sound s) (hw : Writes w s s') :
    Sound s' := by
  induction hw with
  | refl => exact h
  | tail _ last ih =>
    obtain ⟨n, hn⟩ := last
    exact ih.write hn

/-- A fresh store has one open session with one window. -/
theorem Sound.new (d : Draw) : Sound (PersistedState.new d) := by
  have none_at : ∀ k, (⟨[], [], []⟩ : PersistedState).getSession k = none := fun _ => rfl
  have empty : (⟨[], [], []⟩ : PersistedState).WellFormed := by
    refine ⟨by simp, by simp, by simp, ?_, ?_, ?_, ?_, ?_, ?_⟩ <;>
      simp [getSession, getTab, getTerminal, findRow]
  have fresh : d.Fresh ⟨[], [], []⟩ := ⟨rfl, rfl, rfl⟩
  exact ⟨(ensureVisibleSession_evolves fresh).wf empty, .ensureVisibleSession empty fresh
    (fun k r hr => by cases hr) (fun k r hr => by cases hr)⟩

/-- Dispatched commands, each with what the environment answers to it. -/
def catalogMachine : Machine PersistedState (World × MuxCommand) where
  step s a := some (dispatchMux a.1 s a.2).store

/-- Drawn identifiers are new. -/
def FreshDraws (s : PersistedState) (a : World × MuxCommand) : Prop := a.1.Fresh s

instance (s : PersistedState) (a : World × MuxCommand) : Decidable (FreshDraws s a) :=
  decidable_of_iff (s.getSession (a.1.draw 0).sessionId = none ∧ s.getTab (a.1.draw 0).tabId = none ∧
      s.getTerminal (a.1.draw 0).terminalId = none)
    ⟨fun h => ⟨h.1, h.2.1, h.2.2⟩, fun h => ⟨h.session, h.tab, h.terminal⟩⟩

theorem Sound.run {s s' : PersistedState} {as : List (World × MuxCommand)} (h : Sound s)
    (run : catalogMachine.Path FreshDraws s as s') : Sound s' := by
  refine run.invariant (I := Sound) ?_ h
  intro s a t hs hfresh hstep
  obtain rfl : (dispatchMux a.1 s a.2).store = t := Option.some.inj hstep
  exact hs.writes (dispatchMux_writes a.2 hfresh)

/-- What the rows of a catalog promise each other. -/
structure CatalogInvariant (s : PersistedState) : Prop where
  visible : ∃ session ∈ s.sessions, session.archivedAt = none
  window : ∀ session ∈ s.sessions, session.archivedAt = none →
    ∃ tab ∈ s.tabs, tab.sessionId = session.id ∧ tab.archivedAt = none
  activeTab : ∀ session ∈ s.sessions, ∀ t, session.activeTabId = some t →
    ∃ tab ∈ s.tabs, tab.id = t ∧ tab.sessionId = session.id ∧ tab.archivedAt = none
  sessionFocus : ∀ session ∈ s.sessions, ∀ m, session.activeMuxTerminalId = some m →
    ∃ terminal ∈ s.terminals, terminal.id = m ∧ terminal.archivedAt = none ∧
      ∃ t, session.activeTabId = some t ∧ terminal.tabId = some t
  tabFocus : ∀ tab ∈ s.tabs, tab.archivedAt = none → ∀ m, tab.activeMuxTerminalId = some m →
    ∃ terminal ∈ s.terminals, terminal.id = m ∧ terminal.archivedAt = none ∧
      terminal.tabId = some tab.id
  placed : ∀ terminal ∈ s.terminals, terminal.archivedAt = none →
    ∃ tab ∈ s.tabs, terminal.tabId = some tab.id ∧ tab.sessionId = terminal.sessionId ∧
      tab.archivedAt = none

theorem Sound.invariant {s : PersistedState} (h : Sound s) : CatalogInvariant s where
  visible := by
    obtain ⟨k, r, hr, ha⟩ := h.selected.visible
    exact ⟨r, findRow_mem hr, ha⟩
  window session hs _ := by
    obtain ⟨t, tab, htab, hsess, hopen⟩ := h.wf.window session.id (by
      rw [h.wf.getSession_of_mem hs]; rfl)
    exact ⟨tab, findRow_mem htab, hsess, hopen⟩
  activeTab session hs t ht := by
    obtain ⟨tab, htab, hsess, hopen⟩ :=
      (h.selected.sessions _ _ (h.wf.getSession_of_mem hs)).tab t ht
    exact ⟨tab, findRow_mem htab, getTab_id htab, hsess, hopen⟩
  sessionFocus session hs m hm := by
    obtain ⟨t, ht, r, hr, htab, hopen⟩ :=
      (h.selected.sessions _ _ (h.wf.getSession_of_mem hs)).terminal m hm
    exact ⟨r, findRow_mem hr, getTerminal_id hr, hopen, t, ht, htab⟩
  tabFocus tab htab hopen m hm := by
    obtain ⟨r, hr, hrtab, ha⟩ := h.selected.tabs _ _ (h.wf.getTab_of_mem htab) hopen m hm
    exact ⟨r, findRow_mem hr, getTerminal_id hr, ha, hrtab⟩
  placed terminal hm ha := by
    obtain ⟨t, tab, ht, htab, hsess, hopen⟩ := h.wf.placed _ _ (h.wf.getTerminal_of_mem hm) ha
    have hid : tab.id = t := getTab_id htab
    exact ⟨tab, findRow_mem htab, hid ▸ ht, hsess, hopen⟩

/-- Whatever commands are dispatched and however each ends, the catalog keeps its invariant. -/
theorem catalog_invariant {d : Draw} {s : PersistedState} {as : List (World × MuxCommand)}
    (run : catalogMachine.Path FreshDraws (PersistedState.new d) as s) : CatalogInvariant s :=
  ((Sound.new d).run run).invariant

section Archived

def firstDraw : Draw where
  now := "t0"
  sessionUuid := "a"
  tabUuid := "a"

/-- An environment where every write succeeds and every process starts. -/
def calmWorld (uuid : String) : World where
  sessionUuid := uuid
  tabUuid := uuid
  terminalUuid := uuid
  instanceUuid := uuid
  now _ := "t1"
  database _ := none
  create _ := .ok ⟨"pty", none⟩
  dispose _ := .ok ()

def focusThenArchive : List (World × MuxCommand) :=
  [(calmWorld "b", .createTerminal "ses-a" none none default),
    (calmWorld "c", .archiveTab "tab-a" .keepTerminals)]

theorem focusThenArchive_run : ∃ s, catalogMachine.Path FreshDraws (PersistedState.new firstDraw)
    focusThenArchive s ∧ s.tabs.map (fun r => (r.id, r.archivedAt, r.activeMuxTerminalId)) =
      [("tab-a", some "t1", some "term-b"), ("tab-c", none, none)] ∧
    s.terminals.map (fun r => (r.id, r.archivedAt)) = [("term-b", some "t1")] := by
  have computed : ((catalogMachine.exec FreshDraws (PersistedState.new firstDraw)
      focusThenArchive).map fun s =>
        (s.tabs.map (fun r => (r.id, r.archivedAt, r.activeMuxTerminalId)),
          s.terminals.map (fun r => (r.id, r.archivedAt)))) =
      some ([("tab-a", some "t1", some "term-b"), ("tab-c", none, none)],
        [("term-b", some "t1")]) := by decide +kernel
  obtain ⟨s, hs, hrows⟩ := Option.map_eq_some_iff.mp computed
  obtain ⟨htabs, hterms⟩ := Prod.mk.inj hrows
  exact ⟨s, Machine.path_of_exec hs, htabs, hterms⟩

/-- An archived tab keeps pointing at the terminal it focused, which was archived with it. -/
theorem archived_tab_dangles : ¬ ∀ (d : Draw) (as : List (World × MuxCommand)) (s : PersistedState),
    catalogMachine.Path FreshDraws (PersistedState.new d) as s → ∀ tab ∈ s.tabs, ∀ m,
      tab.activeMuxTerminalId = some m → ∃ terminal ∈ s.terminals, terminal.id = m ∧
        terminal.archivedAt = none ∧ terminal.tabId = some tab.id := by
  intro h
  obtain ⟨s, run, htabs, hterms⟩ := focusThenArchive_run
  have hmem : ("tab-a", some "t1", some "term-b") ∈
      s.tabs.map (fun r => (r.id, r.archivedAt, r.activeMuxTerminalId)) := by simp [htabs]
  obtain ⟨tab, htab, hrow⟩ := List.mem_map.mp hmem
  obtain ⟨terminal, hterm, -, hopen, -⟩ := h _ _ _ run tab htab "term-b" (by simp_all)
  have hrow' : (terminal.id, terminal.archivedAt) ∈ s.terminals.map (fun r => (r.id, r.archivedAt)) :=
    List.mem_map_of_mem hterm
  rw [hterms, hopen] at hrow'
  simp at hrow'

theorem catalog_invariant_archive : ∃ s, catalogMachine.Path FreshDraws
    (PersistedState.new firstDraw) focusThenArchive s ∧ CatalogInvariant s := by
  obtain ⟨s, run, -⟩ := focusThenArchive_run
  exact ⟨s, run, catalog_invariant run⟩

end Archived
end PiDeck.Mux
