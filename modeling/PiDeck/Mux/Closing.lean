import Mathlib
import PiDeck.Mux.Operations

/-! Moving a terminal and closing terminals and tabs: the operations that rewrite several rows and
repair what pointed at the rows that went away. -/
namespace PiDeck.Mux
open PiDeck.Collections PersistedState

section Terminals
variable {d : Draw} {s s' : PersistedState} {terminalId : String}

theorem onTab_ok {tab : Option String} {f : SessionTab → SessionTab} {o : Option SessionTab}
    (h : onTab tab f s = .ok (o, s')) :
    (tab = none ∧ o = none ∧ s' = s) ∨
      ∃ id row, tab = some id ∧ s.getTab id = some row ∧ o = some (f row) ∧ s' = s.setTab id f := by
  cases tab with
  | none =>
    obtain ⟨rfl, rfl⟩ : none = o ∧ s = s' := by simpa [onTab] using h
    exact .inl ⟨rfl, rfl, rfl⟩
  | some id =>
    rw [onTab] at h
    cases hf : findTabMut id f s with
    | error e => rw [hf] at h; cases h
    | ok p =>
      obtain ⟨row, s₁⟩ := p
      rw [hf] at h
      obtain ⟨rfl, rfl⟩ : some row = o ∧ s₁ = s' := by simpa [Except.map] using h
      obtain ⟨r₀, hr₀, rfl, rfl⟩ := findTabMut_ok hf
      exact .inr ⟨id, r₀, rfl, hr₀, rfl, rfl⟩

/-- What a tab becomes when one of its terminals leaves for another tab. -/
def leaveTab (now terminalId : String) (replacement : Option String) (r : SessionTab) : SessionTab :=
  touchTab now (if r.activeMuxTerminalId = some terminalId then
    { r with activeMuxTerminalId := replacement } else r)

@[simp] theorem leaveTab_id {now replacement} {r : SessionTab} :
    (leaveTab now terminalId replacement r).id = r.id := by
  simp only [leaveTab, touchTab]; split_ifs <;> rfl

@[simp] theorem leaveTab_sessionId {now replacement} {r : SessionTab} :
    (leaveTab now terminalId replacement r).sessionId = r.sessionId := by
  simp only [leaveTab, touchTab]; split_ifs <;> rfl

@[simp] theorem leaveTab_archivedAt {now replacement} {r : SessionTab} :
    (leaveTab now terminalId replacement r).archivedAt = r.archivedAt := by
  simp only [leaveTab, touchTab]; split_ifs <;> rfl

@[simp] theorem leaveTab_revision {now replacement} {r : SessionTab} :
    (leaveTab now terminalId replacement r).revision = r.revision + 1 := by
  simp only [leaveTab, touchTab]; split_ifs <;> rfl

/-- The terminal that a tab falls back to when `terminalId` is moved away. -/
def sourceReplacement (s : PersistedState) (terminalId sourceTabId : String) : Option String :=
  ((orderedTerminals s sourceTabId false).find? (fun r => r.id ≠ terminalId)).map MuxTerminal.id

/-- A move within the same tab does nothing; another one moves the row, leaves the source tab and
selects the terminal where it arrived. -/
theorem moveTerminal_ok {target : String} {r : MuxTerminal} (wf : s.WellFormed)
    (h : moveTerminal d terminalId target s = .ok (r, s')) :
    ∃ current own, s.getTerminal terminalId = some current ∧ current.archivedAt = none ∧
      s.getTab target = some own ∧ own.sessionId = current.sessionId ∧ own.archivedAt = none ∧
      ((current.tabId = some target ∧ r = current ∧ s' = s) ∨
        ∃ sourceId source position session, current.tabId = some sourceId ∧ sourceId ≠ target ∧
          s.getTab sourceId = some source ∧ source.sessionId = current.sessionId ∧
          source.archivedAt = none ∧
          r = touchTerminal d.now { current with tabId := some target, position := position } ∧
          selectTerminalInState d current.sessionId (some terminalId)
            ((s.setTerminal terminalId fun r =>
              touchTerminal d.now { r with tabId := some target, position := position }).setTab sourceId
                (leaveTab d.now terminalId (sourceReplacement s terminalId sourceId))) =
            .ok (session, s')) := by
  simp only [moveTerminal] at h
  cases hcur : s.terminals.find? (fun r => r.id = terminalId && r.archivedAt.isNone) with
  | none => simp [hcur] at h
  | some current =>
    obtain ⟨hid, harch⟩ : current.id = terminalId ∧ current.archivedAt = none := by
      simpa using List.find?_some hcur
    have hget : s.getTerminal terminalId = some current :=
      hid ▸ wf.getTerminal_of_mem (List.mem_of_find?_eq_some hcur)
    simp only [hcur] at h
    cases hown : findOwnTab s current.sessionId target with
    | none => simp [hown] at h
    | some own =>
      obtain ⟨hmem, hownId, hsess, hopen⟩ := findOwnTab_some hown
      refine ⟨current, own, hget, harch, hownId ▸ wf.getTab_of_mem hmem, hsess, hopen, ?_⟩
      simp only [hown, Option.isNone_some, Bool.false_eq_true, if_false] at h
      split_ifs at h with hsame
      · obtain ⟨rfl, rfl⟩ : current = r ∧ s = s' := by simpa using h
        exact .inl ⟨hsame, rfl, rfl⟩
      · obtain ⟨⟨moved, s₁⟩, hmove, h⟩ := Except.bind_ok.mp h
        obtain ⟨⟨o, s₂⟩, hleave, h⟩ := Except.bind_ok.mp h
        obtain ⟨⟨session, s₃⟩, hselect, h⟩ := Except.bind_ok.mp h
        obtain ⟨rfl, rfl⟩ : moved = r ∧ s₃ = s' := by simpa [pure, Except.pure] using h
        obtain ⟨r₀, hr₀, rfl, rfl⟩ := findTerminalMut_ok hmove
        obtain rfl := Option.some.inj (hr₀.symm.trans hget)
        obtain ⟨sourceId, source, htab, hsource, hsourceSess, hsourceOpen⟩ := wf.placed _ _ hget harch
        obtain ⟨hn, -, -⟩ | ⟨id, row, hid', hrow, -, rfl⟩ := onTab_ok hleave
        · cases htab.symm.trans hn
        · obtain rfl := Option.some.inj (htab.symm.trans hid')
          have hne : sourceId ≠ target := fun e => hsame (e ▸ htab)
          refine .inr ⟨sourceId, source, _, session, htab, hne, hsource, hsourceSess, hsourceOpen, rfl,
            ?_⟩
          rw [htab] at hselect
          exact hselect

theorem moveTerminal_evolves {target : String} {r : MuxTerminal} (wf : s.WellFormed)
    (h : moveTerminal d terminalId target s = .ok (r, s')) :
    ∃ current, s.getTerminal terminalId = some current ∧ s'.getTerminal terminalId = some r ∧
      r.sessionId = current.sessionId ∧
      (s' = s ∨ ∃ sourceId, Evolves Calm {current.sessionId} {sourceId, target} {terminalId} s s' ∧
        ∀ tabId ∈ ({sourceId, target} : Set String), ∃ before after,
          s.getTab tabId = some before ∧ s'.getTab tabId = some after ∧
          before.sessionId = current.sessionId ∧ before.archivedAt = none ∧
          after.sessionId = current.sessionId ∧ after.archivedAt = none) := by
  obtain ⟨current, own, hcur, harch, hown, hownSess, hownOpen, ⟨-, rfl, rfl⟩ |
    ⟨sourceId, source, position, session, htab, hne, hsource, hsourceSess, hsourceOpen, rfl, hselect⟩⟩ :=
    moveTerminal_ok wf h
  · exact ⟨r, hcur, hcur, rfl, .inl rfl⟩
  set f : MuxTerminal → MuxTerminal := fun r =>
    touchTerminal d.now { r with tabId := some target, position := position } with hf
  set g := leaveTab d.now terminalId (sourceReplacement s terminalId sourceId) with hg
  have move : Evolves Calm {current.sessionId} {sourceId, target} {terminalId} s
      (s.setTerminal terminalId f) := by
    refine .setTerminal (Set.mem_singleton _) (fun _ => rfl) (fun r => Nat.lt_succ_self _)
      (fun r _ => ⟨id, rfl, id⟩) ?_
    intro _ r hr _
    obtain rfl := Option.some.inj (hr.symm.trans hcur)
    exact ⟨target, own, rfl, hown, hownSess, hownOpen⟩
  have leave : Evolves Calm {current.sessionId} {sourceId, target} {terminalId}
      (s.setTerminal terminalId f) ((s.setTerminal terminalId f).setTab sourceId g) :=
    .setTab (Set.mem_insert _ _) (fun _ => leaveTab_id) (fun _ => .inr (by simp [hg]))
      (fun _ => leaveTab_sessionId) (fun _ => leaveTab_archivedAt)
  have both := move.trans Calm.trans leave
  have moved : ((s.setTerminal terminalId f).setTab sourceId g).getTerminal terminalId =
      some (f current) := getTerminal_setTerminal_self (fun _ => rfl) hcur
  obtain ⟨m, tabId, tab, hm, hmid, -, -, hmtab, htabRow, -, select, -, hafter⟩ :=
    selectTerminalInState_some hselect
  -- The terminal that is selected is the one that was moved.
  obtain rfl : target = tabId := by
    have hfound := (both.wf wf).getTerminal_of_mem hm
    rw [hmid] at hfound
    obtain rfl := Option.some.inj (hfound.symm.trans moved)
    exact Option.some.inj hmtab
  refine ⟨current, hcur, (select.terminals.frame _ (Set.notMem_empty _)).trans moved, rfl, .inr
    ⟨sourceId, both.trans Calm.trans (select.mono (fun _ _ => id) subset_rfl (by simp)
      (Set.empty_subset _)), ?_⟩⟩
  intro k hk
  obtain rfl | rfl := hk
  · refine ⟨source, g source, hsource, ?_, hsourceSess, hsourceOpen,
      leaveTab_sessionId.trans hsourceSess, leaveTab_archivedAt.trans hsourceOpen⟩
    rw [select.tabs.frame _ (by simpa using hne)]
    exact getTab_setTab_self (fun _ => leaveTab_id) hsource
  · refine ⟨own, _, hown, hafter, hownSess, hownOpen, ?_⟩
    have htabOwn : tab = own := by
      rw [getTab_setTab (fun _ => leaveTab_id), if_neg hne.symm, getTab_setTerminal, hown] at htabRow
      exact (Option.some.inj htabRow).symm
    subst htabOwn
    exact ⟨hownSess, hownOpen⟩

/-- The other open terminal of the tab that comes first. -/
def nextTerminal (s : PersistedState) (terminalId tabId : String) : Option String :=
  ((s.terminals.filter (fun r =>
    r.tabId = some tabId && r.id ≠ terminalId && r.archivedAt.isNone)).argmin
      MuxTerminal.position).map MuxTerminal.id

/-- A tab, or a session, whose focused terminal is closed falls back to `next`. -/
def refocusTab (now terminalId : String) (next : Option String) (r : SessionTab) : SessionTab :=
  if r.activeMuxTerminalId = some terminalId then
    touchTab now { r with activeMuxTerminalId := next } else r

def refocusSession (now terminalId : String) (next : Option String) (r : AppSession) : AppSession :=
  if r.activeMuxTerminalId = some terminalId then
    touchSession now { r with activeMuxTerminalId := next } else r

section Refocus
variable {now : String} {next : Option String}

@[simp] theorem refocusTab_id {r : SessionTab} : (refocusTab now terminalId next r).id = r.id := by
  simp only [refocusTab]; split_ifs <;> rfl

@[simp] theorem refocusTab_sessionId {r : SessionTab} :
    (refocusTab now terminalId next r).sessionId = r.sessionId := by
  simp only [refocusTab]; split_ifs <;> rfl

@[simp] theorem refocusTab_archivedAt {r : SessionTab} :
    (refocusTab now terminalId next r).archivedAt = r.archivedAt := by
  simp only [refocusTab]; split_ifs <;> rfl

theorem refocusTab_rev (r : SessionTab) : refocusTab now terminalId next r = r ∨
    r.revision < (refocusTab now terminalId next r).revision := by
  simp only [refocusTab]
  split_ifs
  · exact .inr (touchTab_rev rfl)
  · exact .inl rfl

@[simp] theorem refocusSession_id {r : AppSession} :
    (refocusSession now terminalId next r).id = r.id := by
  simp only [refocusSession]; split_ifs <;> rfl

theorem refocusSession_rev (r : AppSession) : refocusSession now terminalId next r = r ∨
    r.revision < (refocusSession now terminalId next r).revision := by
  simp only [refocusSession]
  split_ifs
  · exact .inr (touchSession_rev rfl)
  · exact .inl rfl

end Refocus

/-- Closing an archived terminal changes nothing; closing an open one archives its row and lets the
tab and the session that focus it fall back. -/
theorem closeTerminal_ok {stop : Bool} {result : CloseTerminalResult} (wf : s.WellFormed)
    (h : closeTerminal d terminalId stop s = .ok (result, s')) :
    ∃ current, s.getTerminal terminalId = some current ∧
      ((current.archivedAt.isSome ∧ s' = s ∧ result.terminal = current ∧
          result.tab = current.tabId.bind s.getTab ∧
          s.getSession current.sessionId = some result.session) ∨
        ∃ tabId tab session, current.archivedAt = none ∧ current.tabId = some tabId ∧
          s.getTab tabId = some tab ∧ tab.sessionId = current.sessionId ∧ tab.archivedAt = none ∧
          s.getSession current.sessionId = some session ∧
          result = ⟨archiveRow d.now stop current,
            some (refocusTab d.now terminalId (nextTerminal s terminalId tabId) tab),
            refocusSession d.now terminalId (nextTerminal s terminalId tabId) session⟩ ∧
          s' = ((s.setTerminal terminalId (archiveRow d.now stop)).setTab tabId
            (refocusTab d.now terminalId (nextTerminal s terminalId tabId))).setSession
              current.sessionId
              (refocusSession d.now terminalId (nextTerminal s terminalId tabId))) := by
  simp only [closeTerminal] at h
  cases hcur : s.getTerminal terminalId with
  | none => simp [hcur] at h
  | some current =>
    refine ⟨current, rfl, ?_⟩
    simp only [hcur] at h
    split_ifs at h with harch
    · cases hsess : s.getSession current.sessionId with
      | none => simp [hsess] at h
      | some session =>
        simp only [hsess, Except.ok.injEq, Prod.mk.injEq] at h
        obtain ⟨rfl, rfl⟩ := h
        exact .inl ⟨harch, rfl, rfl, rfl, rfl⟩
    · have hopen : current.archivedAt = none := by simpa using harch
      obtain ⟨tabId, tab, htab, htabRow, htabSess, htabOpen⟩ := wf.placed _ _ hcur hopen
      obtain ⟨⟨archived, s₁⟩, h₁, h⟩ := Except.bind_ok.mp h
      obtain ⟨⟨o, s₂⟩, h₂, h⟩ := Except.bind_ok.mp h
      obtain ⟨⟨session', s₃⟩, h₃, h⟩ := Except.bind_ok.mp h
      obtain ⟨rfl, rfl⟩ := by
        simpa only [pure, Except.pure, Except.ok.injEq, Prod.mk.injEq] using h
      obtain ⟨r₀, hr₀, rfl, rfl⟩ := findTerminalMut_ok h₁
      obtain rfl := Option.some.inj (hr₀.symm.trans hcur)
      obtain ⟨hn, -, -⟩ | ⟨id, row, hid, hrow, rfl, rfl⟩ := onTab_ok h₂
      · cases htab.symm.trans hn
      · obtain rfl := Option.some.inj (htab.symm.trans hid)
        obtain rfl : row = tab := Option.some.inj (hrow.symm.trans htabRow)
        obtain ⟨session, hsession, rfl, rfl⟩ := findSessionMut_ok h₃
        refine .inr ⟨tabId, row, session, hopen, htab, htabRow, htabSess, htabOpen, hsession, ?_⟩
        rw [htab]
        exact ⟨rfl, rfl⟩

theorem closeTerminal_evolves {stop : Bool} {result : CloseTerminalResult} (wf : s.WellFormed)
    (h : closeTerminal d terminalId stop s = .ok (result, s')) :
    ∃ current, s.getTerminal terminalId = some current ∧
      Evolves Calm {current.sessionId} {t | current.tabId = some t} {terminalId} s s' ∧
      s'.getTerminal terminalId = some result.terminal ∧
      result.terminal.archivedAt.isSome ∧
      result.tab = current.tabId.bind s'.getTab ∧
      s'.getSession current.sessionId = some result.session := by
  obtain ⟨current, hcur, ⟨harch, rfl, rfl, htab, hsess⟩ | ⟨tabId, tab, session, hopen, htab, htabRow,
    -, -, hsession, rfl, rfl⟩⟩ := closeTerminal_ok wf h
  · exact ⟨_, hcur, .refl _, hcur, harch, htab, hsess⟩
  set next := nextTerminal s terminalId tabId
  have archive : Evolves Calm {current.sessionId} {t | current.tabId = some t} {terminalId} s
      (s.setTerminal terminalId (archiveRow d.now stop)) := by
    refine .setTerminal (Set.mem_singleton _) (fun _ => archiveRow_id) (fun r => ?_)
      (fun r _ => archiveRow_calm) ?_
    · simp
    · intro _ r _ ha
      simp at ha
  have tabStep : Evolves Calm {current.sessionId} {t | current.tabId = some t} {terminalId}
      (s.setTerminal terminalId (archiveRow d.now stop))
      ((s.setTerminal terminalId (archiveRow d.now stop)).setTab tabId
        (refocusTab d.now terminalId next)) :=
    .setTab htab (fun _ => refocusTab_id) refocusTab_rev (fun _ => refocusTab_sessionId)
      (fun _ => refocusTab_archivedAt)
  refine ⟨current, hcur, (archive.trans Calm.trans tabStep).trans Calm.trans
    (.setSession (Set.mem_singleton _) (fun _ => refocusSession_id) refocusSession_rev), ?_, rfl, ?_, ?_⟩
  · exact getTerminal_setTerminal_self (fun _ => archiveRow_id) hcur
  · rw [htab]
    exact (getTab_setTab_self (s := s.setTerminal terminalId _) (fun _ => refocusTab_id) htabRow).symm
  · exact getSession_setSession_self (fun _ => refocusSession_id) hsession

end Terminals

section CloseTab
variable {d : Draw} {s s' : PersistedState} {tabId sessionId : String} {stop : Bool}

/-- A tab's open terminals are archived with it. -/
def sweepTerminal (now tabId : String) (stop : Bool) (r : MuxTerminal) : MuxTerminal :=
  if inTab tabId r then archiveRow now stop r else r

def archiveTabRow (now : String) (r : SessionTab) : SessionTab :=
  if r.archivedAt.isNone then touchTab now { r with archivedAt := some now } else r

@[simp] theorem sweepTerminal_id {now} {r : MuxTerminal} :
    (sweepTerminal now tabId stop r).id = r.id := by
  simp only [sweepTerminal]; split_ifs
  · exact archiveRow_id
  · rfl

@[simp] theorem archiveTabRow_id {now} {r : SessionTab} : (archiveTabRow now r).id = r.id := by
  simp only [archiveTabRow]; split_ifs <;> rfl

@[simp] theorem archiveTabRow_sessionId {now} {r : SessionTab} :
    (archiveTabRow now r).sessionId = r.sessionId := by
  simp only [archiveTabRow]; split_ifs <;> rfl

theorem archiveTabRow_archived {now} {r : SessionTab} : (archiveTabRow now r).archivedAt ≠ none := by
  simp only [archiveTabRow]
  split_ifs with h
  · simp [touchTab]
  · simpa using h

theorem archiveTabRow_rev {now} (r : SessionTab) : archiveTabRow now r = r ∨
    r.revision < (archiveTabRow now r).revision := by
  simp only [archiveTabRow]
  split_ifs
  · exact .inr (touchTab_rev rfl)
  · exact .inl rfl

/-- The tabs after a tab was archived, before the session gets a window to replace its last one. -/
def archivedTabs (now tabId : String) (s : PersistedState) : List SessionTab :=
  modifyRow SessionTab.id tabId (archiveTabRow now) s.tabs

/-- The window that replaces the last open one of a session. -/
def replacementTabs (d : Draw) (tabs : List SessionTab) (sessionId : String) : List SessionTab :=
  if tabs.any (fun r => r.sessionId = sessionId && r.archivedAt.isNone) then []
  else [newTab d sessionId "Window 1" 0]

/-- The catalog once the tab and its terminals are archived and its session has a window again. -/
def sweepTab (d : Draw) (tabId sessionId : String) (stop : Bool) (s : PersistedState) :
    PersistedState where
  sessions := s.sessions
  tabs := archivedTabs d.now tabId s ++ replacementTabs d (archivedTabs d.now tabId s) sessionId
  terminals := s.terminals.map (sweepTerminal d.now tabId stop)

/-- The tab a session falls back to. -/
def nextTab (s : PersistedState) (sessionId : String) : Option SessionTab :=
  (s.tabs.filter (fun r => r.sessionId = sessionId && r.archivedAt.isNone)).argmin
    SessionTab.position

def reselectSession (now tabId : String) (next : Option SessionTab) (r : AppSession) : AppSession :=
  if r.activeTabId = some tabId then
    touchSession now { r with
      activeTabId := next.map SessionTab.id
      activeMuxTerminalId := next.bind SessionTab.activeMuxTerminalId }
  else r

@[simp] theorem reselectSession_id {now next} {r : AppSession} :
    (reselectSession now tabId next r).id = r.id := by
  simp only [reselectSession]; split_ifs <;> rfl

theorem reselectSession_rev {now next} (r : AppSession) : reselectSession now tabId next r = r ∨
    r.revision < (reselectSession now tabId next r).revision := by
  simp only [reselectSession]
  split_ifs
  · exact .inr (touchSession_rev rfl)
  · exact .inl rfl

theorem closeTab_ok {result : CloseTabResult} (h : closeTab d tabId stop s = .ok (result, s')) :
    ∃ current session, s.getTab tabId = some current ∧
      s.getSession current.sessionId = some session ∧
      result = ⟨(s.terminals.filter (inTab tabId)).map (archiveRow d.now stop),
        archiveTabRow d.now current,
        reselectSession d.now tabId
          (nextTab (sweepTab d tabId current.sessionId stop s) current.sessionId) session,
        replacementTabs d (archivedTabs d.now tabId s) current.sessionId⟩ ∧
      s' = (sweepTab d tabId current.sessionId stop s).setSession current.sessionId
        (reselectSession d.now tabId
          (nextTab (sweepTab d tabId current.sessionId stop s) current.sessionId)) := by
  simp only [closeTab] at h
  cases hcur : s.getTab tabId with
  | none => simp [hcur] at h
  | some current =>
    simp only [hcur] at h
    obtain ⟨⟨archived, s₁⟩, h₁, h⟩ := Except.bind_ok.mp h
    obtain ⟨⟨session', s₂⟩, h₂, h⟩ := Except.bind_ok.mp h
    obtain ⟨rfl, rfl⟩ := by simpa only [pure, Except.pure, Except.ok.injEq, Prod.mk.injEq] using h
    obtain ⟨r₀, hr₀, rfl, rfl⟩ := findTabMut_ok h₁
    obtain rfl := Option.some.inj (hr₀.symm.trans hcur)
    obtain ⟨session, hsession, rfl, rfl⟩ := findSessionMut_ok h₂
    exact ⟨r₀, session, rfl, hsession, rfl, rfl⟩

theorem getTerminal_sweepTab (k : String) : (sweepTab d tabId sessionId stop s).getTerminal k =
    (s.getTerminal k).map (sweepTerminal d.now tabId stop) :=
  findRow_map (fun _ => sweepTerminal_id) k

/-- A tab of the swept catalog is an old one, archived if it is the closed one, or the replacement. -/
theorem getTab_sweepTab (fresh : s.getTab d.tabId = none) (k : String) :
    (sweepTab d tabId sessionId stop s).getTab k =
      if k = d.tabId ∧ replacementTabs d (archivedTabs d.now tabId s) sessionId ≠ [] then
        some (newTab d sessionId "Window 1" 0)
      else if k = tabId then (s.getTab tabId).map (archiveTabRow d.now) else s.getTab k := by
  have old : ∀ k, findRow SessionTab.id (archivedTabs d.now tabId s) k =
      if k = tabId then (s.getTab tabId).map (archiveTabRow d.now) else s.getTab k :=
    findRow_modifyRow (fun r hr => archiveTabRow_id.trans hr)
  have fresh' : findRow SessionTab.id (archivedTabs d.now tabId s) d.tabId = none := by
    rw [old]
    split_ifs with hk
    · rw [← hk, fresh]; rfl
    · exact fresh
  by_cases hany : (archivedTabs d.now tabId s).any
      (fun r => r.sessionId = sessionId && r.archivedAt.isNone) = true
  · have hnil : replacementTabs d (archivedTabs d.now tabId s) sessionId = [] := if_pos hany
    simp only [PersistedState.getTab, sweepTab, hnil, List.append_nil, ne_eq, not_true_eq_false,
      and_false, if_false]
    exact old k
  · have hone : replacementTabs d (archivedTabs d.now tabId s) sessionId =
        [newTab d sessionId "Window 1" 0] := if_neg hany
    simp only [PersistedState.getTab, sweepTab, hone, ne_eq, not_false_eq_true, and_true,
      List.cons_ne_nil]
    rw [findRow_push (r := newTab d sessionId "Window 1" 0) fresh' k, old]
    rfl

theorem sweepTab_evolves (stop : Bool) {current : SessionTab} (wf : s.WellFormed) (fresh : d.Fresh s)
    (hcur : s.getTab tabId = some current) :
    Evolves Calm ∅ {tabId, d.tabId} {id | ∃ r, s.getTerminal id = some r ∧ inTab tabId r} s
      (sweepTab d tabId current.sessionId stop s) := by
  have lookup := fun k => @getTab_sweepTab d s tabId current.sessionId stop fresh.tab k
  have hne : tabId ≠ d.tabId := fun e => by rw [e, fresh.tab] at hcur; cases hcur
  -- The closed tab is archived, and every other old tab is as it was.
  have closed : (sweepTab d tabId current.sessionId stop s).getTab tabId =
      some (archiveTabRow d.now current) := by
    rw [lookup, if_neg (fun h => hne h.1), if_pos rfl, hcur]
    rfl
  have keeps : ∀ k r, k ≠ tabId → s.getTab k = some r →
      (sweepTab d tabId current.sessionId stop s).getTab k = some r := by
    intro k r hk hr
    have hk' : k ≠ d.tabId := fun e => by rw [e, fresh.tab] at hr; cases hr
    rw [lookup, if_neg (fun h => hk' h.1), if_neg hk, hr]
  have tabs : Advances SessionTab.revision (fun _ _ => True) {tabId, d.tabId} s.getTab
      (sweepTab d tabId current.sessionId stop s).getTab := by
    refine ⟨?_, ?_, ?_⟩
    · intro k r hr
      by_cases hk : k = tabId
      · subst hk
        obtain rfl := Option.some.inj (hr.symm.trans hcur)
        exact ⟨_, closed, archiveTabRow_rev r⟩
      · exact ⟨r, keeps k r hk hr, .inl rfl⟩
    · exact fun _ _ _ => .inr trivial
    · intro k hk
      obtain ⟨h₁, h₂⟩ : k ≠ tabId ∧ k ≠ d.tabId := by simpa using hk
      rw [lookup, if_neg (fun h => h₂ h.1), if_neg h₁]
  have terminals : Advances MuxTerminal.revision Calm
      {id | ∃ r, s.getTerminal id = some r ∧ inTab tabId r} s.getTerminal
      (sweepTab d tabId current.sessionId stop s).getTerminal := by
    refine .map (fun k r hr => ?_) getTerminal_sweepTab
    rw [sweepTerminal]
    split_ifs with hin
    · exact .inr ⟨⟨r, hr, hin⟩, by simp, archiveRow_calm⟩
    · exact .inl rfl
  refine ⟨.refl _, tabs, terminals, fun _ => ?_⟩
  have archivedIds : (archivedTabs d.now tabId s).map SessionTab.id = s.tabs.map SessionTab.id :=
    map_key_modifyRow (fun r hr => archiveTabRow_id.trans hr)
  refine ⟨wf.sessionIds, ?_, ?_, ?_, ?_, ?_, wf.sessionRevision, ?_, ?_⟩
  · -- The replacement, if any, is new.
    rw [sweepTab, replacementTabs]
    split_ifs
    · rw [List.append_nil, archivedIds]
      exact wf.tabIds
    · refine nodup_push (r := newTab d current.sessionId "Window 1" 0) ?_ (archivedIds ▸ wf.tabIds)
      have old := @findRow_modifyRow _ _ _ SessionTab.id s.tabs tabId (archiveTabRow d.now)
        (fun r hr => archiveTabRow_id.trans hr) d.tabId
      exact old.trans ((if_neg hne.symm).trans fresh.tab)
  · rw [sweepTab, List.map_map]
    rw [show MuxTerminal.id ∘ sweepTerminal d.now tabId stop = MuxTerminal.id from
      funext (fun _ => sweepTerminal_id)]
    exact wf.terminalIds
  · intro k r hr
    rw [lookup] at hr
    split_ifs at hr with h₁ h₂
    · obtain rfl := Option.some.inj hr
      have howner := wf.owner _ _ hcur
      exact howner
    · obtain ⟨r₀, hr₀, rfl⟩ := Option.map_eq_some_iff.mp hr
      rw [archiveTabRow_sessionId]
      exact wf.owner _ _ hr₀
    · exact wf.owner _ _ hr
  · intro k hk
    by_cases hks : k = current.sessionId
    · -- The session of the closed tab has another window left, or the replacement.
      by_cases hany : (archivedTabs d.now tabId s).any
          (fun r => r.sessionId = current.sessionId && r.archivedAt.isNone) = true
      · obtain ⟨r, hmem, hr⟩ := List.any_eq_true.mp hany
        obtain ⟨hsess, hopen⟩ : r.sessionId = current.sessionId ∧ r.archivedAt = none := by
          simpa using hr
        have hfound : findRow SessionTab.id (archivedTabs d.now tabId s) r.id = some r :=
          findRow_of_mem (archivedIds ▸ wf.tabIds) hmem
        have hnil : replacementTabs d (archivedTabs d.now tabId s) current.sessionId = [] := if_pos hany
        refine ⟨r.id, r, ?_, hsess.trans hks.symm, hopen⟩
        simpa only [PersistedState.getTab, sweepTab, hnil, List.append_nil] using hfound
      · have hone : replacementTabs d (archivedTabs d.now tabId s) current.sessionId ≠ [] := by
          rw [replacementTabs, if_neg hany]
          exact List.cons_ne_nil _ _
        refine ⟨d.tabId, newTab d current.sessionId "Window 1" 0, ?_, hks.symm, rfl⟩
        rw [lookup, if_pos ⟨rfl, hone⟩]
    · obtain ⟨id, tab, htab, hsess, hopen⟩ := wf.window k hk
      have hid : id ≠ tabId := by
        rintro rfl
        obtain rfl := Option.some.inj (htab.symm.trans hcur)
        exact hks hsess.symm
      exact ⟨id, tab, keeps _ _ hid htab, hsess, hopen⟩
  · intro k m hm ha
    rw [getTerminal_sweepTab] at hm
    obtain ⟨m₀, hm₀, rfl⟩ := Option.map_eq_some_iff.mp hm
    by_cases hin : inTab tabId m₀ = true
    · rw [sweepTerminal, if_pos hin] at ha
      cases ha
    · rw [sweepTerminal, if_neg hin] at ha ⊢
      obtain ⟨id, tab, htab, htabRow, hsess, hopen⟩ := wf.placed _ _ hm₀ ha
      have hid : id ≠ tabId := by
        rintro rfl
        exact hin (by simp [inTab, htab, ha])
      exact ⟨id, tab, htab, keeps _ _ hid htabRow, hsess, hopen⟩
  · intro k r hr
    rw [lookup] at hr
    split_ifs at hr with h₁ h₂
    · obtain rfl := Option.some.inj hr
      exact Nat.one_pos
    · obtain ⟨r₀, hr₀, rfl⟩ := Option.map_eq_some_iff.mp hr
      have hpos := wf.tabRevision _ _ hr₀
      cases @archiveTabRow_rev d.now r₀ with
      | inl h => rw [h]; exact hpos
      | inr h => omega
    · exact wf.tabRevision _ _ hr
  · intro k r hr
    rw [getTerminal_sweepTab] at hr
    obtain ⟨r₀, hr₀, rfl⟩ := Option.map_eq_some_iff.mp hr
    have hpos := wf.terminalRevision _ _ hr₀
    rw [sweepTerminal]
    split_ifs
    · simp
    · exact hpos

theorem closeTab_evolves {result : CloseTabResult} (wf : s.WellFormed) (fresh : d.Fresh s)
    (h : closeTab d tabId stop s = .ok (result, s')) :
    ∃ current, s.getTab tabId = some current ∧
      Evolves Calm {current.sessionId} {tabId, d.tabId}
        {id | ∃ r, s.getTerminal id = some r ∧ inTab tabId r} s s' ∧
      (∀ r ∈ result.terminals, s'.getTerminal r.id = some r ∧ r.archivedAt.isSome) ∧
      (∀ id r, s.getTerminal id = some r → inTab tabId r → ∃ r' ∈ result.terminals, r'.id = id) ∧
      s'.getTab tabId = some result.tab ∧
      (∀ r ∈ result.createdTabs, s'.getTab r.id = some r) ∧
      (s'.getTab d.tabId ≠ none → ∃ r ∈ result.createdTabs, r.id = d.tabId) ∧
      s'.getSession current.sessionId = some result.session := by
  obtain ⟨current, session, hcur, hsession, rfl, rfl⟩ := closeTab_ok h
  have hne : tabId ≠ d.tabId := fun e => by rw [e, fresh.tab] at hcur; cases hcur
  have sweep := sweepTab_evolves stop wf fresh hcur
  have reselect : Evolves Calm {current.sessionId} {tabId, d.tabId}
      {id | ∃ r, s.getTerminal id = some r ∧ inTab tabId r} (sweepTab d tabId current.sessionId stop s)
      ((sweepTab d tabId current.sessionId stop s).setSession current.sessionId
        (reselectSession d.now tabId
          (nextTab (sweepTab d tabId current.sessionId stop s) current.sessionId))) :=
    .setSession (Set.mem_singleton _) (fun _ => reselectSession_id) reselectSession_rev
  refine ⟨current, hcur, (sweep.mono (fun _ _ => id) (Set.empty_subset _) subset_rfl subset_rfl).trans
    Calm.trans reselect, ?_, ?_, ?_, ?_, ?_, ?_⟩
  · intro r hr
    obtain ⟨r₀, hr₀, rfl⟩ := List.mem_map.mp hr
    obtain ⟨hmem, hin⟩ := List.mem_filter.mp hr₀
    refine ⟨?_, rfl⟩
    rw [getTerminal_setSession, getTerminal_sweepTab, archiveRow_id, wf.getTerminal_of_mem hmem]
    simp [sweepTerminal, hin]
  · intro id r hr hin
    refine ⟨archiveRow d.now stop r, List.mem_map_of_mem (List.mem_filter.mpr ⟨findRow_mem hr, hin⟩), ?_⟩
    rw [archiveRow_id]
    exact getTerminal_id hr
  · rw [getTab_setSession, getTab_sweepTab fresh.tab, if_neg (fun h => hne h.1), if_pos rfl, hcur]
    rfl
  · intro r hr
    rw [getTab_setSession, getTab_sweepTab fresh.tab]
    have hnil : replacementTabs d (archivedTabs d.now tabId s) current.sessionId ≠ [] :=
      List.ne_nil_of_mem hr
    obtain rfl : r = newTab d current.sessionId "Window 1" 0 := by
      simp only [replacementTabs] at hr
      split_ifs at hr
      · cases hr
      · simpa using hr
    exact if_pos ⟨rfl, hnil⟩
  · intro hsome
    rw [getTab_setSession, getTab_sweepTab fresh.tab, if_neg hne.symm, fresh.tab] at hsome
    simp only [replacementTabs] at hsome ⊢
    split_ifs with hany
    · simp [hany] at hsome
    · exact ⟨_, List.mem_singleton_self _, rfl⟩
  · exact getSession_setSession_self (fun _ => reselectSession_id) hsession

end CloseTab
end PiDeck.Mux
