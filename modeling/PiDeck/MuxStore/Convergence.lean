import Mathlib
import PiDeck.Collections.Deliveries
import PiDeck.MuxStore.Listing

/-! The versions of sessions, tabs and terminals that reach the store as snapshots and as single
events, in any order and with repeats. A snapshot that was asked for earlier may bring back what an
event has ended, if the store does not hold the row; this and three rules for single rows are all
that can keep the store from the newest versions. -/
namespace PiDeck.MuxStore
open PiDeck.Collections PiDeck.Transition
open PiDeck.Mux (MuxTerminal)

/-- What the hosts have: the content of every entity at every revision. -/
structure Catalog where
  sessions : VersionsOf AppSession.id AppSession.rev
  tabs : VersionsOf SessionTab.id SessionTab.rev
  terminals : VersionsOf MuxTerminal.id MuxTerminal.revision

/-- A snapshot is asked for first, and names an entity at most once. An event carries a version, or
what it changes of the terminal held. -/
inductive Delivery
  | ask
  | snapshot (asked : ℕ) (sessions terminals tabs : IndexMap String ℕ) (hasTabs : Bool)
  | session (tag : SessionEventTag) (id : String) (revision : ℕ)
  | tab (tag : TabEventTag) (id : String) (revision : ℕ)
  | terminal (tag : TerminalEventTag) (id : String) (revision : ℕ)
  | outputChanged (id : String) (revision : ℕ)
  | terminalArchived (id : String) (revision : ℕ)

/-- The store, the baselines of the snapshots asked for, and the versions delivered so far. -/
structure Client where
  store : MuxSessionStore
  asked : List RevisionSnapshot
  sessions : List (String × ℕ)
  tabs : List (String × ℕ)
  terminals : List (String × ℕ)

section Rows
variable {ρ : Type} {key : ρ → String} {rev : ρ → ℕ}

/-- The rows of a snapshot. -/
def versions (V : VersionsOf key rev) (named : IndexMap String ℕ) : List ρ :=
  named.entries.map fun e => V.row e.1 e.2

end Rows

/-- An older host names no tabs. -/
def sentTabs (tabs : IndexMap String ℕ) (hasTabs : Bool) : List (String × ℕ) :=
  if hasTabs then tabs.entries else []

namespace Client

def initial : Client := ⟨.initial, [], [], [], []⟩

def deliver (V : Catalog) (c : Client) : Delivery → Option Client
  | .ask => some { c with asked := c.asked ++ [c.store.captureRevisions] }
  | .snapshot asked sessions terminals tabs hasTabs =>
    c.asked[asked]?.map fun baseline => { c with
      store := c.store.mergeSnapshot (versions V.sessions sessions) (versions V.terminals terminals)
        (versions V.tabs tabs) hasTabs baseline
      sessions := c.sessions ++ sessions.entries
      tabs := c.tabs ++ sentTabs tabs hasTabs
      terminals := c.terminals ++ terminals.entries }
  | .session tag id revision => some { c with
      store := c.store.apply (.session tag revision (V.sessions.row id revision))
      sessions := c.sessions ++ [(id, revision)] }
  | .tab tag id revision => some { c with
      store := c.store.apply (.tab tag revision (V.tabs.row id revision))
      tabs := c.tabs ++ [(id, revision)] }
  | .terminal tag id revision => some { c with
      store := c.store.apply (.terminal tag revision id (V.terminals.row id revision))
      terminals := c.terminals ++ [(id, revision)] }
  | .outputChanged id revision => some { c with
      store := c.store.apply (.outputChanged revision (V.terminals.row id revision).updatedAt id
        (V.terminals.row id revision).output)
      terminals := c.terminals ++ [(id, revision)] }
  | .terminalArchived id revision => some { c with
      store := c.store.apply
        (.terminalArchived revision (V.terminals.row id revision).updatedAt id)
      terminals := c.terminals ++ [(id, revision)] }

def machine (V : Catalog) : Machine Client Delivery := ⟨deliver V⟩

end Client

/-! ### What keeps the store with the newest versions -/

/-- The windows that the client makes for the sessions without a visible tab. -/
def missingWindows (tabs : Tabs) : List AppSession → List SessionTab
  | [] => []
  | session :: sessions =>
    if tabs.rows.any (fun tab => tab.sessionId = session.id && !archived tab.archivedAt) then
      missingWindows tabs sessions
    else fallbackTab session :: missingWindows (tabs.set (fallbackTab session)) sessions

/-- The tabs before the client adds windows. -/
def keptTabs (store : MuxSessionStore) (tabs : List SessionTab) (hasTabs : Bool)
    (baseline : RevisionSnapshot) : Tabs :=
  if hasTabs then mergeRows SessionTab.rev store.tabsById (.ofList tabs) baseline.tabs
  else store.tabsById

/-- What a snapshot names and the store does not hold is as new as anything delivered of it. -/
def NoneOlder {ρ : Type} {key : ρ → String} (delivered : List (String × ℕ)) (table : Table key)
    (named : IndexMap String ℕ) : Prop :=
  ∀ e ∈ named.entries, table.has e.1 = false → ∀ revision, (e.1, revision) ∈ delivered →
    revision ≤ e.2

namespace Client
variable {V : Catalog} {c c' : Client}

/-- The snapshot brings no entity back, and no window that the client makes takes the identifier of a
tab that was delivered. -/
structure Timely (V : Catalog) (c : Client) (baseline : RevisionSnapshot)
    (sessions terminals tabs : IndexMap String ℕ) (hasTabs : Bool) : Prop where
  newSessions : NoneOlder c.sessions c.store.sessionsById sessions
  newTerminals : NoneOlder c.terminals c.store.terminalsById terminals
  newTabs : hasTabs = true → NoneOlder c.tabs c.store.tabsById tabs
  windows : ∀ window ∈ missingWindows (keptTabs c.store (versions V.tabs tabs) hasTabs baseline)
      (c.store.mergedSessions (versions V.sessions sessions) baseline).rows,
    Unsent (c.tabs ++ sentTabs tabs hasTabs) window.id

/-- The condition on a delivery. An event that is stale needs none, but for a tab of revision 0 whose
identifier the client has taken for a window of its own; a newer version of a terminal does not
restore an archived one, and what an event changes of the terminal held makes it the version. -/
def Meets (V : Catalog) (c : Client) : Delivery → Prop
  | .ask | .session _ _ _ => True
  | .snapshot asked sessions terminals tabs hasTabs => ∀ baseline, c.asked[asked]? = some baseline →
      c.Timely V baseline sessions terminals tabs hasTabs
  | .tab _ id revision =>
    0 < revision ∨ ∀ tab ∈ c.store.tabsById.rows, tab.id = id → ¬Unsent c.tabs id
  | .terminal _ id revision => c.store.knownTerminal id < revision → ∀ held,
      c.store.terminalsById.get? id = some held → archived held.archivedAt = true →
        archived (V.terminals.row id revision).archivedAt = true
  | .outputChanged id revision => c.store.knownTerminal id < revision → ∀ held,
      c.store.terminalsById.get? id = some held →
        { held with
          output := (V.terminals.row id revision).output
          revision := revision
          updatedAt := (V.terminals.row id revision).updatedAt } = V.terminals.row id revision
  | .terminalArchived id revision => c.store.knownTerminal id < revision → ∀ held,
      c.store.terminalsById.get? id = some held →
        { held with
          archivedAt := some (V.terminals.row id revision).updatedAt
          revision := revision
          updatedAt := (V.terminals.row id revision).updatedAt } = V.terminals.row id revision

/-- Every row is the newest version delivered, but for the client's own windows, and nothing whose
newest version is archived is listed. -/
structure Converged (V : Catalog) (c : Client) : Prop where
  sessions : ∀ session ∈ c.store.sessionsById.rows, V.sessions.Current c.sessions session
  tabs : ∀ tab ∈ c.store.tabsById.rows, V.tabs.Current c.tabs tab ∨
    (∃ session, tab = fallbackTab session) ∧ Unsent c.tabs tab.id
  terminals : ∀ terminal ∈ c.store.terminalsById.rows, V.terminals.Current c.terminals terminal
  hiddenSessions : ∀ id revision, Newest c.sessions id revision →
    archived (V.sessions.row id revision).archivedAt = true → id ∉ c.store.visibleSessionIds
  hiddenTabs : ∀ id revision, Newest c.tabs id revision →
    archived (V.tabs.row id revision).archivedAt = true →
      ∀ sessionId, id ∉ c.store.visibleTabIdsBySession sessionId
  hiddenTerminals : ∀ id revision, Newest c.terminals id revision →
    archived (V.terminals.row id revision).archivedAt = true →
      (∀ sessionId, id ∉ c.store.terminalIdsBySession sessionId) ∧
        ∀ tabId, id ∉ c.store.terminalIdsByTab tabId

end Client

/-! ### Copies -/

section Copies
variable {ρ : Type} {key : ρ → String} {rev : ρ → ℕ} {V : VersionsOf key rev} {own : ρ → Prop}
  {delivered more : List (String × ℕ)} {table merged : Table key} {known baseline : String → ℕ}
  {named : IndexMap String ℕ} {id : String} {revision : ℕ} {row : ρ}

/-- The rows follow the deliveries, and the revisions known are the newest. -/
structure Copy (V : VersionsOf key rev) (own : ρ → Prop) (delivered : List (String × ℕ))
    (table : Table key) (known : String → ℕ) : Prop where
  tracks : V.Tracks own delivered table
  knows : Knows delivered known

/-- A baseline names revisions that were delivered. -/
def Drawn (delivered : List (String × ℕ)) (baseline : String → ℕ) : Prop :=
  ∀ id, baseline id = 0 ∨ (id, baseline id) ∈ delivered

theorem Drawn.append (h : Drawn delivered baseline) : Drawn (delivered ++ more) baseline :=
  fun id => (h id).imp_right fun hmem => List.mem_append_left _ hmem

theorem Copy.captured (h : Copy V own delivered table known) :
    Drawn delivered (fun id => (table.get? id).elim 0 rev) := by
  intro id
  change (table.get? id).elim 0 rev = 0 ∨ (id, (table.get? id).elim 0 rev) ∈ delivered
  cases hheld : table.get? id with
  | none => exact .inl rfl
  | some row =>
    obtain rfl := Table.get?_key hheld
    obtain ⟨hnewest, -⟩ | ⟨-, hzero, -⟩ := h.tracks row (findRow_mem hheld)
    · exact .inr hnewest.1
    · exact .inl hzero

/-- What is known of a row held is no less than its revision. -/
theorem Copy.known_eq (h : Copy V own delivered table known) :
    max (known id) ((table.get? id).elim 0 rev) = known id := by
  cases hheld : table.get? id with
  | none => exact Nat.max_zero _
  | some row =>
    have hle := (h.tracks row (findRow_mem hheld)).rev_le h.knows
    rw [Table.get?_key hheld] at hle
    exact max_eq_left hle

theorem Copy.stale (h : Copy V own delivered table known) (hr : revision ≤ known id)
    (hown : 0 < revision ∨ ∀ row ∈ table.rows, key row = id → ¬Unsent delivered id) :
    Copy V own (delivered ++ [(id, revision)]) table known :=
  ⟨h.tracks.stale h.knows hr hown, h.knows.stale hr⟩

theorem Copy.fresh (h : Copy V own delivered table known) (hr : known id < revision) :
    Copy V own (delivered ++ [(id, revision)]) (table.set (V.row id revision))
      (Function.update known id revision) :=
  ⟨h.tracks.fresh h.knows hr, h.knows.fresh hr⟩

/-- A version of a row that is not held and is not taken up. -/
theorem Copy.skip (h : Copy V own delivered table known) (hr : known id < revision)
    (habsent : table.get? id = none) :
    Copy V own (delivered ++ [(id, revision)]) table (Function.update known id revision) :=
  ⟨h.tracks.skip (findRow_eq_none.mp habsent), h.knows.fresh hr⟩

/-- Where no row is the client's own, all are the newest. -/
theorem Copy.current (h : Copy V (fun _ => False) delivered table known) :
    ∀ row ∈ table.rows, V.Current delivered row := by
  intro row hrow
  obtain hcurrent | ⟨hfalse, -⟩ := h.tracks row hrow
  · exact hcurrent
  · exact hfalse.elim

theorem Copy.not_unsent (h : Copy V (fun _ => False) delivered table known) :
    ∀ row ∈ table.rows, key row = id → ¬Unsent delivered id := by
  rintro row hrow rfl hunsent
  exact hunsent _ (h.current row hrow).1.1

/-- A row that follows is the newest version, if one was delivered. -/
theorem Copy.unarchived (h : Copy V own delivered table known) {archivedAt : ρ → Option String}
    (hrow : row ∈ table.rows) (hkey : key row = id) (hvisible : archived (archivedAt row) = false)
    (hnewest : Newest delivered id revision) : archived (archivedAt (V.row id revision)) = false := by
  subst hkey
  have hcurrent := (h.tracks row hrow).current fun hunsent => hunsent _ hnewest.1
  rw [hnewest.unique hcurrent.1, ← hcurrent.2]
  exact hvisible

/-! ### Merging -/

theorem mem_mergeRows {incoming : Table key}
    (h : row ∈ (mergeRows rev table incoming baseline).rows) :
    (row ∈ table.rows ∧ incoming.has (key row) = false) ∨
      ∃ came ∈ incoming.rows, key came = key row ∧
        ((row ∈ table.rows ∧ rev came < rev row) ∨
          (row = came ∧ ∀ held, table.get? (key row) = some held → rev held ≤ rev came)) := by
  obtain hincoming | hkept := List.mem_append.mp (Table.mem_ofList h)
  · obtain ⟨came, hcame, rfl⟩ := List.mem_map.mp hincoming
    refine .inr ⟨came, hcame, ?_⟩
    cases hheld : table.get? (key came) with
    | none =>
      refine ⟨rfl, .inr ⟨rfl, fun held hsome => ?_⟩⟩
      cases hheld.symm.trans hsome
    | some held =>
      have hkey := Table.get?_key hheld
      by_cases hlt : rev came < rev held
      · simp only [hlt, if_true]
        exact ⟨hkey.symm, .inl ⟨findRow_mem hheld, trivial⟩⟩
      · simp only [hlt, if_false]
        refine ⟨trivial, .inr ⟨trivial, fun other hsome => ?_⟩⟩
        obtain rfl := Option.some.inj (hheld.symm.trans hsome)
        exact Nat.le_of_not_lt hlt
  · obtain ⟨hrow, hother⟩ := List.mem_filter.mp hkept
    simp only [Bool.and_eq_true, Bool.not_eq_true'] at hother
    exact .inl ⟨hrow, hother.1⟩

theorem has_mergeRows {incoming : Table key} (h : incoming.has id = true) :
    (mergeRows rev table incoming baseline).has id = true := by
  obtain ⟨came, hcame, rfl⟩ := Table.has_iff.mp h
  refine Table.has_ofList.mpr ?_
  cases hheld : table.get? (key came) with
  | none =>
    refine ⟨came, List.mem_append_left _ (List.mem_map.mpr ⟨came, hcame, ?_⟩), rfl⟩
    simp only [hheld]
  | some held =>
    refine ⟨if rev came < rev held then held else came,
      List.mem_append_left _ (List.mem_map.mpr ⟨came, hcame, ?_⟩), ?_⟩
    · simp only [hheld]
    · split
      · exact Table.get?_key hheld
      · rfl

theorem mem_versions {came : ρ} (h : came ∈ (Table.ofList (versions V named) : Table key).rows) :
    (key came, rev came) ∈ named.entries ∧ came = V.row (key came) (rev came) := by
  obtain ⟨e, he, rfl⟩ := List.mem_map.mp (Table.mem_ofList h)
  rw [V.key_row, V.rev_row]
  exact ⟨he, rfl⟩

theorem has_versions {r : ℕ} (h : (id, r) ∈ named.entries) :
    (Table.ofList (versions V named) : Table key).has id = true :=
  Table.has_ofList.mpr ⟨V.row id r, List.mem_map.mpr ⟨(id, r), h, rfl⟩, V.key_row id r⟩

/-- Merging a snapshot that brings nothing back keeps the rows the newest. -/
theorem tracks_mergeRows (h : V.Tracks own delivered table) (hnone : NoneOlder delivered table named) :
    V.Tracks own (delivered ++ named.entries)
      (mergeRows rev table (.ofList (versions V named)) baseline) := by
  intro row hrow
  obtain ⟨hheld, hother⟩ | ⟨came, hcame, hkey, hrest⟩ := mem_mergeRows hrow
  · refine (h row hheld).append fun r hr => ?_
    rw [has_versions hr] at hother
    cases hother
  · obtain ⟨hnamed, hversion⟩ := mem_versions hcame
    have hone : ∀ r, (key row, r) ∈ named.entries → r = rev came := by
      intro r hr
      exact IndexMap.eq_of_mem hr (hkey ▸ hnamed)
    obtain ⟨hheld, hlt⟩ | ⟨rfl, hnewer⟩ := hrest
    · refine (h row hheld).append fun r hr => ?_
      rw [hone r hr]
      exact hlt
    · refine .inl ⟨newest_of_more hnamed (fun r hr => ?_) fun r hr => (hone r hr).le, hversion⟩
      cases hheld : table.get? (key row) with
      | none => exact hnone _ hnamed (by rw [Table.has, hheld]; rfl) r hr
      | some held =>
        have hle := hnewer held hheld
        have hkeyHeld := Table.get?_key hheld
        obtain ⟨hnewest, -⟩ | ⟨-, -, hunsent⟩ := h held (findRow_mem hheld)
        · exact (hnewest.2 r (hkeyHeld ▸ hr)).trans hle
        · exact absurd (hkeyHeld ▸ hr) (hunsent r)

/-! ### What is known after a merge -/

theorem raise_cons {rows : List ρ} : raise key rev (row :: rows) known =
    raise key rev rows (Function.update known (key row) (max (known (key row)) (rev row))) := rfl

theorem le_raise {rows : List ρ} : known id ≤ raise key rev rows known id := by
  induction rows generalizing known with
  | nil => exact le_rfl
  | cons row rows ih =>
    rw [raise_cons]
    refine le_trans ?_ ih
    by_cases hid : id = key row
    · subst hid
      rw [Function.update_self]
      exact le_max_left _ _
    · rw [Function.update_of_ne hid]

theorem rev_le_raise {rows : List ρ} (h : row ∈ rows) :
    rev row ≤ raise key rev rows known (key row) := by
  induction rows generalizing known with
  | nil => cases h
  | cons first rows ih =>
    rw [raise_cons]
    obtain rfl | hrest := List.mem_cons.mp h
    · refine le_trans ?_ le_raise
      rw [Function.update_self]
      exact le_max_right _ _
    · exact ih hrest

theorem raise_cases {rows : List ρ} : raise key rev rows known id = known id ∨
    ∃ row ∈ rows, key row = id ∧ raise key rev rows known id = rev row := by
  induction rows generalizing known with
  | nil => exact .inl rfl
  | cons first rows ih =>
    rw [raise_cons]
    obtain hsame | ⟨row, hrow, hkey, heq⟩ :=
      @ih (Function.update known (key first) (max (known (key first)) (rev first)))
    · by_cases hid : id = key first
      · subst hid
        rw [hsame, Function.update_self]
        obtain hmax | hmax := max_choice (known (key first)) (rev first)
        · exact .inl hmax
        · exact .inr ⟨first, List.mem_cons_self, rfl, hmax⟩
      · rw [hsame, Function.update_of_ne hid]
        exact .inl rfl
    · exact .inr ⟨row, List.mem_cons_of_mem _ hrow, hkey, heq⟩

/-- Raising what is known by the merged rows and by a baseline of earlier revisions. -/
theorem copy_raised (hknows : Knows delivered known) (htracks : V.Tracks own (delivered ++ more) merged)
    (hheld : ∀ id r, (id, r) ∈ more → merged.has id = true) (hbaseline : Drawn delivered baseline) :
    Copy V own (delivered ++ more) merged
      (fun id => max (raise key rev merged.rows known id) (baseline id)) := by
  refine ⟨htracks, fun id => ⟨fun r hr => le_max_of_le_left ?_, ?_⟩⟩
  · obtain hold | hnew := List.mem_append.mp hr
    · exact ((hknows id).1 r hold).trans le_raise
    · obtain ⟨row, hrow, rfl⟩ := Table.has_iff.mp (hheld id r hnew)
      have hcurrent := (htracks row hrow).current fun hunsent => hunsent r hr
      exact (hcurrent.1.2 r hr).trans (rev_le_raise hrow)
  · obtain hmax | hmax := max_choice (raise key rev merged.rows known id) (baseline id)
    · rw [hmax]
      have hcases : raise key rev merged.rows known id = known id ∨
          ∃ row ∈ merged.rows, key row = id ∧ raise key rev merged.rows known id = rev row :=
        raise_cases
      obtain hsame | ⟨row, hrow, rfl, heq⟩ := hcases
      · rw [hsame]
        exact (hknows id).2.imp_right fun hmem => List.mem_append_left _ hmem
      · rw [heq]
        obtain ⟨hnewest, -⟩ | ⟨-, hzero, -⟩ := htracks row hrow
        · exact .inr hnewest.1
        · exact .inl hzero
    · rw [hmax]
      exact (hbaseline id).imp_right fun hmem => List.mem_append_left _ hmem

end Copies

theorem withFallbacks_eq {tabs : Tabs} {sessions : List AppSession} :
    withFallbacks tabs sessions = tabs.setAll (missingWindows tabs sessions) := by
  induction sessions generalizing tabs with
  | nil => rfl
  | cons session sessions ih =>
    rw [withFallbacks, missingWindows]
    split
    · exact ih
    · exact ih

theorem mem_missingWindows {tabs : Tabs} {sessions : List AppSession} {window : SessionTab}
    (h : window ∈ missingWindows tabs sessions) : ∃ session, window = fallbackTab session := by
  induction sessions generalizing tabs with
  | nil => cases h
  | cons session sessions ih =>
    rw [missingWindows] at h
    split at h
    · exact ih h
    · obtain rfl | hrest := List.mem_cons.mp h
      · exact ⟨session, rfl⟩
      · exact ih hrest

/-- A window of the client's own. -/
def Made (tab : SessionTab) : Prop := ∃ session, tab = fallbackTab session

/-- Windows of identifiers that were not delivered may be added. -/
theorem tracks_withFallbacks {V : VersionsOf SessionTab.id SessionTab.rev}
    {delivered : List (String × ℕ)} {tabs : Tabs} {sessions : List AppSession}
    (h : V.Tracks Made delivered tabs)
    (hwindows : ∀ window ∈ missingWindows tabs sessions, Unsent delivered window.id) :
    V.Tracks Made delivered (withFallbacks tabs sessions) := by
  intro tab htab
  rw [withFallbacks_eq] at htab
  obtain hwindow | hheld := Table.mem_setAll htab
  · obtain ⟨session, rfl⟩ := mem_missingWindows hwindow
    exact .inr ⟨⟨session, rfl⟩, rfl, hwindows _ hwindow⟩
  · exact h tab hheld

theorem has_withFallbacks {tabs : Tabs} {sessions : List AppSession} {id : String}
    (h : tabs.has id = true) : (withFallbacks tabs sessions).has id = true := by
  rw [withFallbacks_eq, Table.has_setAll]
  exact .inl h

/-! ### The rows and revisions of the store -/

namespace MuxSessionStore
variable {store : MuxSessionStore}

def contents (store : MuxSessionStore) : Sessions × Tabs × Terminals × RevisionSnapshot :=
  (store.sessionsById, store.tabsById, store.terminalsById, store.revisions)

theorem reconcileSelection_contents : store.reconcileSelection.contents = store.contents := by
  rw [reconcileSelection]
  split <;> rfl

theorem applySession_contents (session : AppSession) : (store.applySession session).contents =
    (store.sessionsById.set session, store.tabsById, store.terminalsById, store.revisions) := by
  rw [applySession]
  split <;> rfl

theorem applyTab_contents (tab : SessionTab) : (store.applyTab tab).contents =
    (store.sessionsById, store.tabsById.set tab, store.terminalsById, store.revisions) := by
  have hset : (store.setTab tab).contents =
      (store.sessionsById, store.tabsById.set tab, store.terminalsById, store.revisions) := by
    rw [setTab]
    split <;> rfl
  rw [applyTab]
  split <;> exact hset

theorem upsertTerminal_contents (terminal : MuxTerminal) : (store.upsertTerminal terminal).contents =
    (store.sessionsById, store.tabsById, store.terminalsById.set terminal, store.revisions) := by
  simp only [upsertTerminal]
  split <;> rfl

theorem mergeSnapshot_contents {sessions : List AppSession} {terminals : List MuxTerminal}
    {tabs : List SessionTab} {hasTabs : Bool} {baseline : RevisionSnapshot} :
    (store.mergeSnapshot sessions terminals tabs hasTabs baseline).contents =
      (store.mergedSessions sessions baseline,
        withFallbacks (keptTabs store tabs hasTabs baseline)
          (store.mergedSessions sessions baseline).rows,
        mergeRows MuxTerminal.revision store.terminalsById (.ofList terminals) baseline.terminals,
        ⟨fun id => max (raise AppSession.id AppSession.rev
            (store.mergedSessions sessions baseline).rows store.revisions.sessions id)
            (baseline.sessions id),
          fun id => max (raise SessionTab.id SessionTab.rev
            (withFallbacks (keptTabs store tabs hasTabs baseline)
              (store.mergedSessions sessions baseline).rows).rows store.revisions.tabs id)
            (baseline.tabs id),
          fun id => max (raise MuxTerminal.id MuxTerminal.revision
            (mergeRows MuxTerminal.revision store.terminalsById (.ofList terminals)
              baseline.terminals).rows store.revisions.terminals id) (baseline.terminals id)⟩) :=
  reconcileSelection_contents

/-- What a session event leaves. -/
theorem apply_session {tag : SessionEventTag} {revision : ℕ} {session : AppSession}
    (h : store.Listed) (hr : store.knownSession session.id < revision) :
    (store.apply (.session tag revision session)).Listed ∧
      (store.apply (.session tag revision session)).contents =
        (store.sessionsById.set session, store.tabsById, store.terminalsById,
          { store.revisions with
            sessions := Function.update store.revisions.sessions session.id revision }) := by
  rw [apply, if_neg (Nat.not_le_of_gt hr), reconcileSelection_contents, applySession_contents]
  refine ⟨reconcileSelection_listed (applySession_listed ?_ session), rfl⟩
  exact ⟨h.sessions, h.tabs, h.bySession, h.byTab⟩

theorem apply_tab {tag : TabEventTag} {revision : ℕ} {tab : SessionTab}
    (h : store.Listed) (hr : store.knownTab tab.id < revision) :
    (store.apply (.tab tag revision tab)).Listed ∧
      (store.apply (.tab tag revision tab)).contents =
        (store.sessionsById, store.tabsById.set tab, store.terminalsById,
          { store.revisions with
            tabs := Function.update store.revisions.tabs tab.id revision }) := by
  rw [apply, if_neg (Nat.not_le_of_gt hr), reconcileSelection_contents, applyTab_contents]
  refine ⟨reconcileSelection_listed (applyTab_listed ?_ tab), rfl⟩
  exact ⟨h.sessions, h.tabs, h.bySession, h.byTab⟩

/-- What a terminal event leaves when it sets the row of its terminal. -/
structure Upserts (store next : MuxSessionStore) (id : String) (revision : ℕ)
    (terminals : Terminals) : Prop where
  listed : next.Listed
  contents : next.contents = (store.sessionsById, store.tabsById, terminals,
    { store.revisions with terminals := Function.update store.revisions.terminals id revision })

/-- A terminal event that comes to set a row, in a store with the same rows and lists. -/
theorem upserts_reconciled {next : MuxSessionStore} {id : String} {revision : ℕ}
    {terminal : MuxTerminal} (h : next.Listed)
    (hcontents : next.contents = (store.sessionsById, store.tabsById, store.terminalsById,
      { store.revisions with
        terminals := Function.update store.revisions.terminals id revision })) :
    store.Upserts (next.upsertTerminal terminal).reconcileSelection id revision
      (store.terminalsById.set terminal) := by
  refine ⟨reconcileSelection_listed (upsertTerminal_listed h terminal), ?_⟩
  rw [reconcileSelection_contents, upsertTerminal_contents]
  simp only [MuxSessionStore.contents, Prod.mk.injEq] at hcontents
  rw [hcontents.1, hcontents.2.1, hcontents.2.2.1, hcontents.2.2.2]

/-- An event of a terminal that is not held is remembered by its revision only. -/
theorem upserts_none (h : store.Listed) {id : String} {revision : ℕ} :
    store.Upserts { store with revisions := { store.revisions with
      terminals := Function.update store.revisions.terminals id revision } }.reconcileSelection
        id revision store.terminalsById := by
  refine ⟨reconcileSelection_listed ?_, ?_⟩
  · exact ⟨h.sessions, h.tabs, h.bySession, h.byTab⟩
  · rw [reconcileSelection_contents]
    rfl

end MuxSessionStore

/-! ### Deliveries -/

namespace Client
variable {V : Catalog} {c c' : Client}

/-- The rows follow, the revisions are known, the baselines are drawn from what was delivered, and
only rows that are not archived are listed. -/
structure Sound (V : Catalog) (c : Client) : Prop where
  sessions : Copy V.sessions (fun _ => False) c.sessions c.store.sessionsById
    c.store.revisions.sessions
  tabs : Copy V.tabs Made c.tabs c.store.tabsById c.store.revisions.tabs
  terminals : Copy V.terminals (fun _ => False) c.terminals c.store.terminalsById
    c.store.revisions.terminals
  asked : ∀ baseline ∈ c.asked, Drawn c.sessions baseline.sessions ∧ Drawn c.tabs baseline.tabs ∧
    Drawn c.terminals baseline.terminals
  listed : c.store.Listed

theorem initial_sound : initial.Sound V := by
  refine ⟨⟨?_, knows_nil⟩, ⟨?_, knows_nil⟩, ⟨?_, knows_nil⟩, ?_, MuxSessionStore.initial_listed⟩
  · intro row hrow
    cases hrow
  · intro row hrow
    cases hrow
  · intro row hrow
    cases hrow
  · intro baseline hbaseline
    cases hbaseline

theorem Sound.ask (h : c.Sound V) :
    Sound V { c with asked := c.asked ++ [c.store.captureRevisions] } := by
  refine ⟨h.sessions, h.tabs, h.terminals, fun baseline hbaseline => ?_, h.listed⟩
  obtain hold | hnew := List.mem_append.mp hbaseline
  · exact h.asked baseline hold
  · obtain rfl := List.mem_singleton.mp hnew
    exact ⟨h.sessions.captured, h.tabs.captured, h.terminals.captured⟩

/-- The baselines stay drawn from what is delivered. -/
theorem Sound.drawn (h : c.Sound V) {sessions tabs terminals : List (String × ℕ)} :
    ∀ baseline ∈ c.asked, Drawn (c.sessions ++ sessions) baseline.sessions ∧
      Drawn (c.tabs ++ tabs) baseline.tabs ∧ Drawn (c.terminals ++ terminals) baseline.terminals := by
  intro baseline hbaseline
  obtain ⟨hsessions, htabs, hterminals⟩ := h.asked baseline hbaseline
  exact ⟨hsessions.append, htabs.append, hterminals.append⟩

theorem sound_of_contents {store : MuxSessionStore} {asked : List RevisionSnapshot}
    {sessions tabs terminals : List (String × ℕ)} {sessionsById : Sessions} {tabsById : Tabs}
    {terminalsById : Terminals} {revisions : RevisionSnapshot} (hlisted : store.Listed)
    (hcontents : store.contents = (sessionsById, tabsById, terminalsById, revisions))
    (hsessions : Copy V.sessions (fun _ => False) sessions sessionsById revisions.sessions)
    (htabs : Copy V.tabs Made tabs tabsById revisions.tabs)
    (hterminals : Copy V.terminals (fun _ => False) terminals terminalsById revisions.terminals)
    (hasked : ∀ baseline ∈ asked, Drawn sessions baseline.sessions ∧ Drawn tabs baseline.tabs ∧
      Drawn terminals baseline.terminals) :
    Sound V ⟨store, asked, sessions, tabs, terminals⟩ := by
  simp only [MuxSessionStore.contents, Prod.mk.injEq] at hcontents
  obtain ⟨rfl, rfl, rfl, rfl⟩ := hcontents
  exact ⟨hsessions, htabs, hterminals, hasked, hlisted⟩

/-- The tabs that a snapshot leaves before the client adds windows. -/
theorem Sound.keptTabs (h : c.Sound V) {tabs : IndexMap String ℕ} {hasTabs : Bool}
    {baseline : RevisionSnapshot} (hnew : hasTabs = true → NoneOlder c.tabs c.store.tabsById tabs) :
    V.tabs.Tracks Made (c.tabs ++ sentTabs tabs hasTabs)
        (keptTabs c.store (versions V.tabs tabs) hasTabs baseline) ∧
      ∀ id r, (id, r) ∈ sentTabs tabs hasTabs →
        (MuxStore.keptTabs c.store (versions V.tabs tabs) hasTabs baseline).has id = true := by
  cases hasTabs with
  | false =>
    refine ⟨?_, fun id r hr => ?_⟩
    · rw [sentTabs, if_neg (by simp), List.append_nil]
      exact h.tabs.tracks
    · rw [sentTabs, if_neg (by simp)] at hr
      cases hr
  | true =>
    rw [sentTabs, if_pos rfl, MuxStore.keptTabs, if_pos rfl]
    exact ⟨tracks_mergeRows h.tabs.tracks (hnew rfl), fun id r hr => has_mergeRows (has_versions hr)⟩

theorem Sound.snapshot (h : c.Sound V) {baseline : RevisionSnapshot}
    (hasked : baseline ∈ c.asked) {sessions terminals tabs : IndexMap String ℕ} {hasTabs : Bool}
    (htimely : c.Timely V baseline sessions terminals tabs hasTabs) :
    Sound V { c with
      store := c.store.mergeSnapshot (versions V.sessions sessions) (versions V.terminals terminals)
        (versions V.tabs tabs) hasTabs baseline
      sessions := c.sessions ++ sessions.entries
      tabs := c.tabs ++ sentTabs tabs hasTabs
      terminals := c.terminals ++ terminals.entries } := by
  obtain ⟨hdrawnSessions, hdrawnTabs, hdrawnTerminals⟩ := h.asked baseline hasked
  obtain ⟨htracks, hheld⟩ := @Sound.keptTabs V c h tabs hasTabs baseline htimely.newTabs
  refine sound_of_contents ?_ MuxSessionStore.mergeSnapshot_contents ?_ ?_ ?_ h.drawn
  · exact MuxSessionStore.reconcileSelection_listed (MuxSessionStore.rebuildVisibleTabs_listed
      fun id hid => MuxSessionStore.mem_visibleIds_unarchived hid)
  · exact copy_raised h.sessions.knows (tracks_mergeRows h.sessions.tracks htimely.newSessions)
      (fun id r hr => has_mergeRows (has_versions hr)) hdrawnSessions
  · exact copy_raised h.tabs.knows (tracks_withFallbacks htracks htimely.windows)
      (fun id r hr => has_withFallbacks (hheld id r hr)) hdrawnTabs
  · exact copy_raised h.terminals.knows (tracks_mergeRows h.terminals.tracks htimely.newTerminals)
      (fun id r hr => has_mergeRows (has_versions hr)) hdrawnTerminals

theorem Sound.session (h : c.Sound V) {tag : SessionEventTag} {id : String} {revision : ℕ} :
    Sound V { c with
      store := c.store.apply (.session tag revision (V.sessions.row id revision))
      sessions := c.sessions ++ [(id, revision)] } := by
  have hknown : c.store.knownSession id = c.store.revisions.sessions id := h.sessions.known_eq
  by_cases hr : revision ≤ c.store.revisions.sessions id
  · have hstale : c.store.apply (.session tag revision (V.sessions.row id revision)) = c.store := by
      rw [MuxSessionStore.apply, V.sessions.key_row, hknown, if_pos hr]
    rw [hstale]
    exact ⟨h.sessions.stale hr (.inr h.sessions.not_unsent), h.tabs, h.terminals,
      fun baseline hbaseline => ⟨(h.asked baseline hbaseline).1.append,
        (h.asked baseline hbaseline).2⟩, h.listed⟩
  · obtain ⟨hlisted, hcontents⟩ := @MuxSessionStore.apply_session c.store tag revision
      (V.sessions.row id revision) h.listed (by rw [V.sessions.key_row, hknown]; omega)
    rw [V.sessions.key_row] at hcontents
    exact sound_of_contents hlisted hcontents (h.sessions.fresh (by omega)) h.tabs h.terminals
      fun baseline hbaseline => ⟨(h.asked baseline hbaseline).1.append,
        (h.asked baseline hbaseline).2⟩

theorem Sound.tab (h : c.Sound V) {tag : TabEventTag} {id : String} {revision : ℕ}
    (hmeets : 0 < revision ∨ ∀ tab ∈ c.store.tabsById.rows, tab.id = id → ¬Unsent c.tabs id) :
    Sound V { c with
      store := c.store.apply (.tab tag revision (V.tabs.row id revision))
      tabs := c.tabs ++ [(id, revision)] } := by
  have hasked : ∀ baseline ∈ c.asked, Drawn c.sessions baseline.sessions ∧
      Drawn (c.tabs ++ [(id, revision)]) baseline.tabs ∧
      Drawn c.terminals baseline.terminals := fun baseline hbaseline =>
    ⟨(h.asked baseline hbaseline).1, (h.asked baseline hbaseline).2.1.append,
      (h.asked baseline hbaseline).2.2⟩
  have hknown : c.store.knownTab id = c.store.revisions.tabs id := h.tabs.known_eq
  by_cases hr : revision ≤ c.store.revisions.tabs id
  · have hstale : c.store.apply (.tab tag revision (V.tabs.row id revision)) = c.store := by
      rw [MuxSessionStore.apply, V.tabs.key_row, hknown, if_pos hr]
    rw [hstale]
    exact ⟨h.sessions, h.tabs.stale hr hmeets, h.terminals, hasked, h.listed⟩
  · obtain ⟨hlisted, hcontents⟩ := @MuxSessionStore.apply_tab c.store tag revision
      (V.tabs.row id revision) h.listed (by rw [V.tabs.key_row, hknown]; omega)
    rw [V.tabs.key_row] at hcontents
    exact sound_of_contents hlisted hcontents h.sessions (h.tabs.fresh (by omega)) h.terminals hasked

/-- A terminal event that is stale, or that leaves the newest version or no row. -/
theorem Sound.terminalEvent (h : c.Sound V) {event : MuxEvent} {id : String} {revision : ℕ}
    (hstale : revision ≤ c.store.knownTerminal id → c.store.apply event = c.store)
    (hset : c.store.knownTerminal id < revision →
      c.store.Upserts (c.store.apply event) id revision
          (c.store.terminalsById.set (V.terminals.row id revision)) ∨
        c.store.terminalsById.get? id = none ∧
          c.store.Upserts (c.store.apply event) id revision c.store.terminalsById) :
    Sound V { c with
      store := c.store.apply event
      terminals := c.terminals ++ [(id, revision)] } := by
  have hasked : ∀ baseline ∈ c.asked, Drawn c.sessions baseline.sessions ∧
      Drawn c.tabs baseline.tabs ∧ Drawn (c.terminals ++ [(id, revision)]) baseline.terminals :=
    fun baseline hbaseline => ⟨(h.asked baseline hbaseline).1, (h.asked baseline hbaseline).2.1,
      (h.asked baseline hbaseline).2.2.append⟩
  have hknown : c.store.knownTerminal id = c.store.revisions.terminals id := h.terminals.known_eq
  rw [hknown] at hstale hset
  by_cases hr : revision ≤ c.store.revisions.terminals id
  · rw [hstale hr]
    exact ⟨h.sessions, h.tabs, h.terminals.stale hr (.inr h.terminals.not_unsent), hasked, h.listed⟩
  · have hfresh : c.store.revisions.terminals id < revision := by omega
    obtain hupserts | ⟨habsent, hupserts⟩ := hset hfresh
    · exact sound_of_contents hupserts.listed hupserts.contents h.sessions h.tabs
        (h.terminals.fresh hfresh) hasked
    · exact sound_of_contents hupserts.listed hupserts.contents h.sessions h.tabs
        (h.terminals.skip hfresh habsent) hasked

theorem Sound.terminal (h : c.Sound V) {tag : TerminalEventTag} {id : String} {revision : ℕ}
    (hmeets : c.Meets V (.terminal tag id revision)) :
    Sound V { c with
      store := c.store.apply (.terminal tag revision id (V.terminals.row id revision))
      terminals := c.terminals ++ [(id, revision)] } := by
  refine h.terminalEvent (fun hr => if_pos hr) fun hr => .inl ?_
  have hrestores : ((c.store.terminalsById.get? (V.terminals.row id revision).id).any
      (fun current => archived current.archivedAt) &&
        !archived (V.terminals.row id revision).archivedAt) = false := by
    rw [V.terminals.key_row]
    cases hheld : c.store.terminalsById.get? id with
    | none => rfl
    | some held =>
      cases harchived : archived held.archivedAt with
      | false => simp [harchived]
      | true => simp [hmeets hr held hheld harchived]
  rw [MuxSessionStore.apply, if_neg (Nat.not_le_of_gt hr), MuxSessionStore.applyTerminal,
    if_neg (by simp only [hrestores]; simp)]
  refine MuxSessionStore.upserts_reconciled ?_ rfl
  exact ⟨h.listed.sessions, h.listed.tabs, h.listed.bySession, h.listed.byTab⟩

theorem Sound.outputChanged (h : c.Sound V) {id : String} {revision : ℕ}
    (hmeets : c.Meets V (.outputChanged id revision)) :
    Sound V { c with
      store := c.store.apply (.outputChanged revision (V.terminals.row id revision).updatedAt id
        (V.terminals.row id revision).output)
      terminals := c.terminals ++ [(id, revision)] } := by
  refine h.terminalEvent (fun hr => if_pos hr) fun hr => ?_
  cases hheld : c.store.terminalsById.get? id with
  | none =>
    refine .inr ⟨rfl, ?_⟩
    simp only [MuxSessionStore.apply, if_neg (Nat.not_le_of_gt hr), hheld]
    exact MuxSessionStore.upserts_none h.listed
  | some held =>
    have hversion := hmeets hr held hheld
    refine .inl ?_
    simp only [MuxSessionStore.apply, if_neg (Nat.not_le_of_gt hr), hheld]
    rw [hversion]
    refine MuxSessionStore.upserts_reconciled ?_ rfl
    exact ⟨h.listed.sessions, h.listed.tabs, h.listed.bySession, h.listed.byTab⟩

theorem Sound.terminalArchived (h : c.Sound V) {id : String} {revision : ℕ}
    (hmeets : c.Meets V (.terminalArchived id revision)) :
    Sound V { c with
      store := c.store.apply
        (.terminalArchived revision (V.terminals.row id revision).updatedAt id)
      terminals := c.terminals ++ [(id, revision)] } := by
  refine h.terminalEvent (fun hr => if_pos hr) fun hr => ?_
  cases hheld : c.store.terminalsById.get? id with
  | none =>
    refine .inr ⟨rfl, ?_⟩
    simp only [MuxSessionStore.apply, if_neg (Nat.not_le_of_gt hr), hheld]
    exact MuxSessionStore.upserts_none h.listed
  | some held =>
    have hversion := hmeets hr held hheld
    refine .inl ?_
    simp only [MuxSessionStore.apply, if_neg (Nat.not_le_of_gt hr), hheld]
    rw [hversion]
    refine MuxSessionStore.upserts_reconciled ?_ rfl
    exact ⟨h.listed.sessions, h.listed.tabs, h.listed.bySession, h.listed.byTab⟩

/-- A delivery that meets the condition keeps the store with the newest versions. -/
theorem Sound.step (h : c.Sound V) {delivery : Delivery} (hmeets : c.Meets V delivery)
    (hstep : (machine V).step c delivery = some c') : c'.Sound V := by
  cases delivery with
  | ask =>
    cases hstep
    exact h.ask
  | snapshot asked sessions terminals tabs hasTabs =>
    obtain ⟨baseline, hbaseline, rfl⟩ := Option.map_eq_some_iff.mp hstep
    exact h.snapshot (List.mem_of_getElem? hbaseline) (hmeets baseline hbaseline)
  | session tag id revision =>
    cases hstep
    exact h.session
  | tab tag id revision =>
    cases hstep
    exact h.tab hmeets
  | terminal tag id revision =>
    cases hstep
    exact h.terminal hmeets
  | outputChanged id revision =>
    cases hstep
    exact h.outputChanged hmeets
  | terminalArchived id revision =>
    cases hstep
    exact h.terminalArchived hmeets

theorem Sound.converged (h : c.Sound V) : c.Converged V := by
  refine ⟨h.sessions.current, fun tab htab => ?_, h.terminals.current, ?_, ?_, ?_⟩
  · exact (h.tabs.tracks tab htab).imp_right fun hown => ⟨hown.1, hown.2.2⟩
  · intro id revision hnewest harchived hlisted
    obtain ⟨session, hsession, hid, hvisible⟩ := h.listed.sessions id hlisted
    cases harchived.symm.trans (h.sessions.unarchived hsession hid hvisible hnewest)
  · intro id revision hnewest harchived sessionId hlisted
    obtain ⟨tab, htab, hid, hvisible⟩ := h.listed.tabs sessionId id hlisted
    cases harchived.symm.trans (h.tabs.unarchived htab hid hvisible hnewest)
  · intro id revision hnewest harchived
    refine ⟨fun sessionId hlisted => ?_, fun tabId hlisted => ?_⟩
    · obtain ⟨terminal, hterminal, hid, hvisible, -⟩ := h.listed.bySession sessionId id hlisted
      cases harchived.symm.trans (h.terminals.unarchived hterminal hid hvisible hnewest)
    · obtain ⟨terminal, hterminal, hid, hvisible, -⟩ := h.listed.byTab tabId id hlisted
      cases harchived.symm.trans (h.terminals.unarchived hterminal hid hvisible hnewest)

/-- In every run whose deliveries meet the condition, the store converges at every point: each row is
the newest version delivered so far, and what is archived is not shown. -/
theorem store_converges {deliveries : List Delivery}
    (h : (machine V).Path (Meets V) initial deliveries c) : c.Converged V := by
  refine Sound.converged (Machine.Path.invariant (I := Sound V) ?_ h initial_sound)
  exact fun s a t hs hmeets hstep => hs.step hmeets hstep

/-- A host with one session in one window, and terminals that are archived at their second
revision. -/
def archivingHost : Catalog where
  sessions := ⟨fun id revision =>
    { id := id
      title := "Session"
      position := 0
      activeTabId := none
      activeMuxTerminalId := none
      revision := some revision
      createdAt := "2026-01-01"
      updatedAt := "2026-01-01"
      archivedAt := none }, fun _ _ => rfl, fun _ _ => rfl⟩
  tabs := ⟨fun id revision =>
    { id := id
      sessionId := "ses-1"
      title := "Window 1"
      position := 0
      activeMuxTerminalId := none
      layoutJson := none
      revision := some revision
      createdAt := "2026-01-01"
      updatedAt := "2026-01-01"
      archivedAt := none }, fun _ _ => rfl, fun _ _ => rfl⟩
  terminals := ⟨fun id revision =>
    { id := id
      sessionId := "ses-1"
      tabId := some "tab-a"
      title := "Terminal"
      position := 0
      status := .running
      input := default
      inputRevision := 0
      output := .pending
      error := none
      revision := revision
      createdAt := "2026-01-01"
      updatedAt := if revision < 2 then "2026-01-01" else "2026-01-02"
      startedAt := none
      finishedAt := none
      archivedAt := if revision < 2 then none else some "2026-01-02" }, fun _ _ => rfl, fun _ _ => rfl⟩

/-- The end of a terminal reaches a store that does not hold it yet, and then the snapshot that was
asked for before. -/
def lateSnapshot : List Delivery :=
  [.ask, .terminalArchived "term-1" 2,
    .snapshot 0 ⟨[("ses-1", 1)], by decide⟩ ⟨[("term-1", 1)], by decide⟩ ⟨[("tab-a", 1)], by decide⟩ true]

def inOrder : List Delivery :=
  [.ask, .snapshot 0 ⟨[("ses-1", 1)], by decide⟩ ⟨[("term-1", 1)], by decide⟩
    ⟨[("tab-a", 1)], by decide⟩ true, .terminalArchived "term-1" 2]

theorem converges_in_order :
    ∃ c, (machine archivingHost).Path (Meets archivingHost) initial inOrder c ∧
      c.Converged archivingHost := by
  have hnone : ∀ (named : IndexMap String ℕ) {ρ : Type} {key : ρ → String} (table : Table key),
      NoneOlder [] table named :=
    fun _ _ _ _ _ _ _ _ hr => absurd hr List.not_mem_nil
  obtain ⟨c, hpath⟩ : ∃ c, (machine archivingHost).Path (Meets archivingHost) initial inOrder c := by
    refine ⟨_, .cons trivial rfl (.cons (fun baseline hbaseline => ?_) rfl
      (.cons (fun _ held hheld => ?_) rfl (.nil _)))⟩
    · cases hbaseline
      refine ⟨hnone _ _, hnone _ _, fun _ => hnone _ _, fun window hwindow => ?_⟩
      rw [show missingWindows _ _ = [] by decide +kernel] at hwindow
      cases hwindow
    · obtain rfl : archivingHost.terminals.row "term-1" 1 = held :=
        Option.some.inj ((by decide +kernel : some (archivingHost.terminals.row "term-1" 1) = _).trans
          hheld)
      decide +kernel
  exact ⟨c, hpath, store_converges hpath⟩

theorem late_snapshot_restores :
    ¬ ∀ V deliveries c, (machine V).Run initial deliveries c → c.Converged V := by
  intro h
  obtain ⟨c, hrun, hlisted, hdelivered⟩ : ∃ c, (machine archivingHost).Run initial lateSnapshot c ∧
      "term-1" ∈ c.store.terminalIdsByTab "tab-a" ∧
      c.terminals = [("term-1", 2), ("term-1", 1)] :=
    ⟨_, .cons trivial rfl (.cons trivial rfl (.cons trivial rfl (.nil _))), by decide +kernel, rfl⟩
  have hnewest : Newest c.terminals "term-1" 2 := by
    rw [hdelivered]
    refine ⟨List.mem_cons_self, fun r hr => ?_⟩
    simp only [List.mem_cons, Prod.mk.injEq, true_and, List.not_mem_nil, or_false] at hr
    omega
  have hhidden := (h archivingHost lateSnapshot c hrun).hiddenTerminals "term-1" 2 hnewest
    (by decide +kernel)
  exact hhidden.2 "tab-a" hlisted

end Client
end PiDeck.MuxStore
