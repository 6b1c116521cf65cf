import Mathlib
import PiDeck.Collections.Stable
import PiDeck.MuxStore.Listing

/-! The indexes of terminals that are kept up to date, beside those that a rebuild would make. A
terminal that is drawn anew goes behind the terminals of its position, while a rebuild keeps the
order of the rows; and a confirmed close stops hiding its rows without being drawn at all. -/
namespace PiDeck.MuxStore
open PiDeck.Collections PiDeck.Transition
open PiDeck.Mux (MuxTerminal)

namespace MuxSessionStore
variable {store base next : MuxSessionStore} {terminal row : MuxTerminal} {id sessionId tabId : String}

/-- The indexes are those that a rebuild makes of the rows. -/
def Agrees (store : MuxSessionStore) : Prop :=
  store.terminalIdsBySession = store.rebuildTerminalIndexes.terminalIdsBySession ∧
  store.terminalIdsByTab = store.rebuildTerminalIndexes.terminalIdsByTab

/-- `upsertTerminal` moves the terminal in the indexes. -/
def redraws (store : MuxSessionStore) (terminal : MuxTerminal) : Bool :=
  (store.terminalsById.get? terminal.id).all (fun old => old.sessionId ≠ terminal.sessionId ||
    old.tabId ≠ terminal.tabId || old.archivedAt ≠ terminal.archivedAt ||
    old.position ≠ terminal.position)

/-- No row behind that of the terminal is shown in its session or its tab at its position. -/
def LastOfTies (store : MuxSessionStore) (terminal : MuxTerminal) : Prop :=
  ∀ tabId, store.shownIn terminal = some tabId → ∀ row ∈ store.terminalsById.after terminal.id,
    ∀ shown, store.shownIn row = some shown →
    row.sessionId = terminal.sessionId ∨ shown = tabId → row.position ≠ terminal.position

/-- A terminal that is drawn anew is the last of its position, and one that is not is shown where it
was. -/
def Ordered (store base : MuxSessionStore) (terminal : MuxTerminal) : Prop :=
  if base.redraws terminal then base.LastOfTies terminal
  else base.shownIn terminal = store.shownIn terminal

/-- The row of a closing terminal is hidden by its archive time or its tab too. -/
def HiddenBesidesClose (store : MuxSessionStore) (id : String) : Prop :=
  ∀ row, store.terminalsById.get? id = some row → archived row.archivedAt = true ∨
    ∀ tabId, store.tabIdForTerminal row = some tabId → store.showsTab tabId = false

/-- The rows of a closing tab are hidden by something else too. -/
def HiddenBesidesTabClose (store : MuxSessionStore) (id : String) : Prop :=
  (store.tabsById.get? id).any (fun tab => archived tab.archivedAt) = true ∨
    ∀ row ∈ store.terminalsById.rows, store.tabIdForTerminal row = some id →
      archived row.archivedAt = true ∨ store.pendingTerminalCloses.contains row.id = true

/-- The operations after which the indexes are those of a rebuild. -/
def Consistent (store : MuxSessionStore) : StoreOperation → Prop
  | .confirmTerminalClose id mutationId =>
    store.pendingTerminalCloses.get? id = some mutationId → store.HiddenBesidesClose id
  | .confirmTabClose id mutationId =>
    store.pendingTabCloses.get? id = some mutationId → store.HiddenBesidesTabClose id
  | .apply (.terminal _ revision muxTerminalId muxTerminal) =>
    store.knownTerminal muxTerminalId < revision →
      ((store.terminalsById.get? muxTerminal.id).any (fun current => archived current.archivedAt) &&
        !archived muxTerminal.archivedAt) = false →
      store.Ordered store muxTerminal
  | .apply (.terminalArchived revision occurredAt muxTerminalId) =>
    store.knownTerminal muxTerminalId < revision →
      ∀ terminal, store.terminalsById.get? muxTerminalId = some terminal →
      store.Ordered
        { store with pendingTerminalCloses := store.pendingTerminalCloses.shiftRemove muxTerminalId }
        { terminal with archivedAt := some occurredAt, revision := revision, updatedAt := occurredAt }
  | _ => True

/-! ### Lists of identifiers -/

/-- The identifiers of the rows that meet a condition. -/
def idsWhere (p : MuxTerminal → Bool) (rows : List MuxTerminal) : List String :=
  (rows.filter p).map MuxTerminal.id

def inSession (store : MuxSessionStore) (sessionId : String) (terminal : MuxTerminal) : Bool :=
  (store.shownIn terminal).isSome && decide (terminal.sessionId = sessionId)

def inTab (store : MuxSessionStore) (tabId : String) (terminal : MuxTerminal) : Bool :=
  decide (store.shownIn terminal = some tabId)

theorem agrees_iff : store.Agrees ↔
    (∀ sessionId, store.terminalIdsBySession sessionId = sortBy store.terminalPosition
      (idsWhere (store.inSession sessionId) store.terminalsById.rows)) ∧
    ∀ tabId, store.terminalIdsByTab tabId = sortBy store.terminalPosition
      (idsWhere (store.inTab tabId) store.terminalsById.rows) :=
  and_congr funext_iff funext_iff

theorem mem_idsWhere {p : MuxTerminal → Bool} {rows : List MuxTerminal} :
    id ∈ idsWhere p rows ↔ ∃ row ∈ rows, p row = true ∧ row.id = id := by
  simp [idsWhere, and_assoc]

@[simp] theorem idsWhere_append {p : MuxTerminal → Bool} {rows more : List MuxTerminal} :
    idsWhere p (rows ++ more) = idsWhere p rows ++ idsWhere p more := by
  simp [idsWhere]

theorem idsWhere_cons {p : MuxTerminal → Bool} {rows : List MuxTerminal} :
    idsWhere p (row :: rows) = (if p row then [row.id] else []) ++ idsWhere p rows := by
  unfold idsWhere
  by_cases h : p row = true
  · simp [h]
  · simp [h]

theorem idsWhere_congr {p q : MuxTerminal → Bool} {rows : List MuxTerminal}
    (h : ∀ row ∈ rows, p row = q row) : idsWhere p rows = idsWhere q rows := by
  rw [idsWhere, idsWhere, List.filter_congr h]

/-- The identifiers other than that of one row, which stands between the rows before and after it. -/
theorem idsWhere_filter_ne {p : MuxTerminal → Bool} (terminals : Terminals) (id : String) :
    (idsWhere p terminals.rows).filter (· ≠ id) =
      idsWhere p (terminals.before id) ++ idsWhere p (terminals.after id) := by
  have hother : ∀ rows : List MuxTerminal, (∀ row ∈ rows, row.id ≠ id) →
      (idsWhere p rows).filter (· ≠ id) = idsWhere p rows := by
    intro rows hrows
    apply List.filter_eq_self.mpr
    intro other hmem
    obtain ⟨row, hrow, -, rfl⟩ := mem_idsWhere.mp hmem
    simpa using hrows row hrow
  rw [terminals.rows_eq id, idsWhere_append, idsWhere_append, List.filter_append,
    List.filter_append, hother _ fun row hrow => Table.key_ne_of_before hrow,
    hother _ fun row hrow => Table.key_ne_of_after hrow]
  have hown : (idsWhere p (terminals.get? id).toList).filter (· ≠ id) = [] := by
    rw [List.filter_eq_nil_iff]
    intro other hmem
    obtain ⟨row, hrow, -, rfl⟩ := mem_idsWhere.mp hmem
    simpa using Table.get?_key (Option.mem_toList.mp hrow)
  rw [hown, List.nil_append]

theorem tied_filter_ne {key key' : String → ℕ} (hkey : ∀ other, other ≠ id → key' other = key other)
    {ids : List String} {k : ℕ} :
    tied key' k (ids.filter (· ≠ id)) = (tied key k ids).filter (· ≠ id) := by
  rw [tied, tied, List.filter_filter, List.filter_filter]
  apply List.filter_congr
  intro other _
  by_cases h : other = id
  · simp [h]
  · simp [h, hkey other h]

/-- An identifier that leaves a sorted list and is put behind it, against the list made of the rows
once the row is set: they are equal unless a later row is tied with it. -/
theorem redrawn_list_iff {terminals : Terminals} {p q : MuxTerminal → Bool} {key key' : String → ℕ}
    (hpq : ∀ row, row.id ≠ terminal.id → q row = p row)
    (hkey : ∀ other, other ≠ terminal.id → key' other = key other)
    (hown : key' terminal.id = terminal.position)
    (hafter : ∀ row ∈ terminals.after terminal.id, key' row.id = row.position) :
    sortBy key' ((sortBy key (idsWhere p terminals.rows)).filter (· ≠ terminal.id) ++
        if q terminal then [terminal.id] else []) =
      sortBy key' (idsWhere q (terminals.set terminal).rows) ↔
    (q terminal = true → ∀ row ∈ terminals.after terminal.id, q row = true →
      row.position ≠ terminal.position) := by
  have hothers : (idsWhere p terminals.rows).filter (· ≠ terminal.id) =
      idsWhere q (terminals.before terminal.id) ++ idsWhere q (terminals.after terminal.id) := by
    rw [idsWhere_filter_ne]
    congr 1
    · exact idsWhere_congr fun row hrow => (hpq row (Table.key_ne_of_before hrow)).symm
    · exact idsWhere_congr fun row hrow => (hpq row (Table.key_ne_of_after hrow)).symm
  have hleft : ∀ last : List String,
      sortBy key' ((sortBy key (idsWhere p terminals.rows)).filter (· ≠ terminal.id) ++ last) =
      sortBy key' (idsWhere q (terminals.before terminal.id) ++
        idsWhere q (terminals.after terminal.id) ++ last) := by
    intro last
    rw [sortBy_eq_iff]
    intro k
    rw [tied_append, tied_append, tied_filter_ne hkey, tied_sortBy, ← tied_filter_ne hkey, hothers]
  rw [hleft, terminals.rows_set terminal, idsWhere_append, idsWhere_cons]
  cases hq : q terminal with
  | false => simp
  | true =>
    have hnew : terminal.id ∉ idsWhere q (terminals.after terminal.id) := by
      intro hmem
      obtain ⟨row, hrow, -, hid⟩ := mem_idsWhere.mp hmem
      exact Table.key_ne_of_after hrow hid
    simp only [if_true, List.singleton_append, forall_const]
    rw [sortBy_moved_iff hnew, hown]
    constructor
    · intro h row hrow hshown
      rw [← hafter row hrow]
      exact h row.id (mem_idsWhere.mpr ⟨row, hrow, hshown, rfl⟩)
    · intro h other hmem
      obtain ⟨row, hrow, hshown, rfl⟩ := mem_idsWhere.mp hmem
      rw [hafter row hrow]
      exact h row hrow hshown

/-! ### One terminal drawn anew -/

/-- What is listed is shown there. -/
theorem Agrees.mem_bySession (h : store.Agrees) (hmem : id ∈ store.terminalIdsBySession sessionId) :
    ∃ old, store.terminalsById.get? id = some old ∧ (store.shownIn old).isSome = true ∧
      old.sessionId = sessionId := by
  rw [(agrees_iff.mp h).1, mem_sortBy, mem_idsWhere] at hmem
  obtain ⟨row, hrow, hshown, rfl⟩ := hmem
  rw [inSession, Bool.and_eq_true, decide_eq_true_eq] at hshown
  exact ⟨row, Table.get?_of_mem hrow, hshown⟩

theorem Agrees.mem_byTab (h : store.Agrees) (hrow : row ∈ store.terminalsById.rows) :
    row.id ∈ store.terminalIdsByTab tabId ↔ store.shownIn row = some tabId := by
  rw [(agrees_iff.mp h).2, mem_sortBy, mem_idsWhere]
  constructor
  · rintro ⟨other, hother, hshown, hid⟩
    have hsame := Table.get?_of_mem hother
    rw [hid, Table.get?_of_mem hrow] at hsame
    cases hsame
    exact of_decide_eq_true hshown
  · intro hshown
    exact ⟨row, hrow, decide_eq_true hshown, rfl⟩

theorem Agrees.get?_of_byTab (h : store.Agrees) (hmem : id ∈ store.terminalIdsByTab tabId) :
    ∃ old, store.terminalsById.get? id = some old ∧ store.shownIn old = some tabId := by
  have hlisted := hmem
  rw [(agrees_iff.mp h).2, mem_sortBy, mem_idsWhere] at hmem
  obtain ⟨row, hrow, -, rfl⟩ := hmem
  exact ⟨row, Table.get?_of_mem hrow, (h.mem_byTab hrow).mp hlisted⟩

/-- The store with the row of the terminal. -/
def withRow (store : MuxSessionStore) (terminal : MuxTerminal) : MuxSessionStore :=
  { store with terminalsById := store.terminalsById.set terminal }

/-- The stores differ, for the indexes, in what hides one terminal at most. -/
structure SameBut (store base : MuxSessionStore) (id : String) : Prop where
  rows : base.terminalsById = store.terminalsById
  bySession : base.terminalIdsBySession = store.terminalIdsBySession
  byTab : base.terminalIdsByTab = store.terminalIdsByTab
  shown : ∀ row : MuxTerminal, row.id ≠ id → base.shownIn row = store.shownIn row
  tab : ∀ row, base.tabIdForTerminal row = store.tabIdForTerminal row

theorem terminalPosition_withRow_of_ne (h : id ≠ terminal.id) :
    (base.withRow terminal).terminalPosition id = base.terminalPosition id := by
  rw [terminalPosition, withRow, Table.get?_set, if_neg h]
  rfl

theorem terminalPosition_withRow_self :
    (base.withRow terminal).terminalPosition terminal.id = terminal.position := by
  rw [terminalPosition, withRow, Table.get?_set, if_pos rfl]
  rfl

theorem terminalPosition_withRow_after (h : row ∈ base.terminalsById.after terminal.id) :
    (base.withRow terminal).terminalPosition row.id = row.position := by
  have hmem : row ∈ (base.terminalsById.set terminal).rows := by
    rw [Table.rows_set]
    exact List.mem_append_right _ (List.mem_cons_of_mem _ h)
  rw [terminalPosition, withRow, Table.get?_of_mem hmem]
  rfl

/-- The indexes once the old row of the terminal has left them. -/
def withoutOld (base : MuxSessionStore) (terminal : MuxTerminal) : TerminalIndexes :=
  (base.terminalsById.get? terminal.id).elim
    ⟨base.terminalIdsBySession, base.terminalIdsByTab, [], []⟩
    (fun old => (base.withRow terminal).removeTerminal old
      ⟨base.terminalIdsBySession, base.terminalIdsByTab, [], []⟩)

theorem filter_ne_of_notMem {ids : List String} (h : id ∉ ids) : ids.filter (· ≠ id) = ids := by
  apply List.filter_eq_self.mpr
  rintro other hmem
  simpa using fun heq : other = id => h (heq ▸ hmem)

theorem withoutOld_bySession (h : store.Agrees) (hb : store.SameBut base terminal.id) :
    (base.withoutOld terminal).bySession sessionId =
      (store.terminalIdsBySession sessionId).filter (· ≠ terminal.id) := by
  have hlisted : terminal.id ∈ store.terminalIdsBySession sessionId → _ := h.mem_bySession
  rw [withoutOld, hb.rows, hb.bySession]
  cases hold : store.terminalsById.get? terminal.id with
  | none =>
    refine (filter_ne_of_notMem fun hmem => ?_).symm
    obtain ⟨old, hget, -⟩ := hlisted hmem
    cases hold.symm.trans hget
  | some old =>
    have hown : ∀ hmem : terminal.id ∈ store.terminalIdsBySession sessionId,
        archived old.archivedAt = false ∧ old.sessionId = sessionId := by
      intro hmem
      obtain ⟨old', hget, hshown, hsession⟩ := hlisted hmem
      cases hold.symm.trans hget
      obtain ⟨tabId, htab⟩ := Option.isSome_iff_exists.mp hshown
      exact ⟨(shownIn_some htab).1, hsession⟩
    rw [Option.elim_some, removeTerminal]
    by_cases harchived : archived old.archivedAt = true
    · rw [if_pos harchived]
      refine (filter_ne_of_notMem fun hmem => ?_).symm
      rw [(hown hmem).1] at harchived
      cases harchived
    · rw [if_neg harchived]
      have hupdate : Function.update store.terminalIdsBySession old.sessionId
          ((store.terminalIdsBySession old.sessionId).filter (· ≠ old.id)) sessionId =
          (store.terminalIdsBySession sessionId).filter (· ≠ terminal.id) := by
        by_cases hsession : sessionId = old.sessionId
        · rw [hsession, Function.update_self, Table.get?_key hold]
        · rw [Function.update_of_ne hsession]
          exact (filter_ne_of_notMem fun hmem => hsession (hown hmem).2.symm).symm
      cases htab : (base.withRow terminal).tabIdForTerminal old with
      | none => exact hupdate
      | some tabId => exact hupdate

theorem withoutOld_byTab (h : store.Agrees) (hb : store.SameBut base terminal.id) :
    (base.withoutOld terminal).byTab tabId =
      (store.terminalIdsByTab tabId).filter (· ≠ terminal.id) := by
  have hlisted : terminal.id ∈ store.terminalIdsByTab tabId → _ := h.get?_of_byTab
  rw [withoutOld, hb.rows, hb.byTab]
  cases hold : store.terminalsById.get? terminal.id with
  | none =>
    refine (filter_ne_of_notMem fun hmem => ?_).symm
    obtain ⟨old, hget, -⟩ := hlisted hmem
    cases hold.symm.trans hget
  | some old =>
    have hown : ∀ hmem : terminal.id ∈ store.terminalIdsByTab tabId,
        archived old.archivedAt = false ∧ base.tabIdForTerminal old = some tabId := by
      intro hmem
      obtain ⟨old', hget, hshown⟩ := hlisted hmem
      cases hold.symm.trans hget
      obtain ⟨hvisible, htab⟩ := shownIn_some hshown
      exact ⟨hvisible, (hb.tab old).trans htab⟩
    rw [Option.elim_some, removeTerminal]
    by_cases harchived : archived old.archivedAt = true
    · rw [if_pos harchived]
      refine (filter_ne_of_notMem fun hmem => ?_).symm
      rw [(hown hmem).1] at harchived
      cases harchived
    · rw [if_neg harchived]
      have hsame : (base.withRow terminal).tabIdForTerminal old = base.tabIdForTerminal old := rfl
      rw [hsame]
      cases htab : base.tabIdForTerminal old with
      | none =>
        refine (filter_ne_of_notMem fun hmem => ?_).symm
        cases htab.symm.trans (hown hmem).2
      | some shown =>
        by_cases htab' : tabId = shown
        · subst htab'
          exact (Function.update_self ..).trans (by rw [Table.get?_key hold])
        · refine (Function.update_of_ne htab' ..).trans (filter_ne_of_notMem fun hmem => ?_).symm
          exact htab' (Option.some.inj (htab.symm.trans (hown hmem).2)).symm

theorem insertTerminal_lists (store : MuxSessionStore) (terminal : MuxTerminal)
    (indexes : TerminalIndexes) :
    (∀ sessionId, (store.insertTerminal terminal indexes).bySession sessionId =
      indexes.bySession sessionId ++ if store.inSession sessionId terminal then [terminal.id] else []) ∧
    (∀ tabId, (store.insertTerminal terminal indexes).byTab tabId =
      indexes.byTab tabId ++ if store.inTab tabId terminal then [terminal.id] else []) ∧
    (∀ sessionId, store.inSession sessionId terminal = true →
      sessionId ∈ (store.insertTerminal terminal indexes).touchedSessions) ∧
    ∀ tabId, store.inTab tabId terminal = true →
      tabId ∈ (store.insertTerminal terminal indexes).touchedTabs := by
  unfold insertTerminal inSession inTab
  cases hshown : store.shownIn terminal with
  | none => simp
  | some shown =>
    refine ⟨?_, ?_, ?_, ?_⟩
    · intro sessionId
      by_cases hs : sessionId = terminal.sessionId
      · subst hs
        simp
      · simp [Function.update_of_ne hs, Ne.symm hs]
    · intro tabId
      by_cases ht : tabId = shown
      · subst ht
        simp
      · simp [Function.update_of_ne ht, Ne.symm ht]
    · intro sessionId h
      simp only [Option.isSome_some, Bool.true_and, decide_eq_true_eq] at h
      simp [h]
    · intro tabId h
      simp only [Option.some.injEq, decide_eq_true_eq] at h
      simp [h]

/-- Without one identifier a sorted list is sorted by any key that differs there only. -/
theorem sortedBy_filter_ne {key key' : String → ℕ} {ids : List String}
    (hkey : ∀ other, other ≠ id → key' other = key other) :
    SortedBy key' ((sortBy key ids).filter (· ≠ id)) := by
  have hsorted : SortedBy key (sortBy key ids) := sortedBy_sortBy
  refine List.Pairwise.imp_of_mem ?_ (hsorted.filter _)
  intro a b ha hb hle
  rw [hkey a (by simpa using (List.mem_filter.mp ha).2),
    hkey b (by simpa using (List.mem_filter.mp hb).2)]
  exact hle

/-- The indexes with the new row of the terminal. -/
def withNew (base : MuxSessionStore) (terminal : MuxTerminal) : TerminalIndexes :=
  (base.withRow terminal).insertTerminal terminal (base.withoutOld terminal)

theorem updateTerminalIndexes_bySession :
    ((base.withRow terminal).updateTerminalIndexes (base.terminalsById.get? terminal.id)
      terminal).terminalIdsBySession sessionId =
    if sessionId ∈ (base.withNew terminal).touchedSessions then
      sortBy (base.withRow terminal).terminalPosition ((base.withNew terminal).bySession sessionId)
    else (base.withNew terminal).bySession sessionId := rfl

theorem updateTerminalIndexes_inTab :
    ((base.withRow terminal).updateTerminalIndexes (base.terminalsById.get? terminal.id)
      terminal).terminalIdsByTab tabId =
    if tabId ∈ (base.withNew terminal).touchedTabs then
      sortBy (base.withRow terminal).terminalPosition ((base.withNew terminal).byTab tabId)
    else (base.withNew terminal).byTab tabId := rfl

/-- The indexes after the move, as sorted lists; a list that was not touched is sorted as it is. -/
theorem updateTerminalIndexes_lists (h : store.Agrees) (hb : store.SameBut base terminal.id) :
    (∀ sessionId, ((base.withRow terminal).updateTerminalIndexes
        (base.terminalsById.get? terminal.id) terminal).terminalIdsBySession sessionId =
      sortBy (base.withRow terminal).terminalPosition
        ((store.terminalIdsBySession sessionId).filter (· ≠ terminal.id) ++
          if base.inSession sessionId terminal then [terminal.id] else [])) ∧
    ∀ tabId, ((base.withRow terminal).updateTerminalIndexes
        (base.terminalsById.get? terminal.id) terminal).terminalIdsByTab tabId =
      sortBy (base.withRow terminal).terminalPosition
        ((store.terminalIdsByTab tabId).filter (· ≠ terminal.id) ++
          if base.inTab tabId terminal then [terminal.id] else []) := by
  obtain ⟨hsession, htab, htouched, htouched'⟩ := insertTerminal_lists (base.withRow terminal) terminal
    (base.withoutOld terminal)
  have hkey : ∀ other, other ≠ terminal.id →
      (base.withRow terminal).terminalPosition other = store.terminalPosition other := by
    intro other hne
    rw [terminalPosition_withRow_of_ne hne, terminalPosition, terminalPosition, hb.rows]
  constructor
  · intro sessionId
    rw [updateTerminalIndexes_bySession, withNew, hsession, withoutOld_bySession h hb]
    split
    · rfl
    · rename_i huntouched
      have hout : base.inSession sessionId terminal = false := by
        rw [← Bool.not_eq_true]
        exact fun hin => huntouched (htouched sessionId hin)
      have hout' : (base.withRow terminal).inSession sessionId terminal = false := hout
      rw [hout, hout']
      simp only [Bool.false_eq_true, if_false, List.append_nil]
      rw [(agrees_iff.mp h).1]
      exact (sortBy_eq_self (sortedBy_filter_ne hkey)).symm
  · intro tabId
    rw [updateTerminalIndexes_inTab, withNew, htab, withoutOld_byTab h hb]
    split
    · rfl
    · rename_i huntouched
      have hout : base.inTab tabId terminal = false := by
        rw [← Bool.not_eq_true]
        exact fun hin => huntouched (htouched' tabId hin)
      have hout' : (base.withRow terminal).inTab tabId terminal = false := hout
      rw [hout, hout']
      simp only [Bool.false_eq_true, if_false, List.append_nil]
      rw [(agrees_iff.mp h).2]
      exact (sortBy_eq_self (sortedBy_filter_ne hkey)).symm

/-- Drawing a terminal anew gives what a rebuild gives exactly when it is the last of its ties. -/
theorem redrawn_agrees_iff (h : store.Agrees) (hb : store.SameBut base terminal.id) :
    ((base.withRow terminal).updateTerminalIndexes (base.terminalsById.get? terminal.id)
      terminal).Agrees ↔ base.LastOfTies terminal := by
  obtain ⟨hsession, htab⟩ := updateTerminalIndexes_lists h hb
  have hkey : ∀ other, other ≠ terminal.id →
      (base.withRow terminal).terminalPosition other = store.terminalPosition other := by
    intro other hne
    rw [terminalPosition_withRow_of_ne hne, terminalPosition, terminalPosition, hb.rows]
  have hafter : ∀ row ∈ store.terminalsById.after terminal.id,
      (base.withRow terminal).terminalPosition row.id = row.position := by
    intro row hrow
    exact terminalPosition_withRow_after (by rwa [hb.rows])
  have hsessions : ∀ sessionId, ((base.withRow terminal).updateTerminalIndexes
        (base.terminalsById.get? terminal.id) terminal).terminalIdsBySession sessionId =
      sortBy (base.withRow terminal).terminalPosition
        (idsWhere (base.inSession sessionId) (store.terminalsById.set terminal).rows) ↔
      (base.inSession sessionId terminal = true → ∀ row ∈ store.terminalsById.after terminal.id,
        base.inSession sessionId row = true → row.position ≠ terminal.position) := by
    intro sessionId
    rw [hsession, (agrees_iff.mp h).1]
    refine redrawn_list_iff (fun row hne => ?_) hkey terminalPosition_withRow_self hafter
    rw [inSession, inSession, hb.shown row hne]
  have htabs : ∀ tabId, ((base.withRow terminal).updateTerminalIndexes
        (base.terminalsById.get? terminal.id) terminal).terminalIdsByTab tabId =
      sortBy (base.withRow terminal).terminalPosition
        (idsWhere (base.inTab tabId) (store.terminalsById.set terminal).rows) ↔
      (base.inTab tabId terminal = true → ∀ row ∈ store.terminalsById.after terminal.id,
        base.inTab tabId row = true → row.position ≠ terminal.position) := by
    intro tabId
    rw [htab, (agrees_iff.mp h).2]
    refine redrawn_list_iff (fun row hne => ?_) hkey terminalPosition_withRow_self hafter
    rw [inTab, inTab, hb.shown row hne]
  have hagrees : ((base.withRow terminal).updateTerminalIndexes
      (base.terminalsById.get? terminal.id) terminal).Agrees ↔
      (∀ sessionId, base.inSession sessionId terminal = true →
        ∀ row ∈ store.terminalsById.after terminal.id, base.inSession sessionId row = true →
        row.position ≠ terminal.position) ∧
      ∀ tabId, base.inTab tabId terminal = true →
        ∀ row ∈ store.terminalsById.after terminal.id, base.inTab tabId row = true →
        row.position ≠ terminal.position := by
    rw [← forall_congr' hsessions, ← forall_congr' htabs, ← hb.rows]
    exact agrees_iff
  rw [hagrees, LastOfTies, hb.rows]
  simp only [inSession, inTab, Bool.and_eq_true, decide_eq_true_eq, Option.isSome_iff_exists]
  constructor
  · rintro ⟨hs, ht⟩ tabId hshown row hrow shown hrowShown (hsame | rfl)
    · exact hs terminal.sessionId ⟨⟨tabId, hshown⟩, rfl⟩ row hrow ⟨⟨shown, hrowShown⟩, hsame⟩
    · exact ht shown hshown row hrow hrowShown
  · intro hlast
    constructor
    · rintro sessionId ⟨⟨tabId, hshown⟩, rfl⟩ row hrow ⟨⟨shown, hrowShown⟩, hsame⟩
      exact hlast tabId hshown row hrow shown hrowShown (.inl hsame)
    · intro tabId hshown row hrow hrowShown
      exact hlast tabId hshown row hrow tabId hrowShown (.inr rfl)

/-! ### Changes that leave the lists alone -/

/-- Every row is shown where it was. -/
def ShowsSame (store next : MuxSessionStore) : Prop :=
  ∀ row ∈ store.terminalsById.rows, next.shownIn row = store.shownIn row

theorem agrees_same_rows_iff (h : store.Agrees) (rows : next.terminalsById = store.terminalsById)
    (bySession : next.terminalIdsBySession = store.terminalIdsBySession)
    (byTab : next.terminalIdsByTab = store.terminalIdsByTab) :
    next.Agrees ↔ store.ShowsSame next := by
  constructor
  · intro hnext row hrow
    apply Option.ext
    intro tabId
    rw [← h.mem_byTab hrow, ← hnext.mem_byTab (rows ▸ hrow), byTab]
  · intro hsame
    have hposition : next.terminalPosition = store.terminalPosition := by
      funext id
      rw [terminalPosition, terminalPosition, rows]
    obtain ⟨hsessions, htabs⟩ := agrees_iff.mp h
    refine agrees_iff.mpr ⟨?_, ?_⟩
    · intro sessionId
      rw [bySession, hsessions, rows, hposition]
      refine congrArg (sortBy _) (idsWhere_congr fun row hrow => ?_)
      rw [inSession, inSession, hsame row hrow]
    · intro tabId
      rw [byTab, htabs, rows, hposition]
      refine congrArg (sortBy _) (idsWhere_congr fun row hrow => ?_)
      rw [inTab, inTab, hsame row hrow]

/-- Where a terminal is shown depends on its place and its archive time. -/
theorem shownIn_congr {old : MuxTerminal} (hid : old.id = terminal.id)
    (hsession : old.sessionId = terminal.sessionId) (htab : old.tabId = terminal.tabId)
    (harchived : old.archivedAt = terminal.archivedAt) :
    store.shownIn old = store.shownIn terminal := by
  rw [shownIn, shownIn, hid, harchived, tabIdForTerminal_congr hsession htab]

/-- A row that is not drawn anew takes the place of the old one. -/
theorem kept_agrees (h : store.Agrees) (hkept : store.redraws terminal = false) :
    (store.withRow terminal).Agrees := by
  rw [redraws] at hkept
  cases hold : store.terminalsById.get? terminal.id with
  | none => simp [hold] at hkept
  | some old =>
    simp only [hold, Option.all_some, Bool.or_eq_false_iff, decide_eq_false_iff_not, not_not]
      at hkept
    obtain ⟨⟨⟨hsession, htab⟩, harchived⟩, hposition⟩ := hkept
    have hid := Table.get?_key hold
    have hshown : store.shownIn old = store.shownIn terminal :=
      shownIn_congr hid hsession htab harchived
    have hpositions : (store.withRow terminal).terminalPosition = store.terminalPosition := by
      funext id
      by_cases hne : id = terminal.id
      · rw [hne, terminalPosition_withRow_self, terminalPosition, hold, Option.elim_some, hposition]
      · exact terminalPosition_withRow_of_ne hne
    have hids : ∀ p : MuxTerminal → Bool, p old = p terminal →
        idsWhere p (store.withRow terminal).terminalsById.rows =
          idsWhere p store.terminalsById.rows := by
      intro p hp
      rw [withRow, Table.rows_set, store.terminalsById.rows_eq terminal.id, hold, Option.toList_some,
        idsWhere_append, idsWhere_append, idsWhere_append, idsWhere_cons, idsWhere_cons, hp, hid,
        List.append_assoc]
      rfl
    obtain ⟨hsessions, htabs⟩ := agrees_iff.mp h
    refine agrees_iff.mpr ⟨?_, ?_⟩
    · intro sessionId
      rw [hpositions, hids]
      · exact hsessions sessionId
      · change store.inSession sessionId old = store.inSession sessionId terminal
        rw [inSession, inSession, hshown, hsession]
    · intro tabId
      rw [hpositions, hids]
      · exact htabs tabId
      · change store.inTab tabId old = store.inTab tabId terminal
        rw [inTab, inTab, hshown]

theorem upsertTerminal_agrees_iff (h : store.Agrees) (hb : store.SameBut base terminal.id) :
    (base.upsertTerminal terminal).Agrees ↔ store.Ordered base terminal := by
  unfold Ordered
  by_cases hredraws : base.redraws terminal = true
  · have hupsert : base.upsertTerminal terminal = (base.withRow terminal).updateTerminalIndexes
        (base.terminalsById.get? terminal.id) terminal := if_pos hredraws
    rw [if_pos hredraws, hupsert]
    exact redrawn_agrees_iff h hb
  · have hupsert : base.upsertTerminal terminal = base.withRow terminal := if_neg hredraws
    rw [if_neg hredraws, hupsert]
    have hkept : (store.withRow terminal).Agrees := by
      apply kept_agrees h
      rw [redraws, ← hb.rows]
      exact Bool.not_eq_true _ ▸ hredraws
    have hrows : (base.withRow terminal).terminalsById = (store.withRow terminal).terminalsById :=
      congrArg (Table.set · terminal) hb.rows
    rw [agrees_same_rows_iff hkept hrows hb.bySession hb.byTab]
    have hself : terminal ∈ (store.withRow terminal).terminalsById.rows := mem_set_self
    constructor
    · intro hsame
      exact hsame terminal hself
    · intro hterminal row hrow
      by_cases hid : row.id = terminal.id
      · have hget := Table.get?_of_mem hrow
        rw [hid] at hget
        cases (Table.get?_of_mem hself).symm.trans hget
        exact hterminal
      · exact hb.shown row hid

theorem reconcileSelection_agrees_iff : store.reconcileSelection.Agrees ↔ store.Agrees := by
  rw [reconcileSelection]
  split
  · exact Iff.rfl
  · exact Iff.rfl

theorem rebuilt_agrees : store.rebuildTerminalIndexes.Agrees := ⟨rfl, rfl⟩

theorem rebuilt_reconciled_agrees : store.rebuildTerminalIndexes.reconcileSelection.Agrees :=
  reconcileSelection_agrees_iff.mpr rebuilt_agrees

/-! ### Operations -/

theorem replace_agrees (store : MuxSessionStore) (sessions : List AppSession)
    (terminals : List MuxTerminal) (tabs : List SessionTab) :
    (store.replace sessions terminals tabs).Agrees := rebuilt_reconciled_agrees

theorem replaceMuxTerminal_agrees (h : store.Agrees) (terminal : MuxTerminal) :
    (store.replaceMuxTerminal terminal).Agrees := by
  rw [replaceMuxTerminal]
  split
  · exact h
  · exact replace_agrees ..

theorem applyTab_agrees (tab : SessionTab) : (store.applyTab tab).Agrees := by
  have hrebuilt : (store.setTab tab).rebuildVisibleTabs.Agrees := rebuilt_agrees
  rw [applyTab]
  split
  · exact hrebuilt
  · exact hrebuilt

theorem applySession_agrees (h : store.Agrees) (session : AppSession) :
    (store.applySession session).Agrees := by
  rw [applySession]
  split
  · exact h
  · exact h

theorem contains_shiftRemove {pending : IndexMap String ℕ} {closing : String} :
    (pending.shiftRemove closing).contains id =
      (decide (id ≠ closing) && pending.contains id) := by
  rw [IndexMap.contains, IndexMap.contains, IndexMap.get?_shiftRemove]
  by_cases h : id = closing
  · simp [h]
  · simp [h]

/-- A confirmed close of a terminal shows its row again unless something else hides it. -/
theorem confirmTerminalClose_showsSame_iff {mutationId : ℕ} :
    store.ShowsSame (store.confirmTerminalClose id mutationId) ↔
      (store.pendingTerminalCloses.get? id = some mutationId → store.HiddenBesidesClose id) := by
  rw [confirmTerminalClose]
  by_cases hpending : store.pendingTerminalCloses.get? id = some mutationId
  · rw [if_pos hpending]
    simp only [hpending, forall_const]
    have hshown : ∀ row : MuxTerminal, shownIn
        { store with pendingTerminalCloses := store.pendingTerminalCloses.shiftRemove id } row =
        if archived row.archivedAt || (decide (row.id ≠ id) &&
          store.pendingTerminalCloses.contains row.id) then none
        else (store.tabIdForTerminal row).filter store.showsTab := by
      intro row
      rw [shownIn, contains_shiftRemove]
      rfl
    have hclosing : store.pendingTerminalCloses.contains id = true := by
      rw [IndexMap.contains, hpending]
      rfl
    constructor
    · intro hsame row hrow
      obtain rfl := Table.get?_key hrow
      have h := hsame row (findRow_mem hrow)
      rw [hshown, shownIn, hclosing] at h
      by_cases harchived : archived row.archivedAt = true
      · exact .inl harchived
      · simpa [harchived] using h
    · intro hhidden row hrow
      rw [hshown, shownIn]
      by_cases hid : row.id = id
      · subst hid
        rcases hhidden row (Table.get?_of_mem hrow) with harchived | htab
        · simp [harchived]
        · simpa [hclosing] using fun _ => htab
      · simp [hid]
  · rw [if_neg hpending]
    exact iff_of_true (fun _ _ => rfl) fun h => absurd h hpending

theorem confirmTabClose_showsSame_iff {mutationId : ℕ} :
    store.ShowsSame (store.confirmTabClose id mutationId) ↔
      (store.pendingTabCloses.get? id = some mutationId → store.HiddenBesidesTabClose id) := by
  rw [confirmTabClose]
  by_cases hpending : store.pendingTabCloses.get? id = some mutationId
  · rw [if_pos hpending]
    simp only [hpending, forall_const]
    have hshows : ∀ tabId, showsTab
        { store with pendingTabCloses := store.pendingTabCloses.shiftRemove id } tabId =
        (!(store.tabsById.get? tabId).any (fun tab => archived tab.archivedAt) &&
          !(decide (tabId ≠ id) && store.pendingTabCloses.contains tabId)) := by
      intro tabId
      rw [showsTab, contains_shiftRemove]
    have hclosing : store.showsTab id = false := by
      rw [showsTab, IndexMap.contains, hpending]
      simp
    have hown : showsTab
        { store with pendingTabCloses := store.pendingTabCloses.shiftRemove id } id =
        !(store.tabsById.get? id).any (fun tab => archived tab.archivedAt) := by
      simp [hshows]
    have hother : ∀ tabId, tabId ≠ id → showsTab
        { store with pendingTabCloses := store.pendingTabCloses.shiftRemove id } tabId =
        store.showsTab tabId := by
      intro tabId hne
      rw [hshows, showsTab]
      simp [hne]
    have hshown : ∀ row : MuxTerminal, shownIn
        { store with pendingTabCloses := store.pendingTabCloses.shiftRemove id } row =
        if archived row.archivedAt || store.pendingTerminalCloses.contains row.id then none
        else (store.tabIdForTerminal row).filter (showsTab
          { store with pendingTabCloses := store.pendingTabCloses.shiftRemove id }) := fun _ => rfl
    generalize ({ store with
      pendingTabCloses := store.pendingTabCloses.shiftRemove id } : MuxSessionStore) = closed at *
    constructor
    · intro hsame
      by_cases htab : (store.tabsById.get? id).any (fun tab => archived tab.archivedAt) = true
      · exact .inl htab
      · refine .inr fun row hrow hin => ?_
        have h := hsame row hrow
        rw [hshown, shownIn, hin] at h
        by_contra hvisible
        simp only [not_or, Bool.not_eq_true] at hvisible
        simp [Option.filter, hvisible, hown, hclosing, htab] at h
    · intro hhidden row hrow
      rw [hshown, shownIn]
      split
      · rfl
      · rename_i hvisible
        cases hin : store.tabIdForTerminal row with
        | none => rfl
        | some tabId =>
          by_cases hne : tabId = id
          · subst hne
            rcases hhidden with htab | hrows
            · simp [Option.filter, hown, htab, hclosing]
            · exact absurd (hrows row hrow hin) (by simpa using hvisible)
          · simp [Option.filter, hother tabId hne]
  · rw [if_neg hpending]
    exact iff_of_true (fun _ _ => rfl) fun h => absurd h hpending

/-- A close that is taken back hides one terminal less. -/
theorem sameBut_shiftRemove (store : MuxSessionStore) (id : String) : store.SameBut
    { store with pendingTerminalCloses := store.pendingTerminalCloses.shiftRemove id } id := by
  refine ⟨rfl, rfl, rfl, ?_, fun _ => rfl⟩
  intro row hne
  rw [shownIn, shownIn, contains_shiftRemove]
  simp only [hne, ne_eq, not_false_eq_true, decide_true, Bool.true_and]
  rfl

theorem apply_agrees_iff (h : store.Agrees) (event : MuxEvent) :
    (store.apply event).Agrees ↔ store.Consistent (.apply event) := by
  cases event with
  | session tag revision session =>
    refine iff_of_true ?_ trivial
    rw [apply]
    split
    · exact h
    · refine reconcileSelection_agrees_iff.mpr (applySession_agrees ?_ session)
      exact h
  | tab tag revision tab =>
    refine iff_of_true ?_ trivial
    rw [apply]
    split
    · exact h
    · exact reconcileSelection_agrees_iff.mpr (applyTab_agrees tab)
  | terminal tag revision muxTerminalId terminal =>
    simp only [apply, Consistent]
    by_cases hknown : revision ≤ store.knownTerminal muxTerminalId
    · rw [if_pos hknown]
      exact iff_of_true h fun hnew => absurd hknown (not_le.mpr hnew)
    · rw [if_neg hknown, reconcileSelection_agrees_iff, applyTerminal]
      simp only [not_le.mp hknown, forall_const]
      split
      · rename_i hignored
        refine iff_of_true h fun hnot => ?_
        rw [hignored] at hnot
        cases hnot
      · rename_i hignored
        simp only [Bool.not_eq_true] at hignored
        simp only [hignored, forall_const]
        refine upsertTerminal_agrees_iff h ?_
        exact ⟨rfl, rfl, rfl, fun _ _ => rfl, fun _ => rfl⟩
  | outputChanged revision occurredAt muxTerminalId output =>
    refine iff_of_true ?_ trivial
    rw [apply]
    split
    · exact h
    · cases hold : store.terminalsById.get? muxTerminalId with
      | none => 
        simp only [hold]
        exact reconcileSelection_agrees_iff.mpr h
      | some old =>
        simp only [hold]
        refine reconcileSelection_agrees_iff.mpr ?_
        have hid := Table.get?_key hold
        refine (upsertTerminal_agrees_iff h ?_).mpr ?_
        · exact ⟨rfl, rfl, rfl, fun _ _ => rfl, fun _ => rfl⟩
        -- The output is no part of the indexes, so the terminal keeps its place.
        have hkept : store.redraws { old with
            output := output, revision := revision, updatedAt := occurredAt } = false := by
          simp [redraws, hid, hold]
        unfold Ordered
        exact (if_neg (Bool.not_eq_true _ ▸ hkept)).mpr rfl
  | terminalArchived revision occurredAt muxTerminalId =>
    simp only [apply, Consistent]
    by_cases hknown : revision ≤ store.knownTerminal muxTerminalId
    · rw [if_pos hknown]
      exact iff_of_true h fun hnew => absurd hknown (not_le.mpr hnew)
    · rw [if_neg hknown]
      simp only [not_le.mp hknown, forall_const]
      cases hold : store.terminalsById.get? muxTerminalId with
      | none =>
        refine iff_of_true (reconcileSelection_agrees_iff.mpr h) ?_
        intro terminal hsome
        cases hsome
      | some old =>
        obtain rfl := Table.get?_key hold
        have hb := sameBut_shiftRemove store old.id
        rw [reconcileSelection_agrees_iff]
        refine (upsertTerminal_agrees_iff h ?_).trans ?_
        · exact ⟨hb.rows, hb.bySession, hb.byTab, hb.shown, hb.tab⟩
        constructor
        · intro hordered terminal hsome
          cases hsome
          exact hordered
        · intro hordered
          exact hordered old rfl

theorem perform_agrees_iff (h : store.Agrees) (op : StoreOperation) :
    (store.perform op).Agrees ↔ store.Consistent op := by
  cases op with
  | mergeSnapshot => exact iff_of_true rebuilt_reconciled_agrees trivial
  | replace sessions terminals tabs => exact iff_of_true (replace_agrees ..) trivial
  | replaceSession session terminals tabs => exact iff_of_true (replace_agrees ..) trivial
  | replaceMuxTerminal terminal =>
    exact iff_of_true (replaceMuxTerminal_agrees h terminal) trivial
  | replaceMuxTerminalIfNewer terminal =>
    refine iff_of_true ?_ trivial
    rw [perform, replaceMuxTerminalIfNewer]
    split
    · exact h
    · exact replaceMuxTerminal_agrees h terminal
  | replaceTab tab =>
    refine iff_of_true ?_ trivial
    rw [perform, replaceTab]
    split
    · exact h
    · exact rebuilt_reconciled_agrees
  | stageTerminalClose id =>
    refine iff_of_true ?_ trivial
    rw [perform, stageTerminalClose]
    split
    · exact h
    · exact rebuilt_reconciled_agrees
  | stageTabClose id =>
    refine iff_of_true ?_ trivial
    rw [perform, stageTabClose]
    split
    · exact h
    · exact rebuilt_reconciled_agrees
  | confirmTerminalClose id mutationId =>
    rw [perform, Consistent, ← confirmTerminalClose_showsSame_iff]
    apply agrees_same_rows_iff h <;> rw [confirmTerminalClose] <;> split <;> rfl
  | confirmTabClose id mutationId =>
    rw [perform, Consistent, ← confirmTabClose_showsSame_iff]
    apply agrees_same_rows_iff h <;> rw [confirmTabClose] <;> split <;> rfl
  | rollbackTerminalClose id mutationId =>
    refine iff_of_true ?_ trivial
    rw [perform, rollbackTerminalClose]
    split
    · exact rebuilt_reconciled_agrees
    · exact h
  | rollbackTabClose id mutationId =>
    refine iff_of_true ?_ trivial
    rw [perform, rollbackTabClose]
    split
    · exact rebuilt_reconciled_agrees
    · exact h
  | clearPendingCloses =>
    refine iff_of_true ?_ trivial
    rw [perform, clearPendingCloses]
    split
    · exact h
    · exact rebuilt_reconciled_agrees
  | setConnection => exact iff_of_true h trivial
  | selectSession id =>
    refine iff_of_true ?_ trivial
    rw [perform, selectSession]
    cases store.resolveSessionId id with
    | none => exact h
    | some resolved =>
      dsimp only
      split
      · exact h
      · exact h
  | selectTab id =>
    refine iff_of_true ?_ trivial
    rw [perform, selectTab]
    cases (store.tabsById.get? id).or (findByLocalKey store.tabsById id) with
    | none => exact h
    | some tab =>
      dsimp only
      split
      · exact h
      · exact h
  | selectMuxTerminal id =>
    refine iff_of_true ?_ trivial
    rw [perform, selectMuxTerminal]
    cases (store.terminalsById.get? id).or (findByLocalKey store.terminalsById id) with
    | none => exact h
    | some terminal =>
      dsimp only
      split
      · exact h
      · cases store.tabIdForTerminal terminal with
        | none => exact h
        | some tabId => exact h
  | apply event => exact apply_agrees_iff h event

theorem initial_agrees : initial.Agrees := ⟨rfl, rfl⟩

/-- The runs whose operations meet the condition are the runs whose indexes are those of a rebuild
in every state they reach. -/
theorem indexes_agree_iff (operations : List StoreOperation) (store : MuxSessionStore) :
    machine.Path Consistent initial operations store ↔ machine.Run initial operations store ∧
      ∀ done reached, done <+: operations → machine.Run initial done reached → reached.Agrees := by
  refine Machine.Path.iff_reached (I := fun _ => True) (P := Agrees) ?_ ?_ trivial initial_agrees
  · exact fun _ _ _ _ _ _ => trivial
  · rintro s op t - hagrees hstep
    obtain rfl := Option.some.inj hstep
    exact perform_agrees_iff hagrees op

/-! A terminal that changes places with the one behind it, told one event at a time. -/

def shownSession : AppSession where
  id := "session"
  title := "Session"
  position := 0
  activeTabId := some "tab"
  activeMuxTerminalId := none
  revision := some 1
  createdAt := "2026-01-01"
  updatedAt := "2026-01-01"
  archivedAt := none

def shownTab : SessionTab where
  id := "tab"
  sessionId := "session"
  title := "Window 1"
  position := 0
  activeMuxTerminalId := none
  layoutJson := none
  revision := some 1
  createdAt := "2026-01-01"
  updatedAt := "2026-01-01"
  archivedAt := none

def shownTerminal (id : String) (position revision : ℕ) : MuxTerminal where
  id := id
  sessionId := "session"
  tabId := some "tab"
  title := "Terminal"
  position := position
  status := .created
  input := default
  inputRevision := 0
  output := .pending
  error := none
  revision := revision
  createdAt := "2026-01-01"
  updatedAt := "2026-01-01"
  startedAt := none
  finishedAt := none
  archivedAt := none

def twoShown : MuxSessionStore :=
  initial.mergeSnapshot [shownSession] [shownTerminal "first" 0 1, shownTerminal "second" 1 1]
    [shownTab] true ⟨fun _ => 1, fun _ => 1, fun _ => 1⟩

theorem moved_terminal_out_of_order :
    ¬ ∀ operations store tag revision id terminal, machine.Run initial operations store →
      (store.apply (.terminal tag revision id terminal)).Agrees := by
  intro h
  have hrun : machine.Run initial [.mergeSnapshot [shownSession]
      [shownTerminal "first" 0 1, shownTerminal "second" 1 1] [shownTab] true
      ⟨fun _ => 1, fun _ => 1, fun _ => 1⟩] twoShown := .cons trivial rfl (.nil _)
  obtain ⟨-, htabs⟩ := h _ _ .updated 2 "first" (shownTerminal "first" 1 2) hrun
  have hmoved := congrFun htabs "tab"
  have hleft : (twoShown.apply (.terminal .updated 2 "first"
      (shownTerminal "first" 1 2))).terminalIdsByTab "tab" = ["second", "first"] := by
    decide +kernel
  rw [hleft] at hmoved
  exact absurd hmoved (by decide +kernel)

end MuxSessionStore
end PiDeck.MuxStore
