import Mathlib
import PiDeck.Collections.Results
import PiDeck.Collections.Revisions
import PiDeck.Mux.Store

/-! The invariant of the catalog, and what the primitive writes of the store do to it: rows only
advance, only named rows change, and the catalog stays well formed. -/
namespace PiDeck.Mux
open PiDeck.Collections

theorem mutate_ok {α : Type} {database : Option String} {operation : Mutation α}
    {s : PersistedState} {p : α × PersistedState} (h : mutate database operation s = .ok p) :
    operation s = .ok p := by
  rw [mutate, Except.bind_ok] at h
  obtain ⟨q, hq, h⟩ := h
  cases database with
  | some error => cases h
  | none => exact hq.trans h

namespace PersistedState
variable {s : PersistedState} {id k : String}

/-- The terminal is shown in an unarchived tab of its own session. -/
def Placed (s : PersistedState) (m : MuxTerminal) : Prop :=
  ∃ tabId tab, m.tabId = some tabId ∧ s.getTab tabId = some tab ∧
    tab.sessionId = m.sessionId ∧ tab.archivedAt = none

structure WellFormed (s : PersistedState) : Prop where
  sessionIds : (s.sessions.map AppSession.id).Nodup
  tabIds : (s.tabs.map SessionTab.id).Nodup
  terminalIds : (s.terminals.map MuxTerminal.id).Nodup
  owner : ∀ id tab, s.getTab id = some tab → (s.getSession tab.sessionId).isSome
  window : ∀ id, (s.getSession id).isSome → ∃ tabId tab, s.getTab tabId = some tab ∧
    tab.sessionId = id ∧ tab.archivedAt = none
  placed : ∀ id m, s.getTerminal id = some m → m.archivedAt = none → s.Placed m
  sessionRevision : ∀ id r, s.getSession id = some r → 0 < r.revision
  tabRevision : ∀ id r, s.getTab id = some r → 0 < r.revision
  terminalRevision : ∀ id r, s.getTerminal id = some r → 0 < r.revision

@[simp] theorem getTab_setSession {f} : (s.setSession id f).getTab k = s.getTab k := rfl
@[simp] theorem getTerminal_setSession {f} :
    (s.setSession id f).getTerminal k = s.getTerminal k := rfl
@[simp] theorem getSession_setTab {f} : (s.setTab id f).getSession k = s.getSession k := rfl
@[simp] theorem getTerminal_setTab {f} : (s.setTab id f).getTerminal k = s.getTerminal k := rfl
@[simp] theorem getSession_setTerminal {f} :
    (s.setTerminal id f).getSession k = s.getSession k := rfl
@[simp] theorem getTab_setTerminal {f} : (s.setTerminal id f).getTab k = s.getTab k := rfl
@[simp] theorem getTab_pushSession {r} : (s.pushSession r).getTab k = s.getTab k := rfl
@[simp] theorem getTerminal_pushSession {r} :
    (s.pushSession r).getTerminal k = s.getTerminal k := rfl
@[simp] theorem getSession_pushTab {r} : (s.pushTab r).getSession k = s.getSession k := rfl
@[simp] theorem getTerminal_pushTab {r} : (s.pushTab r).getTerminal k = s.getTerminal k := rfl
@[simp] theorem getSession_pushTerminal {r} : (s.pushTerminal r).getSession k = s.getSession k := rfl
@[simp] theorem getTab_pushTerminal {r} : (s.pushTerminal r).getTab k = s.getTab k := rfl

theorem getSession_setSession {f} (hf : ∀ r, (f r).id = r.id) :
    (s.setSession id f).getSession k =
      if k = id then (s.getSession id).map f else s.getSession k :=
  findRow_modifyRow (fun r hr => (hf r).trans hr) k

theorem getTab_setTab {f} (hf : ∀ r, (f r).id = r.id) :
    (s.setTab id f).getTab k = if k = id then (s.getTab id).map f else s.getTab k :=
  findRow_modifyRow (fun r hr => (hf r).trans hr) k

theorem getTerminal_setTerminal {f} (hf : ∀ r, (f r).id = r.id) :
    (s.setTerminal id f).getTerminal k =
      if k = id then (s.getTerminal id).map f else s.getTerminal k :=
  findRow_modifyRow (fun r hr => (hf r).trans hr) k

theorem getSession_setSession_self {f} {r} (hf : ∀ r, (f r).id = r.id)
    (h : s.getSession id = some r) : (s.setSession id f).getSession id = some (f r) := by
  rw [getSession_setSession hf, if_pos rfl, h]
  rfl

theorem getTab_setTab_self {f} {r} (hf : ∀ r, (f r).id = r.id) (h : s.getTab id = some r) :
    (s.setTab id f).getTab id = some (f r) := by
  rw [getTab_setTab hf, if_pos rfl, h]
  rfl

theorem getTerminal_setTerminal_self {f} {r} (hf : ∀ r, (f r).id = r.id)
    (h : s.getTerminal id = some r) : (s.setTerminal id f).getTerminal id = some (f r) := by
  rw [getTerminal_setTerminal hf, if_pos rfl, h]
  rfl

theorem getSession_id {r} (h : s.getSession id = some r) : r.id = id := findRow_key h
theorem getTab_id {r} (h : s.getTab id = some r) : r.id = id := findRow_key h
theorem getTerminal_id {r} (h : s.getTerminal id = some r) : r.id = id := findRow_key h

namespace WellFormed
variable (wf : s.WellFormed)
include wf

theorem getSession_of_mem {r} (h : r ∈ s.sessions) : s.getSession r.id = some r :=
  findRow_of_mem wf.sessionIds h

theorem getTab_of_mem {r} (h : r ∈ s.tabs) : s.getTab r.id = some r := findRow_of_mem wf.tabIds h

theorem getTerminal_of_mem {r} (h : r ∈ s.terminals) : s.getTerminal r.id = some r :=
  findRow_of_mem wf.terminalIds h

end WellFormed
end PersistedState
open PersistedState

/-- New identifiers. -/
structure Draw.Fresh (d : Draw) (s : PersistedState) : Prop where
  session : s.getSession d.sessionId = none
  tab : s.getTab d.tabId = none
  terminal : s.getTerminal d.terminalId = none

/-- From `s` to `s'` the rows only advance, only the rows named by `S`, `T` and `M` change, every
terminal that changed is related to the row before it by `R`, and a well-formed catalog stays so. -/
structure Evolves (R : Option MuxTerminal → MuxTerminal → Prop) (S T M : Set String)
    (s s' : PersistedState) : Prop where
  sessions : Advances AppSession.revision (fun _ _ => True) S s.getSession s'.getSession
  tabs : Advances SessionTab.revision (fun _ _ => True) T s.getTab s'.getTab
  terminals : Advances MuxTerminal.revision R M s.getTerminal s'.getTerminal
  wf : s.WellFormed → s'.WellFormed

namespace Evolves
variable {R R' : Option MuxTerminal → MuxTerminal → Prop} {S T M S' T' M' : Set String}
  {s s' s'' : PersistedState} {id : String}

theorem refl (s : PersistedState) : Evolves R S T M s s := ⟨.refl _, .refl _, .refl _, id⟩

theorem trans (hR : ∀ o r r', R o r → R (some r) r' → R o r')
    (A : Evolves R S T M s s') (B : Evolves R S T M s' s'') : Evolves R S T M s s'' where
  sessions := A.sessions.trans (fun _ _ _ _ _ => trivial) B.sessions
  tabs := A.tabs.trans (fun _ _ _ _ _ => trivial) B.tabs
  terminals := A.terminals.trans hR B.terminals
  wf := B.wf ∘ A.wf

theorem mono (hR : ∀ o r, R o r → R' o r) (hS : S ⊆ S') (hT : T ⊆ T') (hM : M ⊆ M')
    (A : Evolves R S T M s s') : Evolves R' S' T' M' s s' where
  sessions := A.sessions.mono (fun _ _ => id) hS
  tabs := A.tabs.mono (fun _ _ => id) hT
  terminals := A.terminals.mono hR hM
  wf := A.wf

/-- A tab that keeps its session and its archive time keeps every terminal placed. -/
theorem placed_of_tabs {m : MuxTerminal}
    (hT : ∀ k r, s.getTab k = some r → ∃ r', s'.getTab k = some r' ∧ r'.sessionId = r.sessionId ∧
      (r.archivedAt = none → r'.archivedAt = none)) (h : s.Placed m) : s'.Placed m := by
  obtain ⟨tabId, tab, hm, htab, hsess, harch⟩ := h
  obtain ⟨tab', htab', hsess', harch'⟩ := hT _ _ htab
  exact ⟨tabId, tab', hm, htab', hsess'.trans hsess, harch' harch⟩

theorem setSession {f : AppSession → AppSession} (hS : id ∈ S) (hid : ∀ r, (f r).id = r.id)
    (hrev : ∀ r, f r = r ∨ r.revision < (f r).revision) :
    Evolves R S T M s (s.setSession id f) where
  sessions := .update hS (fun r _ => (hrev r).imp_right (fun h => ⟨h, trivial⟩))
    (fun _ => getSession_setSession hid)
  tabs := .refl _
  terminals := .refl _
  wf wf := by
    have exists_iff : ∀ k, ((s.setSession id f).getSession k).isSome = (s.getSession k).isSome := by
      intro k
      rw [getSession_setSession hid]
      split_ifs with hk
      · rw [Option.isSome_map, hk]
      · rfl
    refine ⟨?_, wf.tabIds, wf.terminalIds, ?_, ?_, wf.placed, ?_, wf.tabRevision,
      wf.terminalRevision⟩
    · rw [PersistedState.setSession, map_key_modifyRow (fun r hr => (hid r).trans hr)]
      exact wf.sessionIds
    · intro k tab htab
      rw [exists_iff]
      exact wf.owner k tab htab
    · intro k hk
      rw [exists_iff] at hk
      exact wf.window k hk
    · intro k r hr
      rw [getSession_setSession hid] at hr
      split_ifs at hr with hk
      · obtain ⟨r₀, hr₀, rfl⟩ := Option.map_eq_some_iff.mp hr
        have hpos := wf.sessionRevision _ _ hr₀
        cases hrev r₀ with
        | inl h => rw [h]; exact hpos
        | inr h => omega
      · exact wf.sessionRevision _ _ hr

theorem setTab {f : SessionTab → SessionTab} (hT : id ∈ T) (hid : ∀ r, (f r).id = r.id)
    (hrev : ∀ r, f r = r ∨ r.revision < (f r).revision)
    (hsess : ∀ r, (f r).sessionId = r.sessionId)
    (harch : ∀ r, (f r).archivedAt = r.archivedAt) : Evolves R S T M s (s.setTab id f) where
  sessions := .refl _
  tabs := .update hT (fun r _ => (hrev r).imp_right (fun h => ⟨h, trivial⟩))
    (fun _ => getTab_setTab hid)
  terminals := .refl _
  wf wf := by
    have keeps : ∀ k r, s.getTab k = some r → ∃ r', (s.setTab id f).getTab k = some r' ∧
        r'.sessionId = r.sessionId ∧ (r.archivedAt = none → r'.archivedAt = none) := by
      intro k r hr
      rw [getTab_setTab hid]
      split_ifs with hk
      · subst hk
        exact ⟨f r, by rw [hr]; rfl, hsess r, fun h => (harch r).trans h⟩
      · exact ⟨r, hr, rfl, fun h => h⟩
    refine ⟨wf.sessionIds, ?_, wf.terminalIds, ?_, ?_, ?_, wf.sessionRevision, ?_,
      wf.terminalRevision⟩
    · rw [PersistedState.setTab, map_key_modifyRow (fun r hr => (hid r).trans hr)]
      exact wf.tabIds
    · intro k r hr
      rw [getTab_setTab hid] at hr
      split_ifs at hr with hk
      · obtain ⟨r₀, hr₀, rfl⟩ := Option.map_eq_some_iff.mp hr
        rw [hsess]
        exact wf.owner _ _ hr₀
      · exact wf.owner _ _ hr
    · intro k hk
      obtain ⟨tabId, tab, htab, hs, ha⟩ := wf.window k hk
      obtain ⟨tab', htab', hs', ha'⟩ := keeps _ _ htab
      exact ⟨tabId, tab', htab', hs'.trans hs, ha' ha⟩
    · intro k m hm ha
      exact placed_of_tabs keeps (wf.placed k m hm ha)
    · intro k r hr
      rw [getTab_setTab hid] at hr
      split_ifs at hr with hk
      · obtain ⟨r₀, hr₀, rfl⟩ := Option.map_eq_some_iff.mp hr
        have hpos := wf.tabRevision _ _ hr₀
        cases hrev r₀ with
        | inl h => rw [h]; exact hpos
        | inr h => omega
      · exact wf.tabRevision _ _ hr

theorem setTerminal {f : MuxTerminal → MuxTerminal} (hM : id ∈ M) (hid : ∀ r, (f r).id = r.id)
    (hrev : ∀ r, r.revision < (f r).revision)
    (hR : ∀ r, s.getTerminal id = some r → R (some r) (f r))
    (hplaced : s.WellFormed → ∀ r, s.getTerminal id = some r → (f r).archivedAt = none →
      s.Placed (f r)) : Evolves R S T M s (s.setTerminal id f) where
  sessions := .refl _
  tabs := .refl _
  terminals := .update hM (fun r hr => .inr ⟨hrev r, hR r hr⟩) (fun _ => getTerminal_setTerminal hid)
  wf wf := by
    refine ⟨wf.sessionIds, wf.tabIds, ?_, wf.owner, wf.window, ?_, wf.sessionRevision,
      wf.tabRevision, ?_⟩
    · rw [PersistedState.setTerminal, map_key_modifyRow (fun r hr => (hid r).trans hr)]
      exact wf.terminalIds
    · intro k m hm ha
      rw [getTerminal_setTerminal hid] at hm
      split_ifs at hm with hk
      · obtain ⟨r₀, hr₀, rfl⟩ := Option.map_eq_some_iff.mp hm
        exact hplaced wf r₀ hr₀ ha
      · exact wf.placed k m hm ha
    · intro k r hr
      rw [getTerminal_setTerminal hid] at hr
      split_ifs at hr with hk
      · obtain ⟨r₀, hr₀, rfl⟩ := Option.map_eq_some_iff.mp hr
        exact lt_of_le_of_lt (Nat.zero_le _) (hrev r₀)
      · exact wf.terminalRevision _ _ hr

/-- A terminal rewritten without moving or reviving it. -/
theorem setTerminal_inPlace {f : MuxTerminal → MuxTerminal} (hM : id ∈ M)
    (hid : ∀ r, (f r).id = r.id) (hrev : ∀ r, r.revision < (f r).revision)
    (hR : ∀ r, s.getTerminal id = some r → R (some r) (f r))
    (htab : ∀ r, (f r).tabId = r.tabId) (hsess : ∀ r, (f r).sessionId = r.sessionId)
    (harch : ∀ r, (f r).archivedAt = none → r.archivedAt = none) :
    Evolves R S T M s (s.setTerminal id f) := by
  apply setTerminal hM hid hrev hR
  intro wf r hr ha
  obtain ⟨tabId, tab, hm, htab', hs, hopen⟩ := wf.placed _ _ hr (harch r ha)
  exact ⟨tabId, tab, (htab r).trans hm, htab', hs.trans (hsess r).symm, hopen⟩

theorem pushTab {r : SessionTab} (hT : r.id ∈ T) (fresh : s.getTab r.id = none)
    (hrev : 0 < r.revision) (howner : s.WellFormed → (s.getSession r.sessionId).isSome) :
    Evolves R S T M s (s.pushTab r) := by
  have lookup : ∀ k, (s.pushTab r).getTab k = if k = r.id then some r else s.getTab k :=
    findRow_push fresh
  have keeps : ∀ k r₀, s.getTab k = some r₀ → (s.pushTab r).getTab k = some r₀ := by
    intro k r₀ hr₀
    have hk : k ≠ r.id := fun hk => by rw [hk, fresh] at hr₀; cases hr₀
    rw [lookup, if_neg hk, hr₀]
  refine ⟨.refl _, .insert hT fresh trivial lookup, .refl _, fun wf => ?_⟩
  refine ⟨wf.sessionIds, nodup_push fresh wf.tabIds, wf.terminalIds, ?_, ?_, ?_,
    wf.sessionRevision, ?_, wf.terminalRevision⟩
  · intro k tab htab
    rw [lookup] at htab
    split_ifs at htab with hk
    · obtain rfl := Option.some.inj htab
      exact howner wf
    · exact wf.owner k tab htab
  · intro k hk
    obtain ⟨tabId, tab, htab, hrest⟩ := wf.window k hk
    exact ⟨tabId, tab, keeps _ _ htab, hrest⟩
  · intro k m hm ha
    exact placed_of_tabs (fun k r₀ hr₀ => ⟨r₀, keeps k r₀ hr₀, rfl, fun h => h⟩) (wf.placed k m hm ha)
  · intro k tab htab
    rw [lookup] at htab
    split_ifs at htab with hk
    · obtain rfl := Option.some.inj htab
      exact hrev
    · exact wf.tabRevision k tab htab

theorem pushTerminal {r : MuxTerminal} (hM : r.id ∈ M) (fresh : s.getTerminal r.id = none)
    (hrev : 0 < r.revision) (hR : R none r) (hplaced : s.WellFormed → s.Placed r) :
    Evolves R S T M s (s.pushTerminal r) := by
  have lookup : ∀ k, (s.pushTerminal r).getTerminal k =
      if k = r.id then some r else s.getTerminal k := findRow_push fresh
  refine ⟨.refl _, .refl _, .insert hM fresh hR lookup, fun wf => ?_⟩
  refine ⟨wf.sessionIds, wf.tabIds, nodup_push fresh wf.terminalIds, wf.owner, wf.window, ?_,
    wf.sessionRevision, wf.tabRevision, ?_⟩
  · intro k m hm ha
    rw [lookup] at hm
    split_ifs at hm with hk
    · obtain rfl := Option.some.inj hm
      exact hplaced wf
    · exact wf.placed k m hm ha
  · intro k m hm
    rw [lookup] at hm
    split_ifs at hm with hk
    · obtain rfl := Option.some.inj hm
      exact hrev
    · exact wf.terminalRevision k m hm

/-- A session pushed together with its first window. -/
theorem addSession {session : AppSession} {tab : SessionTab} (hS : session.id ∈ S)
    (hT : tab.id ∈ T) (freshS : s.getSession session.id = none) (freshT : s.getTab tab.id = none)
    (hsess : tab.sessionId = session.id) (hopen : tab.archivedAt = none)
    (hrevS : 0 < session.revision) (hrevT : 0 < tab.revision) :
    Evolves R S T M s ((s.pushSession session).pushTab tab) := by
  have lookupS : ∀ k, ((s.pushSession session).pushTab tab).getSession k =
      if k = session.id then some session else s.getSession k := findRow_push freshS
  have lookupT : ∀ k, ((s.pushSession session).pushTab tab).getTab k =
      if k = tab.id then some tab else s.getTab k := findRow_push freshT
  have keeps : ∀ k r₀, s.getTab k = some r₀ →
      ((s.pushSession session).pushTab tab).getTab k = some r₀ := by
    intro k r₀ hr₀
    have hk : k ≠ tab.id := fun hk => by rw [hk, freshT] at hr₀; cases hr₀
    rw [lookupT, if_neg hk, hr₀]
  refine ⟨.insert hS freshS trivial lookupS, .insert hT freshT trivial lookupT, .refl _,
    fun wf => ?_⟩
  refine ⟨nodup_push freshS wf.sessionIds, nodup_push freshT wf.tabIds, wf.terminalIds, ?_, ?_, ?_,
    ?_, ?_, wf.terminalRevision⟩
  · intro k r hr
    rw [lookupT] at hr
    split_ifs at hr with hk
    · obtain rfl := Option.some.inj hr
      rw [lookupS, if_pos hsess]
      rfl
    · rw [lookupS]
      split_ifs
      · rfl
      · exact wf.owner k r hr
  · intro k hk
    rw [lookupS] at hk
    split_ifs at hk with he
    · exact ⟨tab.id, tab, by rw [lookupT, if_pos rfl], hsess.trans he.symm, hopen⟩
    · obtain ⟨tabId, t, ht, hrest⟩ := wf.window k hk
      exact ⟨tabId, t, keeps _ _ ht, hrest⟩
  · intro k m hm ha
    exact placed_of_tabs (fun k r₀ hr₀ => ⟨r₀, keeps k r₀ hr₀, rfl, fun h => h⟩) (wf.placed k m hm ha)
  · intro k r hr
    rw [lookupS] at hr
    split_ifs at hr with hk
    · obtain rfl := Option.some.inj hr
      exact hrevS
    · exact wf.sessionRevision k r hr
  · intro k r hr
    rw [lookupT] at hr
    split_ifs at hr with hk
    · obtain rfl := Option.some.inj hr
      exact hrevT
    · exact wf.tabRevision k r hr

end Evolves
end PiDeck.Mux
