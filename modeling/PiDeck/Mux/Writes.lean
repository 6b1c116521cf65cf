import Mathlib
import PiDeck.Mux.Closing
import PiDeck.Mux.Dispatch

/-! The writes that dispatched commands and the exit listener make, as one relation on catalogs, and
every dispatch as a sequence of them. An invariant of the catalog is then one case for each
operation of the store. -/
namespace PiDeck.Mux
open PiDeck.Collections PersistedState

/-- The exit of a process, as the exit listener records it. -/
def markExited (exitCode : ℤ) (r : MuxTerminal) : MuxTerminal :=
  { r with
    status := if exitCode = 0 then .succeeded else .failed
    output := { r.output with
      processState := .exited, activityState := .idle, exitCode := some exitCode }
    error := if exitCode ≠ 0 then some ("process exited with " ++ toString exitCode) else r.error }

/-- The updates of a terminal's process. -/
inductive LifeUpdate : (MuxTerminal → MuxTerminal) → Prop
  | starting : LifeUpdate markStarting
  | restarting : LifeUpdate markRestarting
  | running (instanceId : String) (pty : ManagedTerminal) (generation : ℕ → ℕ) :
      LifeUpdate (markRunning instanceId pty generation)
  | failed (error : TerminalError) : LifeUpdate (markFailed error)
  | cancelled : LifeUpdate markCancelled
  | exited (exitCode : ℤ) : LifeUpdate (markExited exitCode)

theorem LifeUpdate.keeps {update : MuxTerminal → MuxTerminal} (h : LifeUpdate update)
    (r : MuxTerminal) : (update r).id = r.id ∧ (update r).revision = r.revision ∧
      (update r).tabId = r.tabId ∧ (update r).sessionId = r.sessionId ∧
      (update r).archivedAt = r.archivedAt := by
  cases h <;> exact ⟨rfl, rfl, rfl, rfl, rfl⟩

/-- An archived terminal stays archived. -/
def Kept : Option MuxTerminal → MuxTerminal → Prop
  | none, _ => True
  | some r, r' => r.archivedAt.isSome → r'.archivedAt.isSome

theorem Calm.kept (o : Option MuxTerminal) (r : MuxTerminal) (h : Calm o r) : Kept o r := by
  cases o with
  | none => trivial
  | some r₀ => exact h.1

/-- A successful operation of the store. -/
inductive Write (d : Draw) (s s' : PersistedState) : Prop
  | createSession {title r} (fresh : d.Fresh s) (h : createSession d title s = .ok (r, s'))
  | renameSession {sessionId title r} (h : renameSession d sessionId title s = .ok (r, s'))
  | reorderSessions {ids rs} (h : reorderSessions d ids s = .ok (rs, s'))
  | createTab {sessionId title r} (fresh : d.Fresh s)
      (h : createTab d sessionId title s = .ok (r, s'))
  | renameTab {tabId title r} (h : renameTab d tabId title s = .ok (r, s'))
  | saveTabLayout {tabId layoutJson revision r}
      (h : saveTabLayout d tabId layoutJson revision s = .ok (r, s'))
  | reorderTabs {sessionId ids rs} (h : reorderTabs d sessionId ids s = .ok (rs, s'))
  | closeTab {tabId stop result} (fresh : d.Fresh s)
      (h : closeTab d tabId stop s = .ok (result, s'))
  | selectTab {sessionId tabId r} (h : selectTab d sessionId tabId s = .ok (r, s'))
  | archiveSession {sessionId r} (fresh : d.Fresh s)
      (h : archiveSession d sessionId s = .ok (r, s'))
  | restoreSession {sessionId r} (h : restoreSession d sessionId s = .ok (r, s'))
  | createTerminal {sessionId tabId title input r} (fresh : d.Fresh s)
      (h : createTerminal d sessionId tabId title input s = .ok (r, s'))
  | reorderTerminals {sessionId tabId ids rs}
      (h : reorderTerminals d sessionId tabId ids s = .ok (rs, s'))
  | moveTerminal {terminalId target r} (h : moveTerminal d terminalId target s = .ok (r, s'))
  | selectTerminal {sessionId terminalId r}
      (h : selectTerminal d sessionId terminalId s = .ok (r, s'))
  | closeTerminal {terminalId stop result}
      (h : closeTerminal d terminalId stop s = .ok (result, s'))
  | renameTerminal {terminalId title r} (h : renameTerminal d terminalId title s = .ok (r, s'))
  | updateTerminal {terminalId expected update r} (life : LifeUpdate update)
      (h : updateTerminal d terminalId expected update s = .ok (r, s'))

section Update
variable {d : Draw} {s s' : PersistedState} {terminalId : String} {expected : Option ℕ}
  {update : MuxTerminal → MuxTerminal} {r : MuxTerminal}

theorem updateTerminal_life (life : LifeUpdate update)
    (h : updateTerminal d terminalId expected update s = .ok (r, s')) :
    Evolves Kept ∅ ∅ {terminalId} s s' ∧ s'.getTerminal terminalId = some r := by
  apply updateTerminal_evolves h
  · exact fun r => (life.keeps r).1
  · exact fun r => (life.keeps r).2.1
  · exact fun r => (life.keeps r).2.2.1
  · exact fun r => (life.keeps r).2.2.2.1
  · exact fun r => (life.keeps r).2.2.2.2
  · intro r _ ha
    rw [stampTerminal_archivedAt, (life.keeps r).2.2.2.2]
    exact ha

end Update

section Evolve
variable {d : Draw} {s s' : PersistedState}

/-- A well-formed catalog evolves with every write. -/
theorem Write.evolves (wf : s.WellFormed) (h : Write d s s') : ∃ S T M, Evolves Kept S T M s s' := by
  have calm : ∀ {S T M}, Evolves Calm S T M s s' → ∃ S T M, Evolves Kept S T M s s' :=
    fun e => ⟨_, _, _, e.mono Calm.kept subset_rfl subset_rfl subset_rfl⟩
  cases h with
  | createSession fresh h => exact calm (createSession_evolves fresh h).1
  | renameSession h => exact calm (renameSession_evolves h).1
  | reorderSessions h => exact calm (reorderSessions_evolves wf h).1
  | createTab fresh h => exact calm (createTab_evolves fresh h).1
  | renameTab h => exact calm (renameTab_evolves h).1
  | saveTabLayout h => exact calm (saveTabLayout_evolves h).1
  | reorderTabs h => exact calm (reorderTabs_evolves wf h).1
  | closeTab fresh h =>
    obtain ⟨_, -, e, -⟩ := closeTab_evolves wf fresh h
    exact calm e
  | selectTab h => exact calm (selectTab_evolves h).1
  | archiveSession fresh h => exact calm (archiveSession_evolves fresh h).1
  | restoreSession h => exact calm (restoreSession_evolves h).1
  | createTerminal fresh h =>
    obtain ⟨_, -, -, -, -, e, -⟩ := createTerminal_evolves fresh wf h
    exact calm e
  | reorderTerminals h =>
    obtain ⟨_, e, -⟩ := reorderTerminals_evolves wf h
    exact calm e
  | moveTerminal h =>
    obtain ⟨_, -, -, -, rfl | ⟨_, e, -⟩⟩ := moveTerminal_evolves wf h
    · exact ⟨∅, ∅, ∅, .refl _⟩
    · exact calm e
  | @selectTerminal _ terminalId _ h =>
    cases terminalId with
    | none => exact calm (selectTerminalInState_none h).1
    | some id =>
      obtain ⟨_, _, _, -, -, -, -, -, -, -, e, -⟩ := selectTerminalInState_some h
      exact calm e
  | closeTerminal h =>
    obtain ⟨_, -, e, -⟩ := closeTerminal_evolves wf h
    exact calm e
  | renameTerminal h => exact calm (renameTerminal_evolves h).1
  | updateTerminal life h => exact ⟨_, _, _, (updateTerminal_life life h).1⟩

end Evolve

/-- New identifiers for a whole dispatch. -/
def World.Fresh (w : World) (s : PersistedState) : Prop := (w.draw 0).Fresh s

theorem World.Fresh.draw {w : World} {s : PersistedState} (h : w.Fresh s) (n : ℕ) :
    (w.draw n).Fresh s := ⟨h.session, h.tab, h.terminal⟩

/-- A terminal update adds no rows. -/
theorem World.Fresh.update {w : World} {s s' : PersistedState} {d : Draw} {terminalId : String}
    {expected : Option ℕ} {update : MuxTerminal → MuxTerminal} {r : MuxTerminal} (fresh : w.Fresh s)
    (life : LifeUpdate update) (h : updateTerminal d terminalId expected update s = .ok (r, s')) :
    w.Fresh s' := by
  obtain ⟨r₀, hr₀, -⟩ := updateTerminal_ok h
  have e := (updateTerminal_life life h).1
  refine ⟨(e.sessions.frame _ (Set.notMem_empty _)).trans fresh.session,
    (e.tabs.frame _ (Set.notMem_empty _)).trans fresh.tab, ?_⟩
  have hne : (w.draw 0).terminalId ≠ terminalId := by
    rintro he
    have := fresh.terminal
    rw [he, hr₀] at this
    cases this
  exact (e.terminals.frame _ (by simpa using hne)).trans fresh.terminal

/-- The writes of one dispatch, in order. -/
def Writes (w : World) : PersistedState → PersistedState → Prop :=
  Relation.ReflTransGen (fun a b => ∃ n, Write (w.draw n) a b)

section Dispatch
variable {w : World} {s : PersistedState}

/-- A commit fails and changes nothing, or goes on from the operation's result. -/
theorem commit_cases {α : Type} {n : ℕ} (operation : Mutation α)
    (next : α → PersistedState → Dispatched) :
    (∃ e, commit w n operation s next = .fail e s) ∨
      ∃ a s', operation s = .ok (a, s') ∧ commit w n operation s next = next a s' := by
  rw [commit]
  cases h : mutate (w.database n) operation s with
  | error e => exact .inl ⟨.store e, rfl⟩
  | ok p => exact .inr ⟨p.1, p.2, mutate_ok h, rfl⟩

/-- What a commit that goes on with `next` writes. -/
theorem Writes.commit {α : Type} {n : ℕ} {operation : Mutation α}
    {next : α → PersistedState → Dispatched}
    (first : ∀ a s', operation s = .ok (a, s') → Write (w.draw n) s s')
    (rest : ∀ a s', operation s = .ok (a, s') → Writes w s' (next a s').store) :
    Writes w s (commit w n operation s next).store := by
  obtain ⟨e, he⟩ | ⟨a, s', ha, hs'⟩ := commit_cases (w := w) (n := n) (s := s) operation next
  · rw [he]
    exact .refl
  · rw [hs']
    exact .head ⟨n, first a s' ha⟩ (rest a s' ha)

theorem startProcess_writes {n : ℕ} {generation : ℕ → ℕ} {starting : MuxTerminal} :
    Writes w s (startProcess w n generation starting s).store := by
  rw [startProcess]
  cases w.create starting.input.shellArgs with
  | ok pty => exact .commit (fun _ _ h => .updateTerminal (.running _ _ _) h) (fun _ _ _ => .refl)
  | error e => exact .commit (fun _ _ h => .updateTerminal (.failed _) h) (fun _ _ _ => .refl)

theorem cancelMuxTerminal_writes {n : ℕ} {terminal : MuxTerminal} {revision : ℕ} :
    Writes w s (cancelMuxTerminal w n terminal revision s).store := by
  rw [cancelMuxTerminal]
  split_ifs
  · exact .refl
  · cases disposeAll w [terminal.output.ptyId] with
    | error e => exact .refl
    | ok u => exact .commit (fun _ _ h => .updateTerminal .cancelled h) (fun _ _ _ => .refl)

/-- A cancellation leaves the identifiers of the dispatch new. -/
theorem cancelMuxTerminal_fresh {n : ℕ} {terminal : MuxTerminal} {revision : ℕ}
    (fresh : w.Fresh s) : w.Fresh (cancelMuxTerminal w n terminal revision s).store := by
  rw [cancelMuxTerminal]
  split_ifs
  · exact fresh
  · cases disposeAll w [terminal.output.ptyId] with
    | error e => exact fresh
    | ok u =>
      obtain ⟨e, he⟩ | ⟨a, s', ha, hs'⟩ := commit_cases (w := w) (n := n) (s := s)
        (updateTerminal (w.draw n) terminal.id (some revision) markCancelled)
        (fun cancelled s => ⟨.ok (.terminal cancelled), s, [terminalUpdated cancelled]⟩)
      · simp only [he]
        exact fresh
      · simp only [hs']
        exact fresh.update .cancelled ha

theorem cancelAll_writes {n : ℕ} {terminals : List MuxTerminal} (fresh : w.Fresh s) :
    Writes w s (cancelAll w n terminals s).1 ∧ w.Fresh (cancelAll w n terminals s).1 := by
  induction terminals generalizing n s with
  | nil => exact ⟨.refl, fresh⟩
  | cons terminal rest ih =>
    have hfirst : w.Fresh (cancelMuxTerminal w n terminal terminal.revision s).store :=
      cancelMuxTerminal_fresh fresh
    obtain ⟨hw, hf⟩ := ih (n := n + 1) hfirst
    exact ⟨cancelMuxTerminal_writes.trans hw, hf⟩

theorem createMuxTerminal_writes {sessionId : String} {tabId title : Option String}
    {input : TerminalInput} (fresh : w.Fresh s) :
    Writes w s (createMuxTerminal w sessionId tabId title input s).store :=
  .commit (fun _ _ h => .createTerminal (fresh.draw 0) h) fun _ _ _ =>
    .commit (fun _ _ h => .updateTerminal .starting h) fun _ _ _ => startProcess_writes

theorem restartMuxTerminal_writes {id : String} {revision : ℕ} :
    Writes w s (restartMuxTerminal w id revision s).store := by
  rw [restartMuxTerminal]
  cases s.getTerminal id with
  | none => exact .refl
  | some current =>
    dsimp only
    split_ifs
    · exact .refl
    · cases disposeAll w [current.output.ptyId] with
      | error e => exact .refl
      | ok u =>
        exact .commit (fun _ _ h => .updateTerminal .restarting h) fun _ _ _ => startProcess_writes

theorem closeMuxTerminal_writes {terminal : MuxTerminal} {stop : Bool} :
    Writes w s (closeMuxTerminal w terminal stop s).store := by
  simp only [closeMuxTerminal]
  cases (if stop && terminal.status.isLive then disposeAll w [terminal.output.ptyId] else .ok ()) with
  | error e => exact .refl
  | ok u => exact .commit (fun _ _ h => .closeTerminal h) (fun _ _ _ => .refl)

theorem archiveMuxTab_writes {tabId : String} {stop : Bool} (fresh : w.Fresh s) :
    Writes w s (archiveMuxTab w tabId stop s).store := by
  simp only [archiveMuxTab]
  cases disposeAll w (((orderedTerminals s tabId false).filter
      (fun r => stop && r.status.isLive)).map (fun r => r.output.ptyId)) with
  | error e => exact .refl
  | ok u => exact .commit (fun _ _ h => .closeTab (fresh.draw 0) h) (fun _ _ _ => .refl)

theorem archiveMuxSession_writes {sessionId : String} {stop : Bool} (fresh : w.Fresh s) :
    Writes w s (archiveMuxSession w sessionId stop s).store := by
  obtain ⟨hw, hf⟩ := @cancelAll_writes w s 0 (if stop then
      (terminalsForSession s sessionId false).filter (fun r => r.status.isLive) else []) fresh
  exact hw.trans (Writes.commit (fun _ _ h => .archiveSession (hf.draw _) h) (fun _ _ _ => .refl))

theorem moveMuxTerminal_writes {terminalId target : String} :
    Writes w s (moveMuxTerminal w terminalId target s).store := by
  rw [moveMuxTerminal]
  cases s.getTerminal terminalId with
  | none => exact .refl
  | some current => exact .commit (fun _ _ h => .moveTerminal h) (fun _ _ _ => .refl)

/-- The catalog after a dispatch was reached by writes of the store. -/
theorem dispatchMux_writes (command : MuxCommand) (fresh : w.Fresh s) :
    Writes w s (dispatchMux w s command).store := by
  cases command with
  | listSessions => exact .refl
  | createSession title =>
    exact .commit (fun _ _ h => .createSession (fresh.draw 0) h) (fun _ _ _ => .refl)
  | renameSession => exact .commit (fun _ _ h => .renameSession h) (fun _ _ _ => .refl)
  | reorderSessions => exact .commit (fun _ _ h => .reorderSessions h) (fun _ _ _ => .refl)
  | createTab => exact .commit (fun _ _ h => .createTab (fresh.draw 0) h) (fun _ _ _ => .refl)
  | renameTab => exact .commit (fun _ _ h => .renameTab h) (fun _ _ _ => .refl)
  | saveTabLayout => exact .commit (fun _ _ h => .saveTabLayout h) (fun _ _ _ => .refl)
  | reorderTabs => exact .commit (fun _ _ h => .reorderTabs h) (fun _ _ _ => .refl)
  | archiveTab => exact archiveMuxTab_writes fresh
  | selectTab => exact .commit (fun _ _ h => .selectTab h) (fun _ _ _ => .refl)
  | archiveSession => exact archiveMuxSession_writes fresh
  | restoreSession => exact .commit (fun _ _ h => .restoreSession h) (fun _ _ _ => .refl)
  | getSession => exact .refl
  | getTerminal => exact .refl
  | createTerminal => exact createMuxTerminal_writes fresh
  | reorderTerminals => exact .commit (fun _ _ h => .reorderTerminals h) (fun _ _ _ => .refl)
  | moveTerminal => exact moveMuxTerminal_writes
  | selectTerminal => exact .commit (fun _ _ h => .selectTerminal h) (fun _ _ _ => .refl)
  | stopTerminal terminalId revision =>
    rw [dispatchMux]
    cases s.getTerminal terminalId with
    | none => exact .refl
    | some terminal => exact cancelMuxTerminal_writes
  | restartTerminal => exact restartMuxTerminal_writes
  | closeTerminal terminalId =>
    rw [dispatchMux]
    cases s.getTerminal terminalId with
    | none => exact .refl
    | some terminal => exact closeMuxTerminal_writes
  | renameTerminal => exact .commit (fun _ _ h => .renameTerminal h) (fun _ _ _ => .refl)

end Dispatch
end PiDeck.Mux
