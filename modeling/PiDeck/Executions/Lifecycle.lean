import Mathlib
import PiDeck.Collections.Results
import PiDeck.Executions.Service

/-! The lifecycle of an execution: what its events are, how they agree with its row, and what later
transactions leave of both. -/
namespace PiDeck.Executions
open PiDeck.Collections PiDeck.Transition

def ExecutionEventType.isTerminal : ExecutionEventType → Bool
  | .completed | .failed => true
  | .started | .message | .output => false

/-- How an ended execution and its last event agree. -/
def ExecutionRow.EndedBy (row : ExecutionRow) (last : ExecutionEventRow) : Prop :=
  row.finishedAt = some last.createdAt ∧
    if row.status = .succeeded then
      last.type = .completed ∧ row.errorCode = none ∧ row.errorMessage = none
    else last.type = .failed ∧ ∃ code message, code ≠ "" ∧ message ≠ "" ∧
      last.payload = .failure code message ∧ row.errorCode = some code ∧
        row.errorMessage = some message

/-- An execution with its events. -/
structure Recorded (events : List ExecutionEventRow) (row : ExecutionRow) : Prop where
  sequences : events.map ExecutionEventRow.sequence = List.range' 1 events.length
  going : row.status.isTerminal = false →
    (∀ event ∈ events, event.type.isTerminal = false) ∧ row.finishedAt = none ∧
      row.errorCode = none ∧ row.errorMessage = none
  ended : row.status.isTerminal = true → ∃ earlier last, events = earlier ++ [last] ∧
    (∀ event ∈ earlier, event.type.isTerminal = false) ∧ last.type.isTerminal = true ∧
      row.EndedBy last
  output : (events.filter (fun event => event.type = .output)).map ExecutionEventRow.payload =
    (row.outputJson.map EventPayload.output).toList

namespace Recorded
variable {events : List ExecutionEventRow} {row row' : ExecutionRow} {event : ExecutionEventRow}

theorem new (hstatus : row.status.isTerminal = false) (houtput : row.outputJson = none)
    (hfinished : row.finishedAt = none) (hcode : row.errorCode = none)
    (hmessage : row.errorMessage = none) : Recorded [] row := by
  refine ⟨rfl, fun _ => ⟨?_, hfinished, hcode, hmessage⟩, fun hended => ?_, ?_⟩
  · rintro event ⟨⟩
  · rw [hstatus] at hended
    cases hended
  · rw [houtput]
    rfl

theorem last_sequence (h : Recorded events row) :
    (events.map ExecutionEventRow.sequence).foldr max 0 = events.length := by
  rw [h.sequences]
  have hrange : ∀ first n : ℕ, 0 < first →
      (List.range' first n).foldr max 0 = if n = 0 then 0 else first + n - 1 := by
    intro first n
    induction n generalizing first with
    | zero => simp
    | succ n ih =>
      intro hfirst
      rw [List.range'_succ, List.foldr_cons, ih (first + 1) (by omega),
        if_neg (Nat.succ_ne_zero n)]
      split
      · omega
      · omega
  rw [hrange 1 _ Nat.one_pos]
  split
  · omega
  · omega

theorem sequences_push (h : Recorded events row) (hsequence : event.sequence = events.length + 1) :
    (events ++ [event]).map ExecutionEventRow.sequence =
      List.range' 1 (events ++ [event]).length := by
  rw [List.map_append, h.sequences, List.length_append, List.length_singleton,
    List.range'_concat, List.map_singleton, hsequence]
  simp [Nat.add_comm]

/-- The row changes while the execution goes on. -/
theorem progress (h : Recorded events row) (hbefore : row.status.isTerminal = false)
    (hafter : row'.status.isTerminal = false) (houtput : row'.outputJson = row.outputJson)
    (hfinished : row'.finishedAt = row.finishedAt) (hcode : row'.errorCode = row.errorCode)
    (hmessage : row'.errorMessage = row.errorMessage) : Recorded events row' := by
  obtain ⟨hevents, hnone⟩ := h.going hbefore
  refine ⟨h.sequences, fun _ => ⟨hevents, ?_⟩, fun hended => ?_, ?_⟩
  · rw [hfinished, hcode, hmessage]
    exact hnone
  · rw [hafter] at hended
    cases hended
  · rw [houtput]
    exact h.output

/-- An event comes while the execution goes on. -/
theorem push (h : Recorded events row) (hrow : row.status.isTerminal = false)
    (hsequence : event.sequence = events.length + 1) (htype : event.type.isTerminal = false)
    (houtput : event.type ≠ .output) : Recorded (events ++ [event]) row := by
  obtain ⟨hevents, hnone⟩ := h.going hrow
  refine ⟨h.sequences_push hsequence, fun _ => ⟨?_, hnone⟩, fun hended => ?_, ?_⟩
  · intro e he
    rcases List.mem_append.mp he with he | he
    · exact hevents e he
    · obtain rfl := List.mem_singleton.mp he
      exact htype
  · rw [hrow] at hended
    cases hended
  · rw [List.filter_append, List.map_append, h.output]
    simp [houtput]

/-- The first output comes. -/
theorem pushOutput (h : Recorded events row) (hrow : row.status.isTerminal = false)
    (hsequence : event.sequence = events.length + 1) (htype : event.type = .output)
    {output : String} (hpayload : event.payload = .output output)
    (hnew : row.outputJson = none) :
    Recorded (events ++ [event]) { row with outputJson := some output } := by
  obtain ⟨hevents, hnone⟩ := h.going hrow
  refine ⟨h.sequences_push hsequence, fun _ => ⟨?_, hnone⟩, fun hended => ?_, ?_⟩
  · intro e he
    rcases List.mem_append.mp he with he | he
    · exact hevents e he
    · obtain rfl := List.mem_singleton.mp he
      rw [htype]
      rfl
  · rw [hrow] at hended
    cases hended
  · rw [List.filter_append, List.map_append, h.output, hnew]
    simp [htype, hpayload]

/-- The last event comes. -/
theorem finish (h : Recorded events row) (hrow : row.status.isTerminal = false)
    (hsequence : event.sequence = events.length + 1) (htype : event.type.isTerminal = true)
    (hafter : row'.status.isTerminal = true) (houtput : row'.outputJson = row.outputJson)
    (hended : row'.EndedBy event) : Recorded (events ++ [event]) row' := by
  obtain ⟨hevents, -⟩ := h.going hrow
  refine ⟨h.sequences_push hsequence, fun hgoing => ?_, fun _ => ?_, ?_⟩
  · rw [hafter] at hgoing
    cases hgoing
  · exact ⟨events, event, rfl, hevents, htype, hended⟩
  · have hother : event.type ≠ .output := by
      intro hout
      rw [hout] at htype
      cases htype
    rw [List.filter_append, List.map_append, h.output, houtput]
    simp [hother]

end Recorded
/-- Every execution is recorded, and every event belongs to one. -/
structure Tables.Lifecycle (tables : Tables) : Prop where
  ids : (tables.executions.map ExecutionRow.id).Nodup
  recorded : ∀ {id row}, tables.getExecutionRow id = some row → Recorded (tables.eventsOf id) row
  owned : ∀ {id}, tables.getExecutionRow id = none → tables.eventsOf id = []

/-- What stays of the executions of earlier tables: events, outputs, and all of those that have
ended. -/
def Tables.Later (tables tables' : Tables) : Prop :=
  ∀ id row, tables.getExecutionRow id = some row → ∃ row', tables'.getExecutionRow id = some row' ∧
    tables.eventsOf id <+: tables'.eventsOf id ∧
    (∀ output, row.outputJson = some output → row'.outputJson = some output) ∧
    (row.status.isTerminal = true → row' = row ∧ tables'.eventsOf id = tables.eventsOf id)

namespace Tables
variable {tables tables' tables'' : Tables} {id : String} {row updated : ExecutionRow}
  {event : ExecutionEventRow}

theorem Later.refl (tables : Tables) : tables.Later tables :=
  fun _ row hrow => ⟨row, hrow, List.prefix_rfl, fun _ ho => ho, fun _ => ⟨rfl, rfl⟩⟩

theorem Later.trans (h : tables.Later tables') (k : tables'.Later tables'') :
    tables.Later tables'' := by
  intro id row hrow
  obtain ⟨row', hrow', hevents, houtput, hended⟩ := h id row hrow
  obtain ⟨row'', hrow'', hevents', houtput', hended'⟩ := k id row' hrow'
  refine ⟨row'', hrow'', hevents.trans hevents', fun o ho => houtput' o (houtput o ho), ?_⟩
  intro hterminal
  obtain ⟨rfl, hsame⟩ := hended hterminal
  obtain ⟨rfl, hsame'⟩ := hended' hterminal
  exact ⟨rfl, hsame'.trans hsame⟩

theorem getExecutionRow_id (hrow : tables.getExecutionRow id = some row) : row.id = id := by
  unfold getExecutionRow at hrow
  exact findRow_key hrow

theorem getExecutionRow_updateExecution (hrow : tables.getExecutionRow updated.id = some row)
    (k : String) : (tables.updateExecution updated).getExecutionRow k =
      if k = updated.id then some updated else tables.getExecutionRow k := by
  unfold getExecutionRow at hrow
  simp only [getExecutionRow, updateExecution]
  rw [findRow_modifyRow (fun _ _ => rfl), hrow]
  rfl

/-- An execution that has not ended gets a new row and maybe a new event. -/
theorem write (hi : tables.Lifecycle) (hrow : tables.getExecutionRow id = some row)
    (hgoing : row.status.isTerminal = false) {events : List ExecutionEventRow}
    (hrecorded : Recorded (tables.eventsOf id ++ events) updated) (hid : updated.id = id)
    (hevents : ∀ event ∈ events, event.executionId = id)
    (houtput : ∀ output, row.outputJson = some output → updated.outputJson = some output) :
    let tables' := { tables.updateExecution updated with events := tables.events ++ events }
    tables'.Lifecycle ∧ tables.Later tables' := by
  intro tables'
  have hget : ∀ k, tables'.getExecutionRow k =
      if k = id then some updated else tables.getExecutionRow k := by
    intro k
    subst hid
    exact getExecutionRow_updateExecution hrow k
  have hown : tables'.eventsOf id = tables.eventsOf id ++ events := by
    have hall : events.filter (fun event => event.executionId = id) = events := by
      rw [List.filter_eq_self]
      simpa using hevents
    rw [eventsOf, List.filter_append, hall]
    rfl
  have hother : ∀ k, k ≠ id → tables'.eventsOf k = tables.eventsOf k := by
    intro k hk
    have hnone : events.filter (fun event => event.executionId = k) = [] := by
      rw [List.filter_eq_nil_iff]
      intro event he
      simpa [hevents event he] using Ne.symm hk
    rw [eventsOf, List.filter_append, hnone, List.append_nil]
    rfl
  refine ⟨⟨?_, ?_, ?_⟩, ?_⟩
  · have hkeys : (tables'.executions).map ExecutionRow.id = tables.executions.map ExecutionRow.id :=
      map_key_modifyRow (fun _ _ => rfl)
    rw [hkeys]
    exact hi.ids
  · intro k r hr
    rw [hget] at hr
    by_cases hk : k = id
    · subst hk
      rw [if_pos rfl] at hr
      obtain rfl := Option.some.inj hr
      rw [hown]
      exact hrecorded
    · rw [if_neg hk] at hr
      rw [hother k hk]
      exact hi.recorded hr
  · intro k hnone
    rw [hget] at hnone
    by_cases hk : k = id
    · rw [if_pos hk] at hnone
      cases hnone
    · rw [if_neg hk] at hnone
      rw [hother k hk]
      exact hi.owned hnone
  · intro k r hr
    rw [hget]
    by_cases hk : k = id
    · subst hk
      rw [hrow] at hr
      obtain rfl := Option.some.inj hr
      refine ⟨updated, if_pos rfl, ?_, houtput, fun hended => ?_⟩
      · rw [hown]
        exact List.prefix_append _ _
      · rw [hgoing] at hended
        cases hended
    · rw [if_neg hk, hother k hk]
      exact ⟨r, hr, List.prefix_rfl, fun _ ho => ho, fun _ => ⟨rfl, rfl⟩⟩

theorem Lifecycle.lastSequence_eq (hi : tables.Lifecycle)
    (hrow : tables.getExecutionRow id = some row) :
    tables.lastSequence id = (tables.eventsOf id).length :=
  (hi.recorded hrow).last_sequence

theorem lifecycle_insertExecution {request : CreateExecutionRequest} {now : String}
    (hi : tables.Lifecycle) (h : tables.insertExecution request id now = .ok tables') :
    tables'.Lifecycle ∧ tables.Later tables' := by
  unfold insertExecution at h
  split at h
  · cases h
  rename_i hfresh
  split at h
  · cases h
  split at h
  · cases h
  cases h
  have hnone : tables.getExecutionRow id = none := by simpa using hfresh
  have hget := findRow_push (r := request.values id now) hnone
  have hnew : Recorded [] (request.values id now) := .new rfl rfl rfl rfl rfl
  refine ⟨⟨nodup_push (r := request.values id now) hnone hi.ids, ?_, ?_⟩, ?_⟩
  · intro k row hrow
    have hrow := (hget k).symm.trans hrow
    split at hrow
    · rename_i hk
      obtain rfl := Option.some.inj hrow
      obtain rfl : k = id := hk
      have hempty : tables.eventsOf k = [] := hi.owned hnone
      exact hempty ▸ hnew
    · exact hi.recorded hrow
  · intro k hmissing
    have hmissing := (hget k).symm.trans hmissing
    split at hmissing
    · cases hmissing
    · exact hi.owned hmissing
  · intro k row hrow
    refine ⟨row, ?_, List.prefix_rfl, fun _ ho => ho, fun _ => ⟨rfl, rfl⟩⟩
    refine (hget k).trans ?_
    rw [if_neg ?_]
    · exact hrow
    · rintro rfl
      have hfound := hrow.symm.trans hnone
      cases hfound

/-- An ending can follow every status that is not terminal. -/
theorem assertExecutionTransition_ending {status : ExecutionStatus} (target : Ending)
    (hgoing : status.isTerminal = false) :
    assertExecutionTransition status target.status = .ok () := by
  cases target
  all_goals
    cases status
    all_goals first
      | rfl
      | cases hgoing

theorem lifecycle_markTerminal {target : Ending} {code message now : String} {changed : Bool}
    (hi : tables.Lifecycle) (hcode : code ≠ "") (hmessage : message ≠ "")
    (h : tables.markTerminal id target code message now = .ok (tables', changed)) :
    tables'.Lifecycle ∧ tables.Later tables' := by
  unfold markTerminal at h
  split at h
  · cases h
  rename_i row hrow
  split at h
  · cases h
    exact ⟨hi, .refl _⟩
  rename_i hgoing
  have hgoing : row.status.isTerminal = false := by simpa using hgoing
  rw [assertExecutionTransition_ending target hgoing] at h
  cases h
  have hnext : Recorded (tables.eventsOf id ++ [⟨id, tables.lastSequence id + 1, .failed,
      .failure code message, now⟩]) { row with
        status := target.status
        errorCode := some code
        errorMessage := some message
        finishedAt := some now } := by
    apply (hi.recorded hrow).finish hgoing
    · rw [hi.lastSequence_eq hrow]
    · rfl
    · cases target <;> rfl
    · rfl
    · cases target
      all_goals exact ⟨rfl, rfl, code, message, hcode, hmessage, rfl, rfl, rfl⟩
  have hid := getExecutionRow_id hrow
  refine write hi hrow hgoing hnext hid ?_ fun _ ho => ho
  simp

/-- A step that keeps the execution going leaves its events alone. -/
theorem lifecycle_transitionStatus {target : Progress} {now : String} {goesOn : Bool}
    (hi : tables.Lifecycle)
    (h : tables.transitionStatus id target now = .ok (tables', goesOn)) :
    tables'.Lifecycle ∧ tables.Later tables' := by
  unfold transitionStatus at h
  split at h
  · cases h
  rename_i row hrow
  split at h
  · cases h
    exact ⟨hi, .refl _⟩
  rename_i hgoing
  have hgoing : row.status.isTerminal = false := by simpa using hgoing
  split at h
  · cases h
    exact ⟨hi, .refl _⟩
  cases hassert : assertExecutionTransition row.status target.status with
  | error e =>
    rw [hassert] at h
    cases h
  | ok _ =>
    rw [hassert] at h
    cases h
    have hnext : Recorded (tables.eventsOf id ++ []) { row with
        status := target.status
        startedAt := if target = .running then row.startedAt.or (some now)
          else row.startedAt } := by
      rw [List.append_nil]
      refine (hi.recorded hrow).progress hgoing ?_ rfl rfl rfl rfl
      cases target <;> rfl
    have hid := getExecutionRow_id hrow
    have hwrite := write hi hrow hgoing hnext hid ?_ fun _ ho => ho
    · rw [List.append_nil] at hwrite
      exact hwrite
    · simp

/-- What the update of an event does to the row, and when it ends the execution. -/
theorem recorded_update (executionId : String) {events : List ExecutionEventRow} {event : AgentEvent} {now : String}
    {terminal : Bool} {sequence : ℕ} (h : Recorded events row) (hvalid : event.Valid)
    (hgoing : row.status.isTerminal = false) (hsequence : sequence = events.length + 1)
    (houtput : ¬(event.type = .output ∧ row.outputJson ≠ none))
    (hupdate : row.update now event = .ok (updated, terminal)) :
    Recorded (events ++ [⟨executionId, sequence, event.type, event.payload, now⟩]) updated ∧
      updated.id = row.id ∧
      ∀ output, row.outputJson = some output → updated.outputJson = some output := by
  cases event with
  | started =>
    have hpush : Recorded (events ++ [⟨executionId, sequence, .started, .empty, now⟩]) row :=
      h.push hgoing hsequence rfl (by simp)
    simp only [ExecutionRow.update] at hupdate
    split at hupdate
    · rename_i hstarting
      rw [hstarting] at hupdate
      cases hupdate
      exact ⟨hpush.progress hgoing rfl rfl rfl rfl rfl, rfl, fun _ ho => ho⟩
    · cases hupdate
      exact ⟨hpush, rfl, fun _ ho => ho⟩
  | message text =>
    cases hupdate
    exact ⟨h.push hgoing hsequence rfl (by simp [AgentEvent.type]), rfl, fun _ ho => ho⟩
  | output value =>
    have hnone : row.outputJson = none := by
      by_contra hsome
      exact houtput ⟨rfl, hsome⟩
    cases hupdate
    refine ⟨h.pushOutput hgoing hsequence rfl rfl hnone, rfl, fun o ho => ?_⟩
    rw [hnone] at ho
    cases ho
  | completed =>
    cases hassert : assertExecutionTransition row.status .succeeded with
    | error e =>
      simp only [ExecutionRow.update, hassert] at hupdate
      cases hupdate
    | ok _ =>
      simp only [ExecutionRow.update, hassert] at hupdate
      cases hupdate
      obtain ⟨-, -, hcode, hmessage⟩ := h.going hgoing
      exact ⟨h.finish hgoing hsequence rfl rfl rfl ⟨rfl, rfl, hcode, hmessage⟩, rfl,
        fun _ ho => ho⟩
  | failed code reason =>
    have hassert := assertExecutionTransition_ending .failed hgoing
    simp only [Ending.status] at hassert
    simp only [ExecutionRow.update, hassert] at hupdate
    cases hupdate
    refine ⟨h.finish hgoing hsequence rfl rfl rfl ⟨rfl, rfl, code, reason, ?_⟩, rfl,
      fun _ ho => ho⟩
    exact ⟨hvalid.1, hvalid.2, rfl, rfl, rfl⟩

theorem lifecycle_persistAgentEvent {event : AgentEvent} {now : String} {result : PersistResult}
    (hi : tables.Lifecycle) (hvalid : event.Valid)
    (h : tables.persistAgentEvent id event now = .ok (tables', result)) :
    tables'.Lifecycle ∧ tables.Later tables' := by
  unfold persistAgentEvent at h
  split at h
  · cases h
  rename_i row hrow
  split at h
  · cases h
    exact ⟨hi, .refl _⟩
  rename_i hgoing
  have hgoing : row.status.isTerminal = false := by simpa using hgoing
  split at h
  · cases h
    exact ⟨hi, .refl _⟩
  rename_i houtput
  cases hupdate : row.update now event with
  | error e =>
    simp only [hupdate] at h
    cases h
  | ok pair =>
    obtain ⟨updated, terminal⟩ := pair
    simp only [hupdate] at h
    cases h
    have hsequence : tables.lastSequence id + 1 = (tables.eventsOf id).length + 1 := by
      rw [hi.lastSequence_eq hrow]
    obtain ⟨hnext, hid, hkept⟩ := recorded_update id (hi.recorded hrow) hvalid hgoing
      hsequence houtput hupdate
    refine write hi hrow hgoing hnext (hid.trans (getExecutionRow_id hrow)) ?_ hkept
    simp

end Tables
/-- What one step does to the tables. -/
inductive Tables.Write (tables : Tables) : Tables → Prop
  | same : Write tables tables
  | insert {tables' : Tables} (request : CreateExecutionRequest) (id now : String)
      (inserted : tables.insertExecution request id now = .ok tables') : Write tables tables'
  | persist {tables' : Tables} (id now : String) (event : ParsedEvent) (result : PersistResult)
      (persisted : tables.persistAgentEvent id event.val now = .ok (tables', result)) :
      Write tables tables'
  | mark {tables' : Tables} (id now : String) (target : Ending) (code message : String)
      (changed : Bool) (hcode : code ≠ "") (hmessage : message ≠ "")
      (marked : tables.markTerminal id target code message now = .ok (tables', changed)) :
      Write tables tables'
  | transition {tables' : Tables} (id now : String) (target : Progress) (goesOn : Bool)
      (moved : tables.transitionStatus id target now = .ok (tables', goesOn)) : Write tables tables'

theorem Tables.Write.lifecycle {tables tables' : Tables} (h : tables.Write tables')
    (hi : tables.Lifecycle) : tables'.Lifecycle ∧ tables.Later tables' := by
  cases h with
  | same => exact ⟨hi, .refl _⟩
  | insert request id now inserted => exact lifecycle_insertExecution hi inserted
  | persist id now event result persisted =>
    exact lifecycle_persistAgentEvent hi event.property persisted
  | mark id now target code message changed hcode hmessage marked =>
    exact lifecycle_markTerminal hi hcode hmessage marked
  | transition id now target goesOn moved => exact lifecycle_transitionStatus hi moved

namespace SupervisorService
variable {service service' : SupervisorService} {act : ExecutionAct} {acts : List ExecutionAct}

@[simp] theorem abort_tables (executionId : String) :
    (service.abort executionId).tables = service.tables := by
  unfold abort
  split
  · rfl
  · rfl

theorem commit_eq_some {ε α : Type} {committed : Bool} {transaction : Except ε α} {value : α}
    (h : commit committed transaction = some value) : transaction = .ok value := by
  unfold commit at h
  split at h
  · exact Except.toOption_eq_some.mp h
  · cases h

theorem failure_code_ne (failure : Failure) : failure.code ≠ "" := by
  cases failure <;> decide

theorem failure_message_ne (failure : Failure) : failure.message ≠ "" := by
  cases failure <;> decide

/-- Every step is at most one transaction on the tables. -/
theorem write_of_step (h : machine.step service act = some service') :
    service.tables.Write service'.tables := by
  cases act with
  | insertExecution call id now committed =>
    simp only [machine, step, inserted] at h
    split at h
    · split at h
      · split at h
        · cases h
          exact .insert _ id now ‹_›
        · cases h
          exact .same
        · cases h
          exact .same
      · cases h
        exact .same
    · cases h
  | enterStarting executionId now committed =>
    simp only [machine, step, enterStarting] at h
    split at h
    · split at h
      · cases h
        exact .transition executionId now .starting _ (commit_eq_some ‹_›)
      · cases h
        exact .transition executionId now .starting _ (commit_eq_some ‹_›)
      · cases h
        exact .same
    · cases h
  | enterRunning executionId now committed =>
    simp only [machine, step, enterRunning] at h
    split at h
    · split at h
      · cases h
        exact .transition executionId now .running _ (commit_eq_some ‹_›)
      · cases h
        exact .transition executionId now .running _ (commit_eq_some ‹_›)
      · cases h
        exact .same
    · cases h
  | persistAgentEvent executionId now committed published =>
    simp only [machine, step, persistAgentEvent] at h
    split at h
    · split at h
      · cases h
        exact .persist executionId now _ _ (commit_eq_some ‹_›)
      · cases h
        exact .same
    · cases h
  | markFailed executionId now committed published =>
    simp only [machine, step, markFailed] at h
    split at h
    · rename_i failure _ _ _
      split at h
      · cases h
        exact .mark executionId now .failed _ _ _ (failure_code_ne failure)
          (failure_message_ne failure) (commit_eq_some ‹_›)
      · cases h
        exact .same
    · cases h
  | timeoutExecution executionId now committed published =>
    simp only [machine, step, timeoutExecution] at h
    split at h
    · split at h
      · rename_i hcommit
        have hmark := commit_eq_some hcommit
        split at h
        · cases h
          rw [abort_tables]
          exact .mark executionId now .timedOut _ _ _ (by decide) (by decide) hmark
        · cases h
          exact .mark executionId now .timedOut _ _ _ (by decide) (by decide) hmark
      · cases h
        exact .same
    · cases h
  | markCancelled call now committed published =>
    simp only [machine, step, markCancelled] at h
    split at h
    · split at h
      · rename_i hcommit
        have hmark := commit_eq_some hcommit
        split at h
        · cases h
          simp only [setCall, abort_tables]
          exact .mark _ now .cancelled _ _ _ (by decide) (by decide) hmark
        · cases h
          exact .mark _ now .cancelled _ _ _ (by decide) (by decide) hmark
      · cases h
        exact .same
    · cases h
  | recover now committed published =>
    simp only [machine, step, recover] at h
    split at h
    · split at h
      · rename_i hcommit
        cases h
        exact .mark _ now .failed _ _ _ (by decide) (by decide) (commit_eq_some hcommit)
      · cases h
        exact .same
    · cases h
  | restart | callFails _ =>
    cases h
    exact .same
  | _ =>
    simp only [machine, step, searched, scheduled, loadExecution, agentCreated, agentYields,
      agentEnds, checkStatus, dispose, timerFires, loadCancelled, begin] at h
    repeat' split at h
    all_goals first
      | cases h; exact .same
      | cases h

theorem lifecycle_start : fresh.tables.Lifecycle := by
  refine ⟨List.nodup_nil, fun h => ?_, fun _ => rfl⟩
  cases h

/-- Over every run, executions are recorded as they should be, and whatever comes later keeps what
is stored and leaves an ended execution as it is. -/
theorem execution_lifecycle (h : machine.Run fresh acts service) :
    (∀ row ∈ service.tables.executions, Recorded (service.tables.eventsOf row.id) row) ∧
      ∀ acts' service', machine.Run service acts' service' →
        service.tables.Later service'.tables := by
  have keeps : ∀ {first acts last}, machine.Run first acts last → first.tables.Lifecycle →
      last.tables.Lifecycle ∧ first.tables.Later last.tables := by
    intro first acts last hrun hi
    induction hrun with
    | nil first => exact ⟨hi, .refl _⟩
    | cons guard hstep tail ih =>
      obtain ⟨hnext, hlater⟩ := (write_of_step hstep).lifecycle hi
      obtain ⟨hlast, hrest⟩ := ih hnext
      exact ⟨hlast, hlater.trans hrest⟩
  obtain ⟨hi, -⟩ := keeps h lifecycle_start
  refine ⟨fun row hrow => hi.recorded ?_, fun acts' service' hrun => (keeps hrun hi).2⟩
  exact findRow_of_mem hi.ids hrow

/-- An agent echoes its input. -/
def echoed : List ExecutionAct :=
  [.createExecution 0 ⟨"run-1:step-1:1", "echo", "{}", "{}", 1000⟩, .findExisting 0,
    .insertExecution 0 "e" "t0" true, .schedule 0, .loadExecution "e" true,
    .enterStarting "e" "t1" true, .agentCreated "e" true, .enterRunning "e" "t2" true,
    .agentYields "e" (.typed .started), .persistAgentEvent "e" "t3" true true,
    .agentYields "e" (.typed (.output "{}")), .persistAgentEvent "e" "t4" true true,
    .agentYields "e" (.typed .completed), .persistAgentEvent "e" "t5" true true,
    .checkStatus "e" true, .dispose "e"]

theorem execution_lifecycle_echoed : ∃ service, machine.Run fresh echoed service ∧
    (service.tables.executions.map ExecutionRow.status) = [.succeeded] ∧
      ∀ row ∈ service.tables.executions, Recorded (service.tables.eventsOf row.id) row := by
  have hexec : (machine.exec (fun _ _ => True) fresh echoed).map
      (fun service => service.tables.executions.map ExecutionRow.status) = some [.succeeded] := by
    decide +kernel
  obtain ⟨service, hrun, hstatus⟩ := Option.map_eq_some_iff.mp hexec
  have hrun : machine.Run fresh echoed service := Machine.path_of_exec hrun
  exact ⟨service, hrun, hstatus, (execution_lifecycle hrun).1⟩

end SupervisorService
end PiDeck.Executions
