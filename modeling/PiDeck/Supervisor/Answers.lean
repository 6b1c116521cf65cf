import Mathlib
import PiDeck.Supervisor.Inbox

/-! Items of the inbox leave the pending status once, and the call that waits for one gets what the
item says, as long as two updates behave: the one of all requests of a run, and the one of a timeout
that comes too late. -/
namespace PiDeck.Supervisor
open PiDeck.Collections PiDeck.Transition

/-- The call will settle the waiter of the item. -/
def InboxCall.Settles (id : String) : InboxCall → Prop
  | .resolved item _ | .cancelled item => item = id
  | .settling ids => id ∈ ids
  | .created _ _ | .selected _ => False

/-- The waiter will settle itself. -/
def InboxWaiter.Active (waiter : InboxWaiter) : Prop :=
  waiter.check = .reading ∨ (∃ status response, waiter.check = .read status response ∧
    status ≠ .pending) ∨ waiter.timer = .cancelled ∨ waiter.timer = .refused

namespace InboxService

/-- An item that is not pending stays as it is, and so does an answer. -/
def Keeps (service service' : InboxService) : Prop :=
  (∀ id row, service.getItem id = some row → row.status ≠ .pending →
    service'.getItem id = some row) ∧
  ∀ id waiter answer, service.waiter id = some waiter → waiter.answer = some answer →
    ∃ waiter', service'.waiter id = some waiter' ∧ waiter'.answer = some answer

/-- Every answer is the response of an item that is no longer pending, which is none for one that is
cancelled. -/
def Answered (service : InboxService) : Prop :=
  ∀ id waiter answer, service.waiter id = some waiter → waiter.answer = some answer →
    ∃ row, service.getItem id = some row ∧ row.status ≠ .pending ∧ row.response = answer ∧
      (row.status = .cancelled → answer = none)

/-- The update of all requests of a run changes pending items only, and the timeout of a waiter that
still waits did not lose to a response. -/
def Careful (service : InboxService) : InboxAct → Prop
  | .cancelSelected call now => ∀ ids, service.call call = some (.selected ids) →
    ∀ id ∈ ids, ∀ row, service.getItem id = some row → row.status ≠ .pending →
      row.cancel now = row
  | .timerAnswers id => ∀ waiter, service.waiter id = some waiter → waiter.timer = .refused →
    waiter.answer = none → ∀ row, service.getItem id = some row → row.status ≠ .resolved
  | _ => True

/-- What holds of a waiter and its item. -/
structure Waits (service : InboxService) (id : String) (waiter : InboxWaiter) (row : InboxRow) :
    Prop where
  found : service.getItem id = some row
  readable : row.readable = true
  checked : ∀ status response, waiter.check = .read status response → status ≠ .pending →
    row.status = status ∧ row.response = response
  cancelled : waiter.timer = .cancelled → row.status = .cancelled
  refused : waiter.timer = .refused → row.status ≠ .pending
  answered : ∀ answer, waiter.answer = some answer → row.status ≠ .pending ∧ row.response = answer
  settled : waiter.answer = none → row.status ≠ .pending → waiter.Active ∨
    ∃ call phase, service.call call = some phase ∧ phase.Settles id

/-- What a call in progress has brought about. -/
def Holds (service : InboxService) : InboxCall → Prop
  | .created id _ => (∃ row, service.getItem id = some row) ∧ service.waiter id = none
  | .resolved id response => ∃ row, service.getItem id = some row ∧ row.status = .resolved ∧
    row.response = some response
  | .cancelled id => ∃ row, service.getItem id = some row ∧ row.status = .cancelled
  | .selected ids => ∀ id ∈ ids, ∃ row, service.getItem id = some row
  | .settling ids => ∀ id ∈ ids, ∃ row, service.getItem id = some row ∧ row.status = .cancelled

structure Orderly (service : InboxService) : Prop where
  responded : ∀ {id row}, service.getItem id = some row →
    (row.response = none ↔ row.status ≠ .resolved)
  calls : ∀ {call phase}, service.call call = some phase → service.Holds phase
  created : ∀ {call call' id timeout timeout'}, service.call call = some (.created id timeout) →
    service.call call' = some (.created id timeout') → call = call'
  waits : ∀ {id waiter}, service.waiter id = some waiter → ∃ row, service.Waits id waiter row

/-- Items stay, and those that are not pending stay as they are. -/
def Grows (service service' : InboxService) : Prop :=
  ∀ id row, service.getItem id = some row → ∃ row', service'.getItem id = some row' ∧
    row'.readable = row.readable ∧ (row.status ≠ .pending → row' = row)

variable {service service' : InboxService} {id : String} {waiter : InboxWaiter} {row : InboxRow}
  {phase : InboxCall} {act : InboxAct}

theorem Grows.of_items (h : service'.items = service.items) : service.Grows service' := by
  intro id row hrow
  refine ⟨row, ?_, rfl, fun _ => rfl⟩
  unfold getItem at hrow ⊢
  rw [h]
  exact hrow

theorem Holds.mono (h : service.Holds phase) (hgrows : service.Grows service')
    (hnew : ∀ id timeout, phase = .created id timeout → service'.waiter id = none) :
    service'.Holds phase := by
  have keep : ∀ {id row}, service.getItem id = some row → row.status ≠ .pending →
      service'.getItem id = some row := by
    intro id row hrow hstatus
    obtain ⟨row', hrow', -, hsame⟩ := hgrows id row hrow
    rw [hsame hstatus] at hrow'
    exact hrow'
  cases phase with
  | created id timeout =>
    obtain ⟨⟨row, hrow⟩, -⟩ := h
    obtain ⟨row', hrow', -⟩ := hgrows id row hrow
    exact ⟨⟨row', hrow'⟩, hnew id timeout rfl⟩
  | resolved id response =>
    obtain ⟨row, hrow, hstatus, hresponse⟩ := h
    exact ⟨row, keep hrow (by simp [hstatus]), hstatus, hresponse⟩
  | cancelled id =>
    obtain ⟨row, hrow, hstatus⟩ := h
    exact ⟨row, keep hrow (by simp [hstatus]), hstatus⟩
  | selected ids =>
    intro id hid
    obtain ⟨row, hrow⟩ := h id hid
    obtain ⟨row', hrow', -⟩ := hgrows id row hrow
    exact ⟨row', hrow'⟩
  | settling ids =>
    intro id hid
    obtain ⟨row, hrow, hstatus⟩ := h id hid
    exact ⟨row, keep hrow (by simp [hstatus]), hstatus⟩

/-- The item of a waiter stays as it is, and so does who settles it. -/
theorem Waits.keep (h : service.Waits id waiter row)
    (hrow : service'.getItem id = service.getItem id)
    (hcalls : ∀ call phase, service.call call = some phase → phase.Settles id →
      waiter.answer = none → ∃ call phase, service'.call call = some phase ∧ phase.Settles id) :
    service'.Waits id waiter row where
  found := hrow.trans h.found
  readable := h.readable
  checked := h.checked
  cancelled := h.cancelled
  refused := h.refused
  answered := h.answered
  settled := by
    intro hanswer hstatus
    rcases h.settled hanswer hstatus with hactive | ⟨call, phase, hcall, hsettles⟩
    · exact .inl hactive
    · exact .inr (hcalls call phase hcall hsettles hanswer)

/-- A pending item of a waiter changes, and a call will settle it. -/
theorem Waits.changed {row' : InboxRow} (h : service.Waits id waiter row)
    (hpending : row.status = .pending) (hrow : service'.getItem id = some row')
    (hreadable : row'.readable = row.readable)
    (hcall : ∃ call phase, service'.call call = some phase ∧ phase.Settles id) :
    service'.Waits id waiter row' where
  found := hrow
  readable := hreadable.trans h.readable
  checked := by
    intro status response hcheck hstatus
    obtain ⟨hsame, -⟩ := h.checked status response hcheck hstatus
    exact absurd (hsame.symm.trans hpending) hstatus
  cancelled := by
    intro htimer
    have hcancelled := h.cancelled htimer
    rw [hpending] at hcancelled
    cases hcancelled
  refused := fun htimer => absurd hpending (h.refused htimer)
  answered := fun answer hanswer => absurd hpending (h.answered answer hanswer).1
  settled := fun _ _ => .inr hcall

/-- A step that neither creates nor registers anything. -/
theorem Orderly.change (hi : service.Orderly) (hgrows : service.Grows service')
    (hresponded : ∀ {id row}, service'.getItem id = some row →
      (row.response = none ↔ row.status ≠ .resolved))
    (hcalls : ∀ {call phase}, service'.call call = some phase → service.call call = some phase ∨
      service'.Holds phase ∧ ∀ id timeout, phase ≠ .created id timeout)
    (hnone : ∀ {id}, service.waiter id = none → service'.waiter id = none)
    (hwaits : ∀ {id waiter}, service'.waiter id = some waiter →
      ∃ row, service'.Waits id waiter row) : service'.Orderly where
  responded := hresponded
  calls := by
    intro call phase hcall
    rcases hcalls hcall with hold | ⟨hnew, -⟩
    · refine (hi.calls hold).mono hgrows ?_
      rintro id timeout rfl
      exact hnone (hi.calls hold).2
    · exact hnew
  created := by
    intro call call' id timeout timeout' hcall hcall'
    rcases hcalls hcall with hold | ⟨-, hnew⟩
    · rcases hcalls hcall' with hold' | ⟨-, hnew⟩
      · exact hi.created hold hold'
      · exact absurd rfl (hnew id timeout')
    · exact absurd rfl (hnew id timeout)
  waits := hwaits

theorem Orderly.setWaiter {old : InboxWaiter} (hi : service.Orderly)
    (hold : service.waiter id = some old) (hnew : service.Waits id waiter row) :
    (service.setWaiter id waiter).Orderly := by
  have hgrows : service.Grows (service.setWaiter id waiter) := .of_items rfl
  apply hi.change hgrows hi.responded (fun hcall => .inl hcall)
  · intro k hk
    have hne : k ≠ id := by
      rintro rfl
      rw [hk] at hold
      cases hold
    exact (Function.update_of_ne hne _ _).trans hk
  · intro k w hw
    by_cases hk : k = id
    · subst hk
      obtain rfl := Option.some.inj ((Function.update_self k _ _).symm.trans hw)
      exact ⟨row, hnew.keep rfl fun call phase hcall hsettles _ => ⟨call, phase, hcall, hsettles⟩⟩
    · obtain ⟨r, hr⟩ := hi.waits ((Function.update_of_ne hk _ _).symm.trans hw)
      exact ⟨r, hr.keep rfl fun call phase hcall hsettles _ => ⟨call, phase, hcall, hsettles⟩⟩

/-- A call ends once whoever it settles has an answer. -/
theorem Orderly.endCall {call : ℕ} (hi : service.Orderly)
    (hend : ∀ phase id waiter, service.call call = some phase → phase.Settles id →
      service.waiter id = some waiter → waiter.answer ≠ none) :
    (service.setCall call none).Orderly := by
  have hgrows : service.Grows (service.setCall call none) := .of_items rfl
  apply hi.change hgrows hi.responded ?_ (fun hk => hk)
  · intro k w hw
    obtain ⟨r, hr⟩ := hi.waits hw
    refine ⟨r, hr.keep rfl fun c phase hcall hsettles hanswer => ?_⟩
    have hne : c ≠ call := by
      rintro rfl
      exact hend phase k w hcall hsettles hw hanswer
    exact ⟨c, phase, (Function.update_of_ne hne _ _).trans hcall, hsettles⟩
  · intro c phase hcall
    by_cases hc : c = call
    · subst hc
      cases (Function.update_self c _ _).symm.trans hcall
    · exact .inl ((Function.update_of_ne hc _ _).symm.trans hcall)

theorem getItem_updateWhere {p : InboxRow → Bool} {f : InboxRow → InboxRow}
    (hid : ∀ row, (f row).id = row.id) (id : String) :
    (service.setItems (updateWhere p f service.items)).getItem id =
      (service.getItem id).map fun row => if p row then f row else row :=
  findRow_updateWhere (fun row _ => hid row) id

/-- What an update of items may do. -/
structure Updates (service : InboxService) (p : InboxRow → Bool) (f : InboxRow → InboxRow) :
    Prop where
  id : ∀ row, (f row).id = row.id
  readable : ∀ row, (f row).readable = row.readable
  pending : ∀ {id row}, service.getItem id = some row → p row = true → row.status ≠ .pending →
    f row = row
  responded : ∀ {id row}, service.getItem id = some row → p row = true →
    ((f row).response = none ↔ (f row).status ≠ .resolved)

namespace Updates
variable {p : InboxRow → Bool} {f : InboxRow → InboxRow}

theorem grows (h : service.Updates p f) :
    service.Grows (service.setItems (updateWhere p f service.items)) := by
  intro id row hrow
  refine ⟨if p row then f row else row, ?_, ?_, fun hstatus => ?_⟩
  · rw [getItem_updateWhere h.id, hrow]
    rfl
  · split
    · exact h.readable row
    · rfl
  · split
    · rename_i hp
      exact h.pending hrow hp hstatus
    · rfl

theorem responses (h : service.Updates p f) (hi : service.Orderly)
    (hrow : (service.setItems (updateWhere p f service.items)).getItem id = some row) :
    row.response = none ↔ row.status ≠ .resolved := by
  rw [getItem_updateWhere h.id] at hrow
  obtain ⟨old, hold, rfl⟩ := Option.map_eq_some_iff.mp hrow
  split
  · rename_i hp
    exact h.responded hold hp
  · exact hi.responded hold

/-- The waiter of an item that may have changed, when someone settles it then. -/
theorem waits (h : service.Updates p f) {next : InboxService} (hwaits : service.Waits id waiter row)
    (hnext : next.getItem id =
      (service.setItems (updateWhere p f service.items)).getItem id)
    (hcalls : ∀ call phase, service.call call = some phase → phase.Settles id →
      waiter.answer = none → ∃ call phase, next.call call = some phase ∧ phase.Settles id)
    (hcall : p row = true → row.status = .pending →
      ∃ call phase, next.call call = some phase ∧ phase.Settles id) :
    ∃ row, next.Waits id waiter row := by
  rw [getItem_updateWhere h.id, hwaits.found, Option.map_some] at hnext
  by_cases hp : p row = true
  · rw [if_pos hp] at hnext
    by_cases hpending : row.status = .pending
    · exact ⟨_, hwaits.changed hpending hnext (h.readable row) (hcall hp hpending)⟩
    · rw [h.pending hwaits.found hp hpending] at hnext
      exact ⟨row, hwaits.keep (hnext.trans hwaits.found.symm) hcalls⟩
  · rw [if_neg hp] at hnext
    exact ⟨row, hwaits.keep (hnext.trans hwaits.found.symm) hcalls⟩

/-- An update with a call that settles the waiters of all items that it changed. -/
theorem orderly (h : service.Updates p f) (hi : service.Orderly) {call : ℕ}
    (hbefore : ∀ phase, service.call call = some phase → ∃ ids, phase = .selected ids)
    (hafter : ∀ id timeout, phase ≠ .created id timeout)
    (hsettles : ∀ id row, service.getItem id = some row → p row = true → phase.Settles id)
    (hholds : (service.setItems (updateWhere p f service.items)).Holds phase) :
    ((service.setItems (updateWhere p f service.items)).setCall call (some phase)).Orderly := by
  have hgrows : service.Grows ((service.setItems (updateWhere p f service.items)).setCall call
      (some phase)) := h.grows
  apply hi.change hgrows (h.responses hi) ?_ (fun hk => hk)
  · intro k w hw
    obtain ⟨r, hr⟩ := hi.waits hw
    refine h.waits hr ?_ ?_ ?_
    · rfl
    · intro c old hcall hold _
      have hne : c ≠ call := by
        rintro rfl
        obtain ⟨ids, rfl⟩ := hbefore old hcall
        exact hold
      exact ⟨c, old, (Function.update_of_ne hne _ _).trans hcall, hold⟩
    · intro hp _
      exact ⟨call, phase, Function.update_self call _ _, hsettles k r hr.found hp⟩
  · intro c next hcall
    by_cases hc : c = call
    · subst hc
      obtain rfl := Option.some.inj ((Function.update_self c _ _).symm.trans hcall)
      refine .inr ⟨hholds.mono (.of_items rfl) ?_, hafter⟩
      rintro id timeout rfl
      exact absurd rfl (hafter id timeout)
    · exact .inl ((Function.update_of_ne hc _ _).symm.trans hcall)

end Updates

theorem getItem_id (h : service.getItem id = some row) : row.id = id := by
  unfold getItem at h
  exact findRow_key h

/-- The update of one item that is pending. -/
theorem updates_pending {f : InboxRow → InboxRow} (hid : ∀ row, (f row).id = row.id)
    (hreadable : ∀ row, (f row).readable = row.readable)
    (hresponded : ∀ row, row.status = .pending → row.response = none →
      ((f row).response = none ↔ (f row).status ≠ .resolved)) (hi : service.Orderly) :
    service.Updates (fun row => row.id = id && row.status = .pending) f where
  id := hid
  readable := hreadable
  pending := by
    intro k row _ hp hstatus
    simp only [Bool.and_eq_true, decide_eq_true_eq] at hp
    exact absurd hp.2 hstatus
  responded := by
    intro k row hrow hp
    simp only [Bool.and_eq_true, decide_eq_true_eq] at hp
    refine hresponded row hp.2 ((hi.responded hrow).mpr ?_)
    simp [hp.2]

theorem updates_cancel (hi : service.Orderly) (now : String) :
    service.Updates (fun row => row.id = id && row.status = .pending) (InboxRow.cancel now) := by
  refine updates_pending (fun _ => rfl) (fun _ => rfl) (fun row _ hnone => ?_) hi
  simp [InboxRow.cancel, hnone]

theorem updates_resolve (hi : service.Orderly) (response now : String) :
    service.Updates (fun row => row.id = id && row.status = .pending)
      (InboxRow.resolve response now) := by
  refine updates_pending (fun _ => rfl) (fun _ => rfl) (fun row _ hnone => ?_) hi
  simp [InboxRow.resolve]

/-- A careful update of all selected items. -/
theorem updates_selected {call : ℕ} {now : String} {ids : List String} (hi : service.Orderly)
    (hcareful : service.Careful (.cancelSelected call now))
    (hcall : service.call call = some (.selected ids)) :
    service.Updates (fun row => row.id ∈ ids) (InboxRow.cancel now) where
  id _ := rfl
  readable _ := rfl
  pending := by
    intro k row hrow hp hstatus
    have hk := getItem_id hrow
    exact hcareful ids hcall k (hk ▸ of_decide_eq_true hp) row hrow hstatus
  responded := by
    intro k row hrow hp
    have hnone : row.response = none := by
      by_cases hpending : row.status = .pending
      · exact (hi.responded hrow).mpr (by simp [hpending])
      · have hk := getItem_id hrow
        have hsame := hcareful ids hcall k (hk ▸ of_decide_eq_true hp) row hrow hpending
        refine (hi.responded hrow).mpr ?_
        rw [← hsame]
        simp [InboxRow.cancel]
    simp [InboxRow.cancel, hnone]

theorem updatePending_eq {f : InboxRow → InboxRow}
    (h : service.updatePending id f = some service') : ∃ row, service.getItem id = some row ∧
      row.status = .pending ∧ service' = service.setItems
        (updateWhere (fun row => row.id = id && row.status = .pending) f service.items) := by
  unfold updatePending at h
  split at h
  · rename_i row hrow
    split at h
    · rename_i hstatus
      exact ⟨row, hrow, hstatus, (Option.some.inj h).symm⟩
    · cases h
  · cases h

theorem getItem_updatePending {f : InboxRow → InboxRow} (hid : ∀ row, (f row).id = row.id)
    (hrow : service.getItem id = some row) (hstatus : row.status = .pending) :
    (service.setItems (updateWhere (fun row => row.id = id && row.status = .pending) f
      service.items)).getItem id = some (f row) := by
  rw [getItem_updateWhere hid, hrow]
  simp [getItem_id hrow, hstatus]

/-- `resolveInbox` and `cancelInbox` update the item that their call will settle. -/
theorem Orderly.updatePending {f : InboxRow → InboxRow} {call : ℕ} {updated : InboxService}
    (hi : service.Orderly)
    (hup : service.Updates (fun row => row.id = id && row.status = .pending) f)
    (hfree : service.call call = none) (h : service.updatePending id f = some updated)
    (hafter : ∀ id timeout, phase ≠ .created id timeout) (hsettles : phase.Settles id)
    (hholds : ∀ row, updated.getItem id = some (f row) → updated.Holds phase) :
    (updated.setCall call (some phase)).Orderly := by
  obtain ⟨row, hrow, hstatus, rfl⟩ := updatePending_eq h
  refine hup.orderly hi ?_ hafter ?_ (hholds row (getItem_updatePending hup.id hrow hstatus))
  · intro old hold
    rw [hfree] at hold
    cases hold
  · intro k r hr hp
    simp only [Bool.and_eq_true, decide_eq_true_eq] at hp
    obtain rfl := (getItem_id hr).symm.trans hp.1
    exact hsettles

/-- A promise is resolved with the response of its item. -/
theorem Waits.settle (h : service.Waits id waiter row) {response : Option String}
    (hstatus : waiter.answer = none → row.status ≠ .pending)
    (hresponse : waiter.answer = none → row.response = response) {timer : InboxTimer}
    (htimer : timer = waiter.timer ∨ timer = .off) {check : InboxCheck}
    (hcheck : check = waiter.check ∨ check = .done) :
    service.Waits id (InboxWaiter.settle ⟨check, timer, waiter.answer⟩ response) row where
  found := h.found
  readable := h.readable
  checked := by
    intro status response' hread hne
    rcases hcheck with rfl | rfl
    · exact h.checked status response' hread hne
    · cases hread
  cancelled := by
    intro hcancelled
    simp only [InboxWaiter.settle] at hcancelled
    rcases htimer with rfl | rfl
    · split at hcancelled
      · cases hcancelled
      · exact h.cancelled hcancelled
    · cases hcancelled
  refused := by
    intro hrefused
    simp only [InboxWaiter.settle] at hrefused
    rcases htimer with rfl | rfl
    · split at hrefused
      · cases hrefused
      · exact h.refused hrefused
    · cases hrefused
  answered := by
    intro answer hanswer
    simp only [InboxWaiter.settle] at hanswer
    cases hold : waiter.answer with
    | none =>
      rw [hold] at hanswer
      obtain rfl := Option.some.inj hanswer
      exact ⟨hstatus hold, hresponse hold⟩
    | some old =>
      rw [hold] at hanswer
      obtain rfl := Option.some.inj hanswer
      exact h.answered old hold
  settled := by
    intro hanswer
    simp only [InboxWaiter.settle] at hanswer
    cases hold : waiter.answer with
    | none =>
      rw [hold] at hanswer
      cases hanswer
    | some old =>
      rw [hold] at hanswer
      cases hanswer

@[simp] theorem settleInboxResponse_items (response : Option String) :
    (service.settleInboxResponse id response).items = service.items := by
  unfold settleInboxResponse
  split
  · split
    · rfl
    · rfl
  · rfl

@[simp] theorem settleInboxResponse_call (response : Option String) :
    (service.settleInboxResponse id response).call = service.call := by
  unfold settleInboxResponse
  split
  · split
    · rfl
    · rfl
  · rfl

/-- The waiter of the item has an answer then, and one that has an answer keeps it. -/
theorem settleInboxResponse_answer {response : Option String} {k : String}
    {waiter' : InboxWaiter} (h : (service.settleInboxResponse id response).waiter k = some waiter') :
    (k = id → waiter'.answer ≠ none) ∧ ∃ waiter, service.waiter k = some waiter ∧
      (waiter.answer ≠ none → waiter' = waiter) := by
  unfold settleInboxResponse at h
  split at h
  · rename_i waiter hwaiter
    split at h
    · rename_i hnone
      by_cases hk : k = id
      · subst hk
        obtain rfl := Option.some.inj ((Function.update_self k _ _).symm.trans h)
        refine ⟨fun _ => ?_, waiter, hwaiter, fun hne => absurd hnone hne⟩
        simp [InboxWaiter.settle, hnone]
      · have hk' := (Function.update_of_ne hk _ _).symm.trans h
        exact ⟨fun he => absurd he hk, waiter', hk', fun _ => rfl⟩
    · rename_i hsome
      refine ⟨?_, waiter', h, fun _ => rfl⟩
      rintro rfl
      rw [hwaiter] at h
      obtain rfl := Option.some.inj h
      exact hsome
  · rename_i hnone
    refine ⟨?_, waiter', h, fun _ => rfl⟩
    rintro rfl
    rw [hnone] at h
    cases h

theorem Orderly.settleInboxResponse {response : Option String} (hi : service.Orderly)
    (hrow : ∃ row, service.getItem id = some row ∧ row.status ≠ .pending ∧
      row.response = response) : (service.settleInboxResponse id response).Orderly := by
  unfold InboxService.settleInboxResponse
  split
  · rename_i waiter hwaiter
    split
    · obtain ⟨r, hr⟩ := hi.waits hwaiter
      obtain ⟨row, hrow, hstatus, hresponse⟩ := hrow
      rw [hr.found] at hrow
      obtain rfl := Option.some.inj hrow
      exact hi.setWaiter hwaiter
        (hr.settle (fun _ => hstatus) (fun _ => hresponse) (.inl rfl) (.inl rfl))
    · exact hi
  · exact hi

theorem createInbox_eq {now : String} {input : InboxInput}
    (h : service.createInbox id now input = some service') : service.getItem id = none ∧
      service' = service.setItems (service.items ++ [input.values id now]) ∧
        ∀ k, service'.getItem k = if k = id then some (input.values id now)
          else service.getItem k := by
  unfold createInbox at h
  split at h
  · rename_i hnone
    obtain rfl := Option.some.inj h
    refine ⟨hnone, rfl, fun k => ?_⟩
    exact findRow_push (r := input.values id now) hnone k
  · cases h

theorem grows_createInbox {now : String} {input : InboxInput}
    (h : service.createInbox id now input = some service') : service.Grows service' := by
  obtain ⟨hnone, -, hget⟩ := createInbox_eq h
  intro k r hr
  have hne : k ≠ id := by
    rintro rfl
    rw [hnone] at hr
    cases hr
  refine ⟨r, ?_, rfl, fun _ => rfl⟩
  rw [hget, if_neg hne]
  exact hr

theorem Orderly.createInbox {now : String} {input : InboxInput} (hi : service.Orderly)
    (h : service.createInbox id now input = some service') : service'.Orderly := by
  have hgrows := grows_createInbox h
  obtain ⟨hnone, rfl, hget⟩ := createInbox_eq h
  apply hi.change hgrows ?_ (fun hcall => .inl hcall) (fun hk => hk)
  · intro k w hw
    obtain ⟨r, hr⟩ := hi.waits hw
    refine ⟨r, hr.keep ?_ fun call phase hcall hsettles _ => ⟨call, phase, hcall, hsettles⟩⟩
    have hne : k ≠ id := by
      rintro rfl
      cases hnone.symm.trans hr.found
    rw [hget, if_neg hne]
  · intro k r hr
    rw [hget] at hr
    split at hr
    · obtain rfl := Option.some.inj hr
      simp [InboxInput.values]
    · exact hi.responded hr

theorem reads_iff : service.reads id = true ↔
    ∃ row, service.getItem id = some row ∧ row.readable = true := by
  unfold reads
  cases service.getItem id with
  | none => simp
  | some row => simp

/-- A waiter is registered for an item that nobody waits for yet. -/
theorem Orderly.register {call : ℕ} {timeout : Bool} (hi : service.Orderly)
    (hcall : service.call call = some (.created id timeout)) (hreads : service.reads id = true) :
    ((service.setWaiter id ⟨.reading, if timeout then .armed else .off, none⟩).setCall call
      none).Orderly := by
  have hother : ∀ {c phase}, Function.update service.call call none c = some phase →
      c ≠ call ∧ service.call c = some phase := by
    intro c phase h
    have hc : c ≠ call := by
      rintro rfl
      cases (Function.update_self c _ _).symm.trans h
    exact ⟨hc, (Function.update_of_ne hc _ _).symm.trans h⟩
  refine ⟨hi.responded, ?_, ?_, ?_⟩
  · intro c phase h
    obtain ⟨hc, hold⟩ := hother h
    refine (hi.calls hold).mono (.of_items rfl) ?_
    rintro k timeout' rfl
    have hne : k ≠ id := by
      rintro rfl
      exact hc (hi.created hold hcall)
    exact (Function.update_of_ne hne _ _).trans (hi.calls hold).2
  · intro c c' k t t' h h'
    exact hi.created (hother h).2 (hother h').2
  · intro k w hw
    by_cases hk : k = id
    · subst hk
      obtain rfl := Option.some.inj ((Function.update_self k _ _).symm.trans hw)
      obtain ⟨row, hrow, hreadable⟩ := reads_iff.mp hreads
      refine ⟨row, ?_⟩
      cases timeout
      all_goals
        refine ⟨hrow, hreadable, ?_, ?_, ?_, ?_, fun _ _ => .inl (.inl rfl)⟩
        all_goals
          intros
          simp_all
    · obtain ⟨r, hr⟩ := hi.waits ((Function.update_of_ne hk _ _).symm.trans hw)
      refine ⟨r, hr.keep rfl fun c phase hc hsettles _ => ⟨c, phase, ?_, hsettles⟩⟩
      refine (Function.update_of_ne ?_ _ _).trans hc
      rintro rfl
      rw [hcall] at hc
      obtain rfl := Option.some.inj hc
      exact hsettles

/-- A call that settles waiters has settled them all when it ends. -/
theorem Orderly.answerInbox {call : ℕ} (hi : service.Orderly)
    (h : service.answerInbox call = some service') : service'.Orderly := by
  have answer : ∀ {id : String} {response : Option String} {phase : InboxCall},
      service.call call = some phase → (∀ k, phase.Settles k → k = id) →
      (∃ row, service.getItem id = some row ∧ row.status ≠ .pending ∧ row.response = response) →
      ((service.settleInboxResponse id response).setCall call none).Orderly := by
    intro id response phase hcall hone hrow
    refine (hi.settleInboxResponse hrow).endCall fun old k w hold hsettles hw => ?_
    rw [settleInboxResponse_call, hcall] at hold
    obtain rfl := Option.some.inj hold
    exact (settleInboxResponse_answer hw).1 (hone k hsettles)
  -- an item that cannot be read has no waiter
  have skip : ∀ {id : String} {phase : InboxCall}, service.call call = some phase →
      (∀ k, phase.Settles k → k = id) → ¬service.reads id = true →
      (service.setCall call none).Orderly := by
    intro id phase hcall hone hreads
    refine hi.endCall fun old k w hold hsettles hw => ?_
    rw [hcall] at hold
    obtain rfl := Option.some.inj hold
    obtain ⟨r, hr⟩ := hi.waits hw
    obtain rfl := hone k hsettles
    exact absurd (reads_iff.mpr ⟨r, hr.found, hr.readable⟩) hreads
  unfold InboxService.answerInbox at h
  split at h
  · rename_i id response hcall
    have hone : ∀ k, (InboxCall.resolved id response).Settles k → k = id := fun _ he => he.symm
    split at h
    · obtain rfl := Option.some.inj h
      obtain ⟨row, hrow, hstatus, hresponse⟩ := hi.calls hcall
      exact answer hcall hone ⟨row, hrow, by simp [hstatus], hresponse⟩
    · obtain rfl := Option.some.inj h
      exact skip hcall hone ‹_›
  · rename_i id hcall
    have hone : ∀ k, (InboxCall.cancelled id).Settles k → k = id := fun _ he => he.symm
    split at h
    · obtain rfl := Option.some.inj h
      obtain ⟨row, hrow, hstatus⟩ := hi.calls hcall
      have hresponse : row.response = none := (hi.responded hrow).mpr (by simp [hstatus])
      exact answer hcall hone ⟨row, hrow, by simp [hstatus], hresponse⟩
    · obtain rfl := Option.some.inj h
      exact skip hcall hone ‹_›
  · cases h

/-- The waiters of the items of a list are settled one after the other. -/
theorem Orderly.settleAll {ids : List String} (hi : service.Orderly)
    (hrows : ∀ id ∈ ids, ∃ row, service.getItem id = some row ∧ row.status = .cancelled) :
    let settled := ids.foldl (fun service id => service.settleInboxResponse id none) service
    settled.Orderly ∧ settled.items = service.items ∧ settled.call = service.call ∧
      ∀ k w, settled.waiter k = some w → (k ∈ ids → w.answer ≠ none) ∧
        ∃ waiter, service.waiter k = some waiter ∧ (waiter.answer ≠ none → w = waiter) := by
  induction ids generalizing service with
  | nil => exact ⟨hi, rfl, rfl, fun k w hw => ⟨fun hk => absurd hk List.not_mem_nil, w, hw,
      fun _ => rfl⟩⟩
  | cons id ids ih =>
    obtain ⟨row, hrow, hstatus⟩ := hrows id List.mem_cons_self
    have hresponse : row.response = none := (hi.responded hrow).mpr (by simp [hstatus])
    have hnext := hi.settleInboxResponse ⟨row, hrow, by simp [hstatus], hresponse⟩
    obtain ⟨hall, hitems, hcalls, hwaiters⟩ := ih hnext (fun k hk => by
      obtain ⟨r, hr⟩ := hrows k (List.mem_cons_of_mem _ hk)
      unfold getItem at hr ⊢
      rw [settleInboxResponse_items]
      exact ⟨r, hr⟩)
    rw [settleInboxResponse_items] at hitems
    rw [settleInboxResponse_call] at hcalls
    refine ⟨hall, hitems, hcalls, fun k w hw => ?_⟩
    obtain ⟨hmem, middle, hmiddle, hkept⟩ := hwaiters k w hw
    obtain ⟨hfirst, waiter, hwaiter, hkept'⟩ := settleInboxResponse_answer hmiddle
    refine ⟨fun hk => ?_, waiter, hwaiter, fun hne => ?_⟩
    · rcases List.mem_cons.mp hk with rfl | hk
      · have hsome := hfirst rfl
        rw [hkept hsome]
        exact hsome
      · exact hmem hk
    · obtain rfl := hkept' hne
      exact hkept hne

theorem Orderly.answerSelected {call : ℕ} (hi : service.Orderly)
    (h : service.answerSelected call = some service') : service'.Orderly := by
  unfold InboxService.answerSelected at h
  split at h
  · rename_i ids hcall
    obtain rfl := Option.some.inj h
    obtain ⟨hall, hitems, hcalls, hwaiters⟩ := hi.settleAll (hi.calls hcall)
    refine hall.endCall fun phase k w hphase hsettles hw => (hwaiters k w hw).1 ?_
    rw [hcalls, hcall] at hphase
    obtain rfl := Option.some.inj hphase
    exact hsettles
  · cases h

/-- The steps of a waiter. -/
theorem Orderly.readItem (hi : service.Orderly) (h : service.readItem id = some service') :
    service'.Orderly := by
  unfold InboxService.readItem at h
  split at h
  · rename_i timer answer row hwaiter hrow
    obtain rfl := Option.some.inj h
    obtain ⟨r, hr⟩ := hi.waits hwaiter
    rw [hr.found] at hrow
    obtain rfl := Option.some.inj hrow
    refine hi.setWaiter hwaiter ⟨hr.found, hr.readable, ?_, hr.cancelled, hr.refused, hr.answered,
      fun _ hstatus => .inl (.inr (.inl ⟨_, _, rfl, hstatus⟩))⟩
    intro status response hread _
    cases hread
    exact ⟨rfl, rfl⟩
  · cases h

theorem Orderly.checkItem (hi : service.Orderly) (h : service.checkItem id = some service') :
    service'.Orderly := by
  unfold InboxService.checkItem at h
  split at h
  · rename_i status response timer answer hwaiter
    obtain rfl := Option.some.inj h
    obtain ⟨r, hr⟩ := hi.waits hwaiter
    split
    · rename_i hstatus
      obtain ⟨hsame, hresponse⟩ := hr.checked status response rfl hstatus
      exact hi.setWaiter hwaiter (hr.settle (fun _ => hsame ▸ hstatus) (fun _ => hresponse)
        (.inl rfl) (.inr rfl))
    · rename_i hpending
      refine hi.setWaiter hwaiter ⟨hr.found, hr.readable, ?_, hr.cancelled, hr.refused, hr.answered,
        ?_⟩
      · intro status response hread
        cases hread
      · intro hanswer hstatus
        rcases hr.settled hanswer hstatus with hactive | hcall
        · rcases hactive with hread | ⟨_, _, hread, hne⟩ | htimer
          · cases hread
          · cases hread
            exact absurd hne hpending
          · exact .inl (.inr (.inr htimer))
        · exact .inr hcall
  · cases h

theorem Orderly.timerFires (hi : service.Orderly) (h : service.timerFires id = some service') :
    service'.Orderly := by
  unfold InboxService.timerFires at h
  split at h
  · rename_i check answer hwaiter
    obtain rfl := Option.some.inj h
    obtain ⟨r, hr⟩ := hi.waits hwaiter
    refine hi.setWaiter hwaiter ⟨hr.found, hr.readable, hr.checked, ?_, ?_, hr.answered, ?_⟩
    · intro htimer
      cases htimer
    · intro htimer
      cases htimer
    · intro hanswer hstatus
      rcases hr.settled hanswer hstatus with hactive | hcall
      · rcases hactive with hread | hread | htimer | htimer
        · exact .inl (.inl hread)
        · exact .inl (.inr (.inl hread))
        · cases htimer
        · cases htimer
      · exact .inr hcall
  · cases h

theorem Orderly.timerAnswers (hi : service.Orderly) (hcareful : service.Careful (.timerAnswers id))
    (h : service.timerAnswers id = some service') : service'.Orderly := by
  unfold InboxService.timerAnswers at h
  split at h
  · rename_i check timer answer hwaiter
    split at h
    · rename_i htimer
      obtain rfl := Option.some.inj h
      obtain ⟨r, hr⟩ := hi.waits hwaiter
      have hstatus : r.status ≠ .pending := by
        rcases htimer with rfl | rfl
        · rw [hr.cancelled rfl]
          decide
        · exact hr.refused rfl
      refine hi.setWaiter hwaiter (hr.settle (fun _ => hstatus) (fun hanswer => ?_) (.inr rfl)
        (.inl rfl))
      apply (hi.responded hr.found).mpr
      rcases htimer with rfl | rfl
      · rw [hr.cancelled rfl]
        decide
      · exact hcareful _ hwaiter rfl hanswer r hr.found
    · cases h
  · cases h

theorem Orderly.timerCancels {now : String} (hi : service.Orderly)
    (h : service.timerCancels id now = some service') : service'.Orderly := by
  unfold InboxService.timerCancels at h
  split at h
  · rename_i check answer hwaiter
    obtain ⟨r, hr⟩ := hi.waits hwaiter
    split at h
    · rename_i updated hupdate
      obtain rfl := Option.some.inj h
      obtain ⟨row, hrow, hpending, rfl⟩ := updatePending_eq hupdate
      rw [hr.found] at hrow
      obtain rfl := Option.some.inj hrow
      have hup : service.Updates (fun row => row.id = id && row.status = .pending)
          (InboxRow.cancel now) := updates_cancel hi now
      have hitem := getItem_updatePending (f := InboxRow.cancel now) (fun _ => rfl) hr.found hpending
      have hgrows : service.Grows ((service.setItems (updateWhere (fun row => row.id = id &&
          row.status = .pending) (InboxRow.cancel now) service.items)).setWaiter id
            ⟨check, .cancelled, answer⟩) := hup.grows
      apply hi.change hgrows (hup.responses hi) (fun hcall => .inl hcall)
      · intro k hk
        have hne : k ≠ id := by
          rintro rfl
          rw [hk] at hwaiter
          cases hwaiter
        exact (Function.update_of_ne hne _ _).trans hk
      · intro k w hw
        by_cases hk : k = id
        · subst hk
          obtain rfl := Option.some.inj ((Function.update_self k _ _).symm.trans hw)
          refine ⟨r.cancel now, hitem, hr.readable, ?_, fun _ => rfl, ?_, ?_,
            fun _ _ => .inl (.inr (.inr (.inl rfl)))⟩
          · intro status response hread hne
            obtain ⟨hsame, -⟩ := hr.checked status response hread hne
            exact absurd (hsame.symm.trans hpending) hne
          · intro htimer
            cases htimer
          · intro given hgiven
            exact absurd hpending (hr.answered given hgiven).1
        · obtain ⟨q, hq⟩ := hi.waits ((Function.update_of_ne hk _ _).symm.trans hw)
          refine hup.waits hq ?_ (fun call phase hcall hsettles _ => ⟨call, phase, hcall, hsettles⟩)
            fun hp => ?_
          · rfl
          · simp only [Bool.and_eq_true, decide_eq_true_eq] at hp
            exact absurd ((getItem_id hq.found).symm.trans hp.1) hk
    · rename_i hrefused
      obtain rfl := Option.some.inj h
      have hstatus : r.status ≠ .pending := by
        intro hpending
        simp [InboxService.updatePending, hr.found, hpending] at hrefused
      refine hi.setWaiter hwaiter ⟨hr.found, hr.readable, hr.checked, ?_, fun _ => hstatus,
        hr.answered, fun _ _ => .inl (.inr (.inr (.inr rfl)))⟩
      intro htimer
      cases htimer
  · cases h

theorem grows_step (hi : service.Orderly) (hcareful : service.Careful act)
    (h : machine.step service act = some service') : service.Grows service' := by
  cases act with
  | createInbox id now input => exact grows_createInbox h
  | requestExtensionInput call id now input timeout =>
    simp only [machine, step, requestExtensionInput] at h
    split at h
    · obtain ⟨created, hcreated, rfl⟩ := Option.map_eq_some_iff.mp h
      have hgrows := grows_createInbox hcreated
      exact hgrows
    · cases h
  | timerCancels id now =>
    simp only [machine, step, timerCancels] at h
    split at h
    · split at h
      · rename_i updated hupdate
        obtain rfl := Option.some.inj h
        obtain ⟨-, -, -, rfl⟩ := updatePending_eq hupdate
        exact (updates_cancel hi now).grows
      · obtain rfl := Option.some.inj h
        exact .of_items rfl
    · cases h
  | resolveInbox call id response now =>
    simp only [machine, step, resolveInbox] at h
    split at h
    · obtain ⟨updated, hupdate, rfl⟩ := Option.map_eq_some_iff.mp h
      obtain ⟨-, -, -, rfl⟩ := updatePending_eq hupdate
      exact (updates_resolve hi response now).grows
    · cases h
  | cancelInbox call id now =>
    simp only [machine, step, cancelInbox] at h
    split at h
    · obtain ⟨updated, hupdate, rfl⟩ := Option.map_eq_some_iff.mp h
      obtain ⟨-, -, -, rfl⟩ := updatePending_eq hupdate
      exact (updates_cancel hi now).grows
    · cases h
  | cancelSelected call now =>
    simp only [machine, step, cancelSelected] at h
    split at h
    · rename_i ids hcall
      obtain rfl := Option.some.inj h
      exact (updates_selected hi hcareful hcall).grows
    · cases h
  | answerSelected call =>
    simp only [machine, step, answerSelected] at h
    split at h
    · rename_i ids hcall
      obtain rfl := Option.some.inj h
      obtain ⟨-, hitems, -⟩ := hi.settleAll (hi.calls hcall)
      exact .of_items hitems
    · cases h
  | _ =>
    apply Grows.of_items
    simp only [machine, step, registerWaiter, readItem, checkItem, timerFires, timerAnswers,
      answerInbox, cancelExtensionRequests] at h
    repeat' split at h
    all_goals first
      | cases h; simp [setCall, setWaiter]
      | cases h

theorem answer_setWaiter {k : String} {old new : InboxWaiter} {answer : Option String}
    (hold : service.waiter k = some old)
    (hkeep : ∀ answer, old.answer = some answer → new.answer = some answer)
    (hwaiter : service.waiter id = some waiter) (hanswer : waiter.answer = some answer) :
    ∃ waiter', (service.setWaiter k new).waiter id = some waiter' ∧
      waiter'.answer = some answer := by
  by_cases hid : id = k
  · subst hid
    rw [hold] at hwaiter
    obtain rfl := Option.some.inj hwaiter
    exact ⟨new, Function.update_self id _ _, hkeep answer hanswer⟩
  · exact ⟨waiter, (Function.update_of_ne hid _ _).trans hwaiter, hanswer⟩

theorem settleInboxResponse_kept {k : String} {response : Option String}
    (hwaiter : service.waiter id = some waiter) (hanswer : waiter.answer ≠ none) :
    (service.settleInboxResponse k response).waiter id = some waiter := by
  unfold settleInboxResponse
  split
  · rename_i other hother
    split
    · rename_i hnone
      have hid : id ≠ k := by
        rintro rfl
        rw [hwaiter] at hother
        obtain rfl := Option.some.inj hother
        exact hanswer hnone
      exact (Function.update_of_ne hid _ _).trans hwaiter
    · exact hwaiter
  · exact hwaiter

theorem settleAll_kept {ids : List String} (hwaiter : service.waiter id = some waiter)
    (hanswer : waiter.answer ≠ none) :
    (ids.foldl (fun service id => service.settleInboxResponse id none) service).waiter id =
      some waiter := by
  induction ids generalizing service with
  | nil => exact hwaiter
  | cons k ids ih => exact ih (settleInboxResponse_kept hwaiter hanswer)

/-- A promise keeps its answer. -/
theorem answer_step {answer : Option String} (hi : service.Orderly)
    (h : machine.step service act = some service') (hwaiter : service.waiter id = some waiter)
    (hanswer : waiter.answer = some answer) :
    ∃ waiter', service'.waiter id = some waiter' ∧ waiter'.answer = some answer := by
  have hsome : waiter.answer ≠ none := by simp [hanswer]
  have same : service'.waiter = service.waiter →
      ∃ waiter', service'.waiter id = some waiter' ∧ waiter'.answer = some answer := by
    intro heq
    rw [heq]
    exact ⟨waiter, hwaiter, hanswer⟩
  cases act with
  | registerWaiter call =>
    simp only [machine, step, registerWaiter] at h
    split at h
    · rename_i k timeout hcall
      split at h
      · obtain rfl := Option.some.inj h
        have hne : id ≠ k := by
          rintro rfl
          rw [(hi.calls hcall).2] at hwaiter
          cases hwaiter
        exact ⟨waiter, (Function.update_of_ne hne _ _).trans hwaiter, hanswer⟩
      · obtain rfl := Option.some.inj h
        exact same rfl
    · cases h
  | readItem k =>
    simp only [machine, step, readItem] at h
    split at h
    · rename_i hold _
      obtain rfl := Option.some.inj h
      exact answer_setWaiter hold (fun _ he => he) hwaiter hanswer
    · cases h
  | checkItem k =>
    simp only [machine, step, checkItem] at h
    split at h
    · rename_i hold
      obtain rfl := Option.some.inj h
      refine answer_setWaiter hold (fun a ha => ?_) hwaiter hanswer
      obtain rfl : _ = some a := ha
      split
      · rfl
      · rfl
    · cases h
  | timerFires k =>
    simp only [machine, step, timerFires] at h
    split at h
    · rename_i hold
      obtain rfl := Option.some.inj h
      exact answer_setWaiter hold (fun _ he => he) hwaiter hanswer
    · cases h
  | timerCancels k now =>
    simp only [machine, step, timerCancels] at h
    split at h
    · rename_i hold
      split at h
      · rename_i updated hupdate
        obtain rfl := Option.some.inj h
        obtain ⟨-, -, -, rfl⟩ := updatePending_eq hupdate
        exact answer_setWaiter hold (fun _ he => he) hwaiter hanswer
      · obtain rfl := Option.some.inj h
        exact answer_setWaiter hold (fun _ he => he) hwaiter hanswer
    · cases h
  | timerAnswers k =>
    simp only [machine, step, timerAnswers] at h
    split at h
    · rename_i hold
      split at h
      · obtain rfl := Option.some.inj h
        refine answer_setWaiter hold (fun a ha => ?_) hwaiter hanswer
        obtain rfl : _ = some a := ha
        rfl
      · cases h
    · cases h
  | answerInbox call =>
    simp only [machine, step, answerInbox] at h
    repeat' split at h
    all_goals first
      | cases h; exact ⟨waiter, settleInboxResponse_kept hwaiter hsome, hanswer⟩
      | cases h; exact same rfl
      | cases h
  | answerSelected call =>
    simp only [machine, step, answerSelected] at h
    split at h
    · obtain rfl := Option.some.inj h
      exact ⟨waiter, settleAll_kept hwaiter hsome, hanswer⟩
    · cases h
  | createInbox k now input =>
    obtain ⟨-, rfl, -⟩ := createInbox_eq h
    exact same rfl
  | requestExtensionInput call k now input timeout =>
    simp only [machine, step, requestExtensionInput] at h
    split at h
    · obtain ⟨created, hcreated, rfl⟩ := Option.map_eq_some_iff.mp h
      obtain ⟨-, rfl, -⟩ := createInbox_eq hcreated
      exact same rfl
    · cases h
  | resolveInbox call k response now =>
    simp only [machine, step, resolveInbox] at h
    split at h
    · obtain ⟨updated, hupdate, rfl⟩ := Option.map_eq_some_iff.mp h
      obtain ⟨-, -, -, rfl⟩ := updatePending_eq hupdate
      exact same rfl
    · cases h
  | cancelInbox call k now =>
    simp only [machine, step, cancelInbox] at h
    split at h
    · obtain ⟨updated, hupdate, rfl⟩ := Option.map_eq_some_iff.mp h
      obtain ⟨-, -, -, rfl⟩ := updatePending_eq hupdate
      exact same rfl
    · cases h
  | cancelExtensionRequests call runId =>
    simp only [machine, step, cancelExtensionRequests] at h
    split at h
    · split at h
      · cases h
      · obtain rfl := Option.some.inj h
        exact same rfl
    · cases h
  | cancelSelected call now =>
    simp only [machine, step, cancelSelected] at h
    split at h
    · obtain rfl := Option.some.inj h
      exact same rfl
    · cases h

theorem Orderly.answered (hi : service.Orderly) : service.Answered := by
  intro id waiter answer hwaiter hanswer
  obtain ⟨row, hrow⟩ := hi.waits hwaiter
  obtain ⟨hstatus, hresponse⟩ := hrow.answered answer hanswer
  refine ⟨row, hrow.found, hstatus, hresponse, fun hcancelled => ?_⟩
  rw [← hresponse]
  exact (hi.responded hrow.found).mpr (by simp [hcancelled])

theorem Orderly.keeps (hi : service.Orderly) (hcareful : service.Careful act)
    (h : machine.step service act = some service') : service.Keeps service' := by
  refine ⟨fun id row hrow hstatus => ?_, fun id waiter answer => answer_step hi h⟩
  obtain ⟨row', hrow', -, hsame⟩ := grows_step hi hcareful h id row hrow
  rw [hsame hstatus] at hrow'
  exact hrow'

end InboxService
end PiDeck.Supervisor
