import Mathlib
import PiDeck.Transition.Machine

/-! The commands that a client sends to agents. The client stores one submission for each kind and
target and goes on using its key for the same payload; the service keeps one receipt for each key and
runs a command only under a key that it does not know. -/
namespace PiDeck.Agents.Submissions
open PiDeck.Transition

inductive SubmissionKind
  | createRun
  | cancelRun
  | steerRun
  | followUpRun
  deriving DecidableEq, Repr

inductive SubmissionState
  | pending
  | uncertain
  | failed
  deriving DecidableEq, Repr

structure SubmissionRecord (Key Target Digest : Type) where
  key : Key
  kind : SubmissionKind
  target : Target
  requestDigest : Digest
  state : SubmissionState
  deriving DecidableEq

inductive ReceiptStatus
  | pending
  | succeeded
  | failed
  | indeterminate
  deriving DecidableEq, Repr

structure Receipt (Request : Type) where
  request : Request
  status : ReceiptStatus
  deriving DecidableEq

/-- What the service does with a command. -/
inductive Begun
  | attempt
  | result
  | conflict
  | inProgress
  | failureReplayed
  deriving DecidableEq, Repr

/-- The two digests of a payload, the client's own and that of the request that the service sees. -/
structure Digests (Key Target Payload Digest Request : Type) where
  client : Payload → Digest
  service : SubmissionKind → Target → Payload → Key → Request

section Functions
variable {Key Target Payload Digest Request : Type} [DecidableEq Key] [DecidableEq Target]
  [DecidableEq Digest] [DecidableEq Request]

/-- The session storage, by kind and target. -/
abbrev Stored (Key Target Digest : Type) :=
  SubmissionKind → Target → Option (SubmissionRecord Key Target Digest)

def write (stored : Stored Key Target Digest) (kind : SubmissionKind) (target : Target)
    (record : Option (SubmissionRecord Key Target Digest)) : Stored Key Target Digest :=
  fun kind' target' => if kind' = kind ∧ target' = target then record else stored kind' target'

/-- A submission under the stored key or a new one; nothing if another payload is undecided. -/
def beginSubmission (stored : Stored Key Target Digest) (createdKey : Key) (kind : SubmissionKind)
    (target : Target) (digest : Digest) :
    Option (SubmissionRecord Key Target Digest × Stored Key Target Digest) :=
  let created : SubmissionRecord Key Target Digest := ⟨createdKey, kind, target, digest, .pending⟩
  match stored kind target with
  | none => some (created, write stored kind target (some created))
  | some existing =>
    if existing.requestDigest = digest then some (existing, stored)
    else if existing.state = .pending ∨ existing.state = .uncertain then none
    else some (created, write stored kind target (some created))

/-- `updateSubmission`, for a submission that is still the stored one. -/
def updateSubmission (stored : Stored Key Target Digest)
    (submission : SubmissionRecord Key Target Digest) (state : SubmissionState) :
    Stored Key Target Digest :=
  if (stored submission.kind submission.target).map SubmissionRecord.key = some submission.key then
    write stored submission.kind submission.target (some { submission with state := state })
  else stored

/-- `completeSubmission`. -/
def removeSubmission (stored : Stored Key Target Digest) (kind : SubmissionKind) (target : Target)
    (key : Key) : Stored Key Target Digest :=
  if (stored kind target).map SubmissionRecord.key = some key then write stored kind target none
  else stored

def beginReceipt (receipts : Key → Option (Receipt Request)) (key : Key) (request : Request) :
    Begun :=
  match receipts key with
  | none => .attempt
  | some existing =>
    if existing.request ≠ request then .conflict
    else
      match existing.status with
      | .pending => .inProgress
      | .succeeded => .result
      | .failed | .indeterminate => .failureReplayed

end Functions

/-! ### The client and the service -/

/-- A command on its way. -/
structure Command (Key Target Payload : Type) where
  kind : SubmissionKind
  target : Target
  payload : Payload
  key : Key
  deriving DecidableEq

/-- `issued` are the submissions that the client has made, by their key. -/
structure System (Key Target Payload Digest Request : Type) where
  stored : Stored Key Target Digest
  issued : Key → Option (SubmissionKind × Target × Digest)
  commands : List (Command Key Target Payload)
  receipts : Key → Option (Receipt Request)

/-- What happens. A command that was sent may arrive or be lost; another client uses keys of its own;
the client hears of an outcome, or learns it from the receipt, or takes an error for one. -/
inductive Event (Key Target Payload Digest Request : Type)
  | submit (kind : SubmissionKind) (target : Target) (payload : Payload) (createdKey : Key)
  | arrive (command : Command Key Target Payload)
  | lose (command : Command Key Target Payload)
  | foreign (key : Key) (request : Request)
  | settle (key : Key) (status : ReceiptStatus)
  | restart
  | mark (submission : SubmissionRecord Key Target Digest) (state : SubmissionState)
  | complete (kind : SubmissionKind) (target : Target) (key : Key)

section Machine
variable {Key Target Payload Digest Request : Type} [DecidableEq Key] [DecidableEq Target]
  [DecidableEq Payload] [DecidableEq Digest] [DecidableEq Request]
  (digests : Digests Key Target Payload Digest Request)

namespace System

def Fresh (s : System Key Target Payload Digest Request) (key : Key) : Prop :=
  s.issued key = none ∧ s.receipts key = none

instance (s : System Key Target Payload Digest Request) (key : Key) : Decidable (s.Fresh key) :=
  inferInstanceAs (Decidable (_ ∧ _))

def submit (s : System Key Target Payload Digest Request) (kind : SubmissionKind) (target : Target)
    (payload : Payload) (createdKey : Key) : System Key Target Payload Digest Request :=
  match beginSubmission s.stored createdKey kind target (digests.client payload) with
  | none => s
  | some (submission, stored) =>
    { s with
      stored := stored
      issued := Function.update s.issued submission.key
        (some (submission.kind, submission.target, submission.requestDigest))
      commands := ⟨kind, target, payload, submission.key⟩ :: s.commands }

/-- The service gets a command. -/
def receive (s : System Key Target Payload Digest Request)
    (command : Command Key Target Payload) : System Key Target Payload Digest Request :=
  let request := digests.service command.kind command.target command.payload command.key
  { s with
    commands := s.commands.erase command
    receipts :=
      if beginReceipt s.receipts command.key request = .attempt then
        Function.update s.receipts command.key (some ⟨request, .pending⟩)
      else s.receipts }

def settle (s : System Key Target Payload Digest Request) (key : Key) (status : ReceiptStatus) :
    System Key Target Payload Digest Request :=
  { s with
    receipts := Function.update s.receipts key
      ((s.receipts key).map fun receipt => { receipt with status := status }) }

/-- `markStaleReceiptsIndeterminate`. -/
def restart (s : System Key Target Payload Digest Request) :
    System Key Target Payload Digest Request :=
  { s with receipts := fun key => (s.receipts key).map fun receipt =>
      if receipt.status = .pending then { receipt with status := .indeterminate } else receipt }

end System

def step (s : System Key Target Payload Digest Request) :
    Event Key Target Payload Digest Request → Option (System Key Target Payload Digest Request)
  | .submit kind target payload createdKey =>
    if s.Fresh createdKey then some (s.submit digests kind target payload createdKey) else none
  | .arrive command => if command ∈ s.commands then some (s.receive digests command) else none
  | .lose command =>
    if command ∈ s.commands then some { s with commands := s.commands.erase command } else none
  | .foreign key request =>
    if s.Fresh key then
      some { s with receipts := Function.update s.receipts key (some ⟨request, .pending⟩) }
    else none
  | .settle key status =>
    if (s.receipts key).map Receipt.status = some .pending then some (s.settle key status) else none
  | .restart => some s.restart
  | .mark submission state =>
    if s.issued submission.key =
        some (submission.kind, submission.target, submission.requestDigest) then
      some { s with stored := updateSubmission s.stored submission state }
    else none
  | .complete kind target key =>
    if (s.receipts key).map Receipt.status = some .succeeded then
      some { s with stored := removeSubmission s.stored kind target key }
    else none

def machine : Machine (System Key Target Payload Digest Request)
    (Event Key Target Payload Digest Request) := ⟨step digests⟩

def start : System Key Target Payload Digest Request where
  stored := fun _ _ => none
  issued := fun _ => none
  commands := []
  receipts := fun _ => none

/-! ### Retrying a failed command -/

/-- The service has answered the stored submission of this payload with a failure. -/
structure FailedCommand (s : System Key Target Payload Digest Request) (kind : SubmissionKind)
    (target : Target) (payload : Payload) (key : Key) : Prop where
  stored : ∃ record, s.stored kind target = some record ∧ record.key = key ∧
    record.requestDigest = digests.client payload
  receipt : s.receipts key = some ⟨digests.service kind target payload key, .failed⟩

/-- What comes of submitting the payload, if the client lets it through. -/
def retried (s : System Key Target Payload Digest Request) (kind : SubmissionKind) (target : Target)
    (payload : Payload) (createdKey : Key) : Option Begun :=
  (beginSubmission s.stored createdKey kind target (digests.client payload)).map fun begun =>
    beginReceipt s.receipts begun.1.key (digests.service kind target payload begun.1.key)

/-- Since then another payload was submitted for the target. -/
def Superseded (kind : SubmissionKind) (target : Target) (payload : Payload)
    (events : List (Event Key Target Payload Digest Request)) : Prop :=
  ∃ other createdKey, .submit kind target other createdKey ∈ events ∧
    digests.client other ≠ digests.client payload

/-- The stored submission, if there is one, failed with another payload, or has this payload under a
key that the service does not know. -/
def Open (s : System Key Target Payload Digest Request) (kind : SubmissionKind) (target : Target)
    (payload : Payload) : Prop :=
  ∀ record, s.stored kind target = some record →
    if record.requestDigest = digests.client payload then s.receipts record.key = none
    else record.state = .failed

/-- Every stored submission was issued for the place where it is stored. -/
def Placed (s : System Key Target Payload Digest Request) : Prop :=
  ∀ kind target record, s.stored kind target = some record → record.kind = kind ∧
    record.target = target ∧
      s.issued record.key = some (record.kind, record.target, record.requestDigest)

variable {digests} {s t : System Key Target Payload Digest Request} {kind : SubmissionKind}
  {target : Target} {payload : Payload} {key createdKey : Key}
  {event : Event Key Target Payload Digest Request}
  {events : List (Event Key Target Payload Digest Request)}

omit [DecidableEq Key] [DecidableEq Payload] [DecidableEq Digest] [DecidableEq Request] in
theorem write_self (stored : Stored Key Target Digest)
    (record : Option (SubmissionRecord Key Target Digest)) :
    write stored kind target record kind target = record := by
  simp [write]

omit [DecidableEq Key] [DecidableEq Payload] [DecidableEq Digest] [DecidableEq Request] in
theorem write_of_ne {stored : Stored Key Target Digest} {kind' : SubmissionKind} {target' : Target}
    {record : Option (SubmissionRecord Key Target Digest)} (h : ¬(kind' = kind ∧ target' = target)) :
    write stored kind target record kind' target' = stored kind' target' := if_neg h

omit [DecidableEq Target] [DecidableEq Payload] [DecidableEq Digest] [DecidableEq Key] in
theorem beginReceipt_eq_attempt {receipts : Key → Option (Receipt Request)} {request : Request} :
    beginReceipt receipts key request = .attempt ↔ receipts key = none := by
  rw [beginReceipt]
  cases receipts key with
  | none => simp
  | some existing =>
    simp only [reduceCtorEq, iff_false]
    split
    · simp
    · cases existing.status <;> simp

omit [DecidableEq Payload] [DecidableEq Request] in
variable (digests kind target payload createdKey) in
/-- A submission is blocked, or goes out under the stored key, or takes the place under a new one. -/
theorem submit_cases (hplaced : Placed s) :
    s.submit digests kind target payload createdKey = s ∨
    (∃ record commands, s.stored kind target = some record ∧
      record.requestDigest = digests.client payload ∧
        s.submit digests kind target payload createdKey = { s with commands := commands }) ∨
    ∃ commands, (∀ record, s.stored kind target = some record →
        record.requestDigest ≠ digests.client payload) ∧
      s.submit digests kind target payload createdKey = { s with
        stored := write s.stored kind target
          (some ⟨createdKey, kind, target, digests.client payload, .pending⟩)
        issued := Function.update s.issued createdKey
          (some (kind, target, digests.client payload))
        commands := commands } := by
  rw [System.submit, beginSubmission]
  cases hstored : s.stored kind target with
  | none => exact .inr (.inr ⟨_, by simp, rfl⟩)
  | some record =>
    by_cases hdigest : record.requestDigest = digests.client payload
    · refine .inr (.inl ⟨record, ⟨kind, target, payload, record.key⟩ :: s.commands, rfl, hdigest, ?_⟩)
      have hissued : Function.update s.issued record.key
          (some (record.kind, record.target, record.requestDigest)) = s.issued := by
        rw [← (hplaced kind target record hstored).2.2, Function.update_eq_self]
      simp only [hdigest, if_true]
      rw [← hdigest, hissued]
    · by_cases hstate : record.state = .pending ∨ record.state = .uncertain
      · exact .inl (by simp [hdigest, hstate])
      · refine .inr (.inr ⟨⟨kind, target, payload, createdKey⟩ :: s.commands, ?_, ?_⟩)
        · intro other hother
          obtain rfl := Option.some.inj hother
          exact hdigest
        · simp only [hdigest, hstate, if_false]

theorem placed_step (hplaced : Placed s) (h : step digests s event = some t) : Placed t := by
  cases event with
  | submit kind target payload createdKey =>
    obtain ⟨hfresh, h⟩ := Option.ite_none_right_eq_some.mp h
    obtain rfl := Option.some.inj h
    obtain hsame | ⟨_, _, -, -, hsame⟩ | ⟨commands, -, hnew⟩ :=
      submit_cases digests kind target payload createdKey hplaced
    · rwa [hsame]
    · rw [hsame]
      exact hplaced
    · rw [hnew]
      intro kind' target' record hrecord
      by_cases hplace : kind' = kind ∧ target' = target
      · obtain ⟨rfl, rfl⟩ := hplace
        simp only [write_self, Option.some.injEq] at hrecord
        subst hrecord
        exact ⟨rfl, rfl, Function.update_self _ _ _⟩
      · simp only [write_of_ne hplace] at hrecord
        obtain ⟨hkind, htarget, hissued⟩ := hplaced kind' target' record hrecord
        refine ⟨hkind, htarget, ?_⟩
        have hne : record.key ≠ createdKey := by
          rintro rfl
          simp [hfresh.1] at hissued
        simp only [Function.update_of_ne hne, hissued]
  | mark submission state =>
    obtain ⟨hissued, h⟩ := Option.ite_none_right_eq_some.mp h
    obtain rfl := Option.some.inj h
    intro kind target record hrecord
    simp only [updateSubmission] at hrecord
    split at hrecord
    · by_cases hplace : kind = submission.kind ∧ target = submission.target
      · obtain ⟨rfl, rfl⟩ := hplace
        rw [write_self] at hrecord
        obtain rfl := Option.some.inj hrecord
        exact ⟨rfl, rfl, hissued⟩
      · rw [write_of_ne hplace] at hrecord
        exact hplaced kind target record hrecord
    · exact hplaced kind target record hrecord
  | complete kind target key =>
    obtain ⟨-, h⟩ := Option.ite_none_right_eq_some.mp h
    obtain rfl := Option.some.inj h
    intro kind' target' record hrecord
    simp only [removeSubmission] at hrecord
    split at hrecord
    · by_cases hplace : kind' = kind ∧ target' = target
      · obtain ⟨rfl, rfl⟩ := hplace
        rw [write_self] at hrecord
        cases hrecord
      · rw [write_of_ne hplace] at hrecord
        exact hplaced kind' target' record hrecord
    · exact hplaced kind' target' record hrecord
  | arrive command | lose command | foreign key request | settle key status =>
    obtain ⟨-, h⟩ := Option.ite_none_right_eq_some.mp h
    obtain rfl := Option.some.inj h
    exact hplaced
  | restart =>
    obtain rfl := Option.some.inj h
    exact hplaced

theorem failedCommand_step (hplaced : Placed s) (h : FailedCommand digests s kind target payload key)
    (hevent : ∀ other createdKey, event = .submit kind target other createdKey →
      digests.client other = digests.client payload)
    (hstep : step digests s event = some t) : FailedCommand digests t kind target payload key := by
  obtain ⟨⟨record, hrecord, hkey, hdigest⟩, hreceipt⟩ := h
  have hissued : s.issued key = some (kind, target, digests.client payload) := by
    obtain ⟨hkind, htarget, hissued⟩ := hplaced kind target record hrecord
    rw [← hkey, hissued, hkind, htarget, hdigest]
  -- A receipt is only written for a key that has none, and only settled while it is pending.
  have hreceipt_of_ne {other : Key} {receipt : Option (Receipt Request)} (hne : other ≠ key) :
      Function.update s.receipts other receipt key =
        some ⟨digests.service kind target payload key, .failed⟩ := by
    rw [Function.update_of_ne hne.symm, hreceipt]
  cases event with
  | submit kind' target' other createdKey =>
    obtain ⟨-, hstep⟩ := Option.ite_none_right_eq_some.mp hstep
    obtain rfl := Option.some.inj hstep
    obtain hsame | ⟨_, _, -, -, hsame⟩ | ⟨commands, hdiffers, hnew⟩ :=
      submit_cases digests kind' target' other createdKey hplaced
    · rw [hsame]
      exact ⟨⟨record, hrecord, hkey, hdigest⟩, hreceipt⟩
    · rw [hsame]
      exact ⟨⟨record, hrecord, hkey, hdigest⟩, hreceipt⟩
    · rw [hnew]
      have hplace : ¬(kind = kind' ∧ target = target') := by
        rintro ⟨rfl, rfl⟩
        exact hdiffers record hrecord (hdigest.trans (hevent other createdKey rfl).symm)
      exact ⟨⟨record, (write_of_ne hplace).trans hrecord, hkey, hdigest⟩, hreceipt⟩
  | arrive command =>
    obtain ⟨-, hstep⟩ := Option.ite_none_right_eq_some.mp hstep
    obtain rfl := Option.some.inj hstep
    refine ⟨⟨record, hrecord, hkey, hdigest⟩, ?_⟩
    simp only [System.receive]
    split
    · rename_i hattempt
      apply hreceipt_of_ne
      rintro rfl
      simp [beginReceipt_eq_attempt, hreceipt] at hattempt
    · exact hreceipt
  | foreign other request =>
    obtain ⟨hfresh, hstep⟩ := Option.ite_none_right_eq_some.mp hstep
    obtain rfl := Option.some.inj hstep
    refine ⟨⟨record, hrecord, hkey, hdigest⟩, hreceipt_of_ne ?_⟩
    rintro rfl
    rw [hfresh.2] at hreceipt
    cases hreceipt
  | settle other status =>
    obtain ⟨hpending, hstep⟩ := Option.ite_none_right_eq_some.mp hstep
    obtain rfl := Option.some.inj hstep
    refine ⟨⟨record, hrecord, hkey, hdigest⟩, hreceipt_of_ne ?_⟩
    rintro rfl
    simp [hreceipt] at hpending
  | restart =>
    obtain rfl := Option.some.inj hstep
    exact ⟨⟨record, hrecord, hkey, hdigest⟩, by simp [System.restart, hreceipt]⟩
  | lose command =>
    obtain ⟨-, hstep⟩ := Option.ite_none_right_eq_some.mp hstep
    obtain rfl := Option.some.inj hstep
    exact ⟨⟨record, hrecord, hkey, hdigest⟩, hreceipt⟩
  | mark submission state =>
    obtain ⟨hsubmission, hstep⟩ := Option.ite_none_right_eq_some.mp hstep
    obtain rfl := Option.some.inj hstep
    refine ⟨?_, hreceipt⟩
    simp only [updateSubmission]
    split
    · rename_i hsame
      by_cases hplace : kind = submission.kind ∧ target = submission.target
      · obtain ⟨rfl, rfl⟩ := hplace
        simp only [hrecord, Option.map_some, Option.some.injEq] at hsame
        rw [← hsame, hkey, hissued] at hsubmission
        refine ⟨_, write_self _ _, hsame.symm.trans hkey, ?_⟩
        simpa using hsubmission.symm
      · exact ⟨record, (write_of_ne hplace).trans hrecord, hkey, hdigest⟩
    · exact ⟨record, hrecord, hkey, hdigest⟩
  | complete kind' target' other =>
    obtain ⟨hsucceeded, hstep⟩ := Option.ite_none_right_eq_some.mp hstep
    obtain rfl := Option.some.inj hstep
    refine ⟨?_, hreceipt⟩
    simp only [removeSubmission]
    split
    · rename_i hsame
      have hplace : ¬(kind = kind' ∧ target = target') := by
        rintro ⟨rfl, rfl⟩
        simp only [hrecord, Option.map_some, Option.some.injEq] at hsame
        rw [← hsame, hkey, hreceipt] at hsucceeded
        cases hsucceeded
      exact ⟨record, (write_of_ne hplace).trans hrecord, hkey, hdigest⟩
    · exact ⟨record, hrecord, hkey, hdigest⟩

theorem placed_of_run (h : (machine digests).Run start events s) : Placed s :=
  h.invariant (fun _ _ _ hplaced _ hstep => placed_step hplaced hstep)
    (fun _ _ _ hrecord => by cases hrecord)

/-- Until another payload is submitted for the target, the failure stands. -/
theorem failedCommand_of_run (hplaced : Placed s)
    (h : FailedCommand digests s kind target payload key)
    (hrun : (machine digests).Run s events t)
    (hevents : ¬Superseded digests kind target payload events) :
    FailedCommand digests t kind target payload key := by
  induction hrun with
  | nil => exact h
  | cons _ hstep _ ih =>
    apply ih (placed_step hplaced hstep)
    · refine failedCommand_step hplaced h ?_ hstep
      rintro other createdKey rfl
      by_contra hne
      exact hevents ⟨other, createdKey, List.mem_cons_self, hne⟩
    · rintro ⟨other, createdKey, hmem, hne⟩
      exact hevents ⟨other, createdKey, List.mem_cons_of_mem _ hmem, hne⟩

omit [DecidableEq Key] [DecidableEq Payload] in
theorem retried_of_failed (h : FailedCommand digests s kind target payload key) :
    retried digests s kind target payload createdKey = some .failureReplayed := by
  obtain ⟨⟨record, hrecord, rfl, hdigest⟩, hreceipt⟩ := h
  simp [retried, beginSubmission, hrecord, hdigest, beginReceipt, hreceipt]

omit [DecidableEq Key] [DecidableEq Payload] in
theorem retried_iff_open (hfresh : s.Fresh createdKey) :
    retried digests s kind target payload createdKey = some .attempt ↔
      Open digests s kind target payload := by
  rw [retried, beginSubmission, Open]
  cases s.stored kind target with
  | none => simp [beginReceipt_eq_attempt, hfresh.2]
  | some record =>
    by_cases hdigest : record.requestDigest = digests.client payload
    · simp [hdigest, beginReceipt_eq_attempt]
    · cases hstate : record.state <;> simp [hdigest, hstate, beginReceipt_eq_attempt, hfresh.2]

/-- A failed command that is submitted again is executed again exactly if another payload has been
submitted for the target since, and what is stored by then lets it in. -/
theorem retried_attempt_iff {before : List (Event Key Target Payload Digest Request)}
    (hbefore : (machine digests).Run start before s)
    (hfailed : FailedCommand digests s kind target payload key)
    (hrun : (machine digests).Run s events t) (hfresh : t.Fresh createdKey) :
    retried digests t kind target payload createdKey = some .attempt ↔
      Superseded digests kind target payload events ∧ Open digests t kind target payload := by
  rw [retried_iff_open hfresh]
  refine (and_iff_right_of_imp fun hopen => ?_).symm
  by_contra hevents
  have hstands := failedCommand_of_run (placed_of_run hbefore) hfailed hrun hevents
  have hreplayed : retried digests t kind target payload createdKey = some .failureReplayed :=
    retried_of_failed hstands
  rw [(retried_iff_open hfresh).mpr hopen] at hreplayed
  cases hreplayed

end Machine

section Example

/-- A payload is its own digest. -/
def plain : Digests ℕ ℕ ℕ ℕ ℕ := ⟨id, fun _ _ payload _ => payload⟩

/-- A message to run 1 arrives and fails, and the client hears of it. -/
def failing (payload key : ℕ) : List (Event ℕ ℕ ℕ ℕ ℕ) :=
  [.submit .steerRun 1 payload key, .arrive ⟨.steerRun, 1, payload, key⟩, .settle key .failed,
    .mark ⟨key, .steerRun, 1, payload, .pending⟩ .failed]

/-- One message has failed. -/
def failed : System ℕ ℕ ℕ ℕ ℕ :=
  ((machine plain).exec (fun _ _ => True) start (failing 10 1)).getD start

/-- Another message has failed after it. -/
def failedTwice : System ℕ ℕ ℕ ℕ ℕ :=
  ((machine plain).exec (fun _ _ => True) failed (failing 20 2)).getD start

theorem run_failed : (machine plain).Run start (failing 10 1) failed := Machine.path_of_exec rfl

theorem run_failedTwice : (machine plain).Run failed (failing 20 2) failedTwice :=
  Machine.path_of_exec rfl

theorem failedCommand_failed : FailedCommand plain failed .steerRun 1 10 1 :=
  ⟨⟨⟨1, .steerRun, 1, 10, .failed⟩, by decide, rfl, rfl⟩, by decide⟩

theorem retried_attempt_iff_other : retried plain failedTwice .steerRun 1 10 3 = some .attempt ↔
    Superseded plain .steerRun 1 10 (failing 20 2) ∧ Open plain failedTwice .steerRun 1 10 :=
  retried_attempt_iff run_failed failedCommand_failed run_failedTwice (by decide)

/-- Sent again at once, the message is answered with the stored failure. -/
theorem failure_replayed : (machine plain).Run start (failing 10 1) failed ∧
    FailedCommand plain failed .steerRun 1 10 1 ∧ failed.Fresh 2 ∧
    retried plain failed .steerRun 1 10 2 = some .failureReplayed :=
  ⟨run_failed, failedCommand_failed, by decide, by decide⟩

end Example

end PiDeck.Agents.Submissions
