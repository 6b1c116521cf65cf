import Mathlib
import PiDeck.Devices.Service

/-! What a pairing or a rotation that ends with an error leaves behind. A pairing spends its code
before it stores the device, and a rotation drops the old session before anything else. -/
namespace PiDeck.Devices
open PiDeck.Collections PiDeck.Server PiDeck.Transition
open PiDeck.Tasks (Value)

variable {lib : Library} {env : ℕ → Surroundings} {n : ℕ} {s t : DeviceAuth}

section Steps
variable {α : Type}

@[simp] theorem exec_locked (f : Surroundings → Ephemeral → α × Ephemeral) :
    (locked f).exec env n s =
      (.ok (f (env n) s.ephemeral).1, n + 1, { s with ephemeral := (f (env n) s.ephemeral).2 }) := by
  rw [locked, Call.exec_atomic]

@[simp] theorem exec_cleaned (f : Surroundings → Ephemeral → α × Ephemeral) :
    (cleaned f).exec env n s =
      (.ok (f (env n) (s.ephemeral.cleanup (env n).instant)).1, n + 1,
        { s with ephemeral := (f (env n) (s.ephemeral.cleanup (env n).instant)).2 }) := by
  rw [cleaned, exec_locked]

theorem exec_withConnection_ok (f : Surroundings → Database → Except DatabaseError α × Database)
    (h : (env n).database = .ok ()) :
    (withConnection f).exec env n s =
      (((f (env n) s.database).1).mapError DeviceAuthError.storage, n + 1,
        { s with database := (f (env n) s.database).2 }) := by
  rw [withConnection, Call.exec_atomic]
  simp only [h]
  cases hf : f (env n) s.database with
  | mk result db => cases result <;> rfl

theorem exec_withConnection_error (f : Surroundings → Database → Except DatabaseError α × Database)
    {text : String} (h : (env n).database = .error text) :
    (withConnection f).exec env n s = (.error (.storage (.failed text)), n + 1, s) := by
  rw [withConnection, Call.exec_atomic]
  simp only [h]

theorem withConnection_respects (f : Surroundings → Database → Except DatabaseError α × Database) :
    (withConnection f).Respects fun s t => t.database = s.database := by
  refine Call.respects_atomic fun e s t hst => ?_
  cases e.database with
  | error text => exact ⟨rfl, hst⟩
  | ok =>
    simp only [hst]
    cases hf : f e s.database with
    | mk result db => cases result <;> exact ⟨rfl, rfl⟩

/-- The part of the state that a region under the lock cannot reach. -/
def SameDatabase (s t : DeviceAuth) : Prop := t.database = s.database

theorem locked_sameDatabase (f : Surroundings → Ephemeral → α × Ephemeral) :
    (locked f).Moves SameDatabase := Call.moves_atomic fun _ _ => rfl

theorem cleaned_sameDatabase (f : Surroundings → Ephemeral → α × Ephemeral) :
    (cleaned f).Moves SameDatabase := locked_sameDatabase _

/-- A statement that only reads. -/
theorem query_sameDatabase (f : Surroundings → Database → Except DatabaseError α) :
    (withConnection fun e db => (f e db, db)).Moves SameDatabase := by
  refine Call.moves_atomic fun e s => ?_
  cases e.database with
  | error text => rfl
  | ok =>
    simp only
    cases f e s.database <;> rfl

theorem observe_sameDatabase (f : Surroundings → α) :
    (Call.observe f : DeviceCall α).Moves SameDatabase := Call.moves_atomic fun _ _ => rfl

theorem failed_sameDatabase (key : String) (error : DeviceAuthError) :
    (failed key error : DeviceCall α).Moves SameDatabase :=
  Call.moves_bind (cleaned_sameDatabase _) fun _ => Call.moves_fail error

theorem assertNotRateLimited_sameDatabase (key : String) :
    (assertNotRateLimited key).Moves SameDatabase := by
  unfold assertNotRateLimited
  refine Call.moves_bind (cleaned_sameDatabase _) fun limited => ?_
  cases limited
  · exact Call.moves_pure ()
  · exact Call.moves_fail _

/-- A call all of whose steps leave the database alone leaves it alone. -/
theorem exec_sameDatabase {c : DeviceCall α} (h : c.Moves SameDatabase) :
    (c.exec env n s).2.2.database = s.database :=
  h.exec (R := SameDatabase) (fun _ => rfl) fun _ _ _ hst htu => Eq.trans htu hst

end Steps

/-! ### Pairing -/

variable {input : PairDevice}

theorem findPairing_sameDatabase : (findPairing lib input).Moves SameDatabase := by
  unfold findPairing
  refine Call.moves_bind (assertNotRateLimited_sameDatabase _) fun _ => ?_
  refine Call.moves_ite (failed_sameDatabase _ _) (Call.moves_bind ?_ fun _ => ?_)
  · exact Call.moves_ite (Call.moves_pure ()) (Call.moves_fail _)
  · refine Call.moves_ite (Call.moves_fail _) ?_
    refine Call.moves_bind (observe_sameDatabase _) fun now => ?_
    refine Call.moves_bind (query_sameDatabase _) fun pairingId => ?_
    cases pairingId with
    | none => exact failed_sameDatabase _ _
    | some pairingId => exact Call.moves_ite (Call.moves_fail _) (Call.moves_pure _)

theorem exec_assertNotRateLimited (key : String) :
    (assertNotRateLimited key).exec env n s =
      (if (s.ephemeral.cleanup (env n).instant).limited key = true then .error .rateLimited
        else .ok (), n + 1, { s with ephemeral := s.ephemeral.cleanup (env n).instant }) := by
  rw [assertNotRateLimited, Call.exec_bind, exec_cleaned]
  cases (s.ephemeral.cleanup (env n).instant).limited key <;> rfl

/-- A recorded failure is no result. -/
theorem exec_failed_ne {α : Type} {key : String} {error : DeviceAuthError} {a : α} {m : ℕ} :
    (failed key error).exec env n s ≠ (.ok a, m, t) := by
  intro h
  obtain ⟨_, _, _, -, hfail⟩ := Call.exec_bind_inv h
  cases hfail

/-- The checks of a request hold, and `id` is the open code that it names. -/
structure PairDevice.Names (lib : Library) (env : ℕ → Surroundings) (s : DeviceAuth)
    (input : PairDevice) (id : String) : Prop where
  admitted : (s.ephemeral.cleanup (env 0).instant).limited "pair" = false
  code : validCode input.normalizedCode = true
  key : validPublicKey input.publicKey = true
  size : (lib.toJson input.publicKey).utf8ByteSize ≤ 4 * 1024
  opened : s.database.openCode (lib.sha256Hex input.normalizedCode) (env 1).now = some id
  found : (env 2).database = .ok ()
  scopes : .admin ∉ input.normalizedScopes

/-- The state when the checks are through. -/
def DeviceAuth.checked (s : DeviceAuth) (env : ℕ → Surroundings) : DeviceAuth :=
  { s with ephemeral := s.ephemeral.cleanup (env 0).instant }

theorem exec_findPairing {id : String} (h : input.Names lib env s id) :
    (findPairing lib input).exec env 0 s = (.ok ((env 1).now, id), 3, s.checked env) := by
  have hlimit := @exec_assertNotRateLimited env 0 s "pair"
  rw [if_neg (by rw [h.admitted]; simp)] at hlimit
  have hkey : (validatePublicKey input.publicKey).exec env 1 (s.checked env) =
      (.ok (), 1, s.checked env) := by
    rw [validatePublicKey, if_pos h.key]
    rfl
  have hnow : nowIso.exec env 1 (s.checked env) = (.ok (env 1).now, 2, s.checked env) :=
    Call.exec_observe _
  have hlookup : (lookupPairing (lib.sha256Hex input.normalizedCode) (env 1).now).exec env 2
      (s.checked env) = (.ok (some id), 3, s.checked env) := by
    rw [lookupPairing, exec_withConnection_ok _ h.found]
    exact congrArg (fun found => (Except.ok found, 3, s.checked env)) h.opened
  unfold findPairing
  rw [Call.exec_bind_ok hlimit, if_neg (by rw [h.code]; simp)]
  refine (Call.exec_bind_ok hkey).trans ?_
  rw [if_neg (not_lt.mpr h.size), Call.exec_bind_ok hnow, Call.exec_bind_ok hlookup]
  exact congrArg (fun c => Call.exec env c 3 (s.checked env)) (if_neg h.scopes)

theorem findPairing_ok {now id : String} {m : ℕ}
    (h : (findPairing lib input).exec env 0 s = (.ok (now, id), m, t)) :
    input.Names lib env s id := by
  unfold findPairing at h
  obtain ⟨_, m₁, t₁, hlimit, h⟩ := Call.exec_bind_inv h
  rw [exec_assertNotRateLimited] at hlimit
  split at hlimit
  · cases hlimit
  rename_i hadmitted
  cases hlimit
  by_cases hcode : validCode input.normalizedCode = false
  · rw [if_pos hcode] at h
    exact absurd h exec_failed_ne
  rw [if_neg hcode] at h
  obtain ⟨_, m₂, t₂, hkey, h⟩ := Call.exec_bind_inv h
  obtain ⟨hvalid, rfl, rfl⟩ : validPublicKey input.publicKey = true ∧ 1 = m₂ ∧ s.checked env = t₂ := by
    rw [validatePublicKey] at hkey
    split at hkey
    · rename_i hvalid
      cases hkey
      exact ⟨hvalid, rfl, rfl⟩
    · cases hkey
  obtain ⟨hsize, h⟩ := Call.exec_ite_inv h
  obtain ⟨_, m₃, t₃, hnow, h⟩ := Call.exec_bind_inv h
  cases (Call.exec_observe _).symm.trans hnow
  obtain ⟨found, m₄, t₄, hlookup, h⟩ := Call.exec_bind_inv h
  cases hstore : (env 2).database with
  | error text =>
    cases (exec_withConnection_error _ hstore).symm.trans hlookup
  | ok =>
    cases (exec_withConnection_ok _ hstore).symm.trans hlookup
    cases hopened : (s.checked env).database.openCode (lib.sha256Hex input.normalizedCode)
        (env 1).now with
    | none =>
      rw [hopened] at h
      exact absurd h exec_failed_ne
    | some opened =>
      rw [hopened] at h
      obtain ⟨hscopes, h⟩ := Call.exec_ite_inv h
      cases h
      exact ⟨by simpa using hadmitted, by simpa using hcode, hvalid, not_lt.mp hsize, hopened, hstore,
        hscopes⟩

/-- The database answers to the statement that spends the code which the request names. -/
def PairDevice.Redeems (lib : Library) (env : ℕ → Surroundings) (s : DeviceAuth)
    (input : PairDevice) : Prop :=
  (∃ id, input.Names lib env s id) ∧ (env 3).database = .ok ()

theorem openCode_some {db : Database} {codeHash now id : String}
    (h : db.openCode codeHash now = some id) :
    ∃ code, db.pairingCodes.get? id = some code ∧ code.usedAt = none ∧ now < code.expiresAt := by
  obtain ⟨entry, hentry, rfl⟩ := Option.map_eq_some_iff.mp h
  obtain ⟨hmem, hopen⟩ := List.mem_filter.mp (List.argmax_mem hentry)
  obtain ⟨-, hunused, hlive⟩ := of_decide_eq_true hopen
  exact ⟨entry.2, IndexMap.get?_eq_some.mpr hmem, hunused, hlive⟩

/-- Spending an open code changes its row and no device. -/
theorem consumeCode_open {db : Database} {codeHash now id : String}
    (h : db.openCode codeHash now = some id) :
    (db.consumeCode id now).1 = 1 ∧ (db.consumeCode id now).2.devices = db.devices ∧
      (db.consumeCode id now).2.pairingCodes ≠ db.pairingCodes := by
  obtain ⟨code, hcode, hunused, hlive⟩ := openCode_some h
  have hrun : db.consumeCode id now =
      (1, { db with pairingCodes := db.pairingCodes.insert id { code with usedAt := some now } }) := by
    simp only [Database.consumeCode, hcode, hunused, hlive, and_self, if_true]
  rw [hrun]
  refine ⟨rfl, rfl, fun hsame => ?_⟩
  have hget := congrArg (fun codes => codes.get? id) hsame
  rw [IndexMap.get?_insert, if_pos rfl, hcode] at hget
  have hused := congrArg PairingCode.usedAt (Option.some.inj hget)
  rw [hunused] at hused
  cases hused

/-- Behind the checks the call goes on with the code that they found. -/
theorem exec_pair {id : String} (h : input.Names lib env s id) :
    (pair lib input).exec env 0 s =
      (consumePairing (env 1).now id >>= fun _ => storeDevice lib input).exec env 3
        (s.checked env) := Call.exec_bind_ok (exec_findPairing h)

/-- A pairing that does not spend a code leaves the database as it was. -/
theorem pair_sameDatabase (h : ¬input.Redeems lib env s) :
    ((pair lib input).exec env 0 s).2.2.database = s.database := by
  cases hfind : (findPairing lib input).exec env 0 s with
  | mk result rest =>
    have hsame : ((findPairing lib input).exec env 0 s).2.2.database = s.database :=
      exec_sameDatabase findPairing_sameDatabase
    cases result with
    | error error =>
      rw [hfind] at hsame
      rw [pair, Call.exec_bind_error hfind]
      exact hsame
    | ok found =>
      have hnames := findPairing_ok hfind
      rw [exec_pair hnames]
      cases hstore : (env 3).database with
      | ok => exact absurd ⟨⟨found.2, hnames⟩, hstore⟩ h
      | error text =>
        have hconsume : (consumePairing (env 1).now found.2).exec env 3 (s.checked env) =
            (.error (.storage (.failed text)), 4, s.checked env) :=
          Call.exec_bind_error (exec_withConnection_error _ hstore)
        rw [Call.exec_bind_error hconsume]
        rfl

def SameCodes (s t : DeviceAuth) : Prop := t.database.pairingCodes = s.database.pairingCodes

theorem storeDevice_sameCodes : (storeDevice lib input).Moves SameCodes := by
  have hstatement : ∀ {α : Type}
      (f : Surroundings → Database → Except DatabaseError α × Database),
      (∀ e db, (f e db).2.pairingCodes = db.pairingCodes) → (withConnection f).Moves SameCodes := by
    intro α f hf
    refine Call.moves_atomic fun e s => ?_
    have hsame := hf e s.database
    cases e.database with
    | error text => rfl
    | ok =>
      simp only
      cases hrun : f e s.database with
      | mk result db =>
        rw [hrun] at hsame
        cases result <;> exact hsame
  refine Call.moves_bind (Call.moves_atomic fun _ _ => rfl) fun fresh => ?_
  refine Call.moves_bind (Call.moves_atomic fun _ _ => rfl) fun createdAt => ?_
  refine Call.moves_bind (hstatement _ fun e db => ?_) fun _ => ?_
  · simp only [Database.insertDevice]
    split <;> rfl
  · exact Call.moves_bind (hstatement _ fun e db => rfl) fun _ => Call.moves_pure _

/-- A pairing that spends a code has spent it, whatever comes after. -/
theorem pair_spends (h : input.Redeems lib env s) :
    ((pair lib input).exec env 0 s).2.2.database.pairingCodes ≠ s.database.pairingCodes := by
  obtain ⟨⟨id, hnames⟩, hstore⟩ := h
  obtain ⟨hcount, -, hcodes⟩ := consumeCode_open hnames.opened
  have hconsume : (consumePairing (env 1).now id).exec env 3 (s.checked env) =
      (.ok (), 4, { s.checked env with
        database := (s.database.consumeCode id (env 1).now).2 }) := by
    have hrow : (consumeCode (env 1).now id).exec env 3 (s.checked env) = (.ok 1, 4,
        { s.checked env with database := (s.database.consumeCode id (env 1).now).2 }) := by
      rw [consumeCode, exec_withConnection_ok _ hstore]
      exact congrArg (fun count => (Except.ok count, 4, { s.checked env with
        database := (s.database.consumeCode id (env 1).now).2 })) hcount
    exact (Call.exec_bind_ok hrow).trans rfl
  rw [exec_pair hnames, Call.exec_bind_ok hconsume]
  have hsame : SameCodes
      { s.checked env with database := (s.database.consumeCode id (env 1).now).2 }
      ((storeDevice lib input).exec env 4
        { s.checked env with database := (s.database.consumeCode id (env 1).now).2 }).2.2 :=
    storeDevice_sameCodes.exec (fun _ => rfl) fun _ _ _ hst htu => Eq.trans htu hst
  rw [hsame]
  exact hcodes

/-- What a request can pair depends on the database, once the limiter lets it through. -/
theorem pair_of_sameDatabase {device : PairedDevice} (hsame : SameDatabase s t)
    (hadmitted : (t.ephemeral.cleanup (env 0).instant).limited "pair" = false)
    (h : ((pair lib input).exec env 0 s).1 = .ok device) :
    ((pair lib input).exec env 0 t).1 = .ok device := by
  obtain ⟨found, m, u, hfind, -⟩ :=
    Call.exec_bind_inv (show (pair lib input).exec env 0 s = (.ok device, _, _) from
      Prod.ext h rfl)
  have hnames := findPairing_ok hfind
  have hnames' : input.Names lib env t found.2 :=
    ⟨hadmitted, hnames.code, hnames.key, hnames.size, hsame ▸ hnames.opened, hnames.found,
      hnames.scopes⟩
  have hrest : (consumePairing (env 1).now found.2 >>= fun _ => storeDevice lib input).Respects
      SameDatabase := by
    refine Call.respects_bind (Call.respects_bind (withConnection_respects _) fun consumed => ?_)
      fun _ => ?_
    · refine Call.respects_ite (Call.respects_bind ?_ fun _ => Call.respects_fail _)
        (Call.respects_pure _)
      exact Call.respects_atomic fun _ _ _ hst => ⟨rfl, hst⟩
    · refine Call.respects_bind (Call.respects_atomic fun _ _ _ hst => ⟨rfl, hst⟩) fun fresh => ?_
      refine Call.respects_bind (Call.respects_atomic fun _ _ _ hst => ⟨rfl, hst⟩) fun at' => ?_
      refine Call.respects_bind (withConnection_respects _) fun _ => ?_
      exact Call.respects_bind (withConnection_respects _) fun _ => Call.respects_pure _
  rw [exec_pair hnames] at h
  rw [exec_pair hnames', ← h]
  exact (hrest.exec (s := s.checked env) (t := t.checked env) hsame).symm

/-! ### Rotation -/

/-- The token belongs to a live session of a device that is there and not revoked. -/
def DeviceAuth.Works (s : DeviceAuth) (token : String) (instant : ℕ) : Prop :=
  ∃ session row, s.ephemeral.sessions.get? token = some session ∧ instant < session.expiresAt ∧
    s.database.devices.get? session.deviceId = some row ∧ row.device.revokedAt = none

variable {token : String}

theorem Works.earlier {instant later : ℕ} (hle : instant ≤ later) (h : s.Works token later) :
    s.Works token instant := by
  obtain ⟨session, row, hsession, hlive, hrow, hvalid⟩ := h
  exact ⟨session, row, hsession, lt_of_le_of_lt hle hlive, hrow, hvalid⟩

theorem get?_cleanup (ephemeral : Ephemeral) (now : ℕ) :
    (ephemeral.cleanup now).sessions.get? token =
      (ephemeral.sessions.get? token).filter fun session => decide (now < session.expiresAt) :=
  IndexMap.get?_retain

theorem get?_cleanup_eq_some {ephemeral : Ephemeral} {now : ℕ} {found : Session} :
    (ephemeral.cleanup now).sessions.get? token = some found ↔
      ephemeral.sessions.get? token = some found ∧ now < found.expiresAt := by
  rw [get?_cleanup, Option.filter_eq_some_iff, decide_eq_true_eq]

theorem exec_deviceRow (id : String) (h : (env n).database = .ok ()) :
    (deviceRow id).exec env n s = (.ok (s.database.devices.get? id), n + 1, s) :=
  exec_withConnection_ok _ h

/-- `session` accepts only tokens that work. -/
theorem works_of_session {accepted : DeviceSession}
    (h : ((session token).exec env 0 s).1 = .ok (some accepted)) :
    s.Works token (env 0).instant := by
  obtain ⟨found, m, t, hfound, h⟩ := Call.exec_bind_inv
    (show (session token).exec env 0 s = (.ok (some accepted), _, _) from Prod.ext h rfl)
  cases (exec_cleaned _).symm.trans hfound
  cases hget : (s.ephemeral.cleanup (env 0).instant).sessions.get? token with
  | none =>
    rw [hget] at h
    cases h
  | some current =>
    obtain ⟨hcurrent, hlive⟩ := get?_cleanup_eq_some.mp hget
    rw [hget] at h
    obtain ⟨row, m, t, hrow, h⟩ := Call.exec_bind_inv h
    cases hstore : (env 1).database with
    | error text => cases (exec_withConnection_error _ hstore).symm.trans hrow
    | ok =>
      cases (exec_deviceRow _ hstore).symm.trans hrow
      cases hdevice : s.database.devices.get? current.deviceId with
      | none =>
        rw [hdevice] at h
        cases h
      | some row =>
        rw [hdevice] at h
        cases hrevoked : row.device.revokedAt with
        | none => exact ⟨current, row, hcurrent, hlive, hdevice, hrevoked⟩
        | some at' =>
          simp only [hrevoked, Option.isSome_some, if_true] at h
          cases h

/-- A token that works is accepted while the database answers. -/
theorem session_of_works (hstore : ∀ n, (env n).database = .ok ())
    (h : s.Works token (env 0).instant) :
    ∃ accepted, ((session token).exec env 0 s).1 = .ok (some accepted) := by
  obtain ⟨current, row, hcurrent, hlive, hrow, hvalid⟩ := h
  have hfind : (findSession token).exec env 0 s = (.ok (some current), 1,
      { s with ephemeral := s.ephemeral.cleanup (env 0).instant }) := by
    rw [findSession, exec_cleaned, get?_cleanup_eq_some.mpr ⟨hcurrent, hlive⟩]
  have hdevice := @exec_deviceRow env 1
    { s with ephemeral := s.ephemeral.cleanup (env 0).instant } current.deviceId (hstore 1)
  rw [show ({ s with ephemeral := s.ephemeral.cleanup (env 0).instant } : DeviceAuth).database =
    s.database from rfl, hrow] at hdevice
  refine ⟨⟨current.deviceId, current.scopes⟩, ?_⟩
  rw [session, Call.exec_bind_ok hfind]
  simp only
  rw [Call.exec_bind_ok hdevice]
  simp only [hvalid, Option.isSome_none, Bool.false_eq_true, if_false]
  rw [touchDevice, Call.exec_bind_ok (exec_withConnection_ok _ (hstore 2))]
  rfl

/-- A rotation of a token that does not work leaves the database as it was. -/
theorem rotate_sameDatabase (h : ¬s.Works token (env 0).instant) :
    ((rotate lib token).exec env 0 s).2.2.database = s.database := by
  rw [rotate, Call.exec_bind_ok (c := takeSession token) (exec_cleaned _)]
  cases hget : (s.ephemeral.cleanup (env 0).instant).sessions.get? token with
  | none => rfl
  | some current =>
    obtain ⟨hcurrent, hlive⟩ := get?_cleanup_eq_some.mp hget
    simp only
    cases hstore : (env 1).database with
    | error text => rw [deviceRow, Call.exec_bind_error (exec_withConnection_error _ hstore)]
    | ok =>
      rw [Call.exec_bind_ok (exec_deviceRow _ hstore)]
      cases hdevice : s.database.devices.get? current.deviceId with
      | none => rfl
      | some row =>
        cases hrevoked : row.device.revokedAt with
        | none => exact absurd ⟨current, row, hcurrent, hlive, hdevice, hrevoked⟩ h
        | some at' =>
          simp only [hrevoked, Option.isSome_some, if_true]
          rfl

theorem get?_evict {ν : Type} {limit : ℕ} {map : IndexMap String ν} {order : List String}
    (h : map.get? token = none) : (evict limit map order).1.get? token = none := by
  induction order generalizing map with
  | nil => exact h
  | cons oldest order ih =>
    rw [evict]
    split
    · refine ih ?_
      rw [IndexMap.get?_shiftRemove]
      split
      · rfl
      · exact h
    · exact h

/-- No session has the token. -/
def Unknown (token : String) (s : DeviceAuth) : Prop := s.ephemeral.sessions.get? token = none

def StaysUnknown (token : String) (s t : DeviceAuth) : Prop := Unknown token s → Unknown token t

theorem renewSession_staysUnknown {next : String} (hne : token ≠ next) (current : Session) :
    (renewSession next current).Moves (StaysUnknown token) := by
  refine Call.moves_atomic fun e s h => ?_
  refine get?_evict ?_
  rw [IndexMap.get?_insert, if_neg hne]
  exact h

theorem withConnection_staysUnknown {α : Type}
    (f : Surroundings → Database → Except DatabaseError α × Database) :
    (withConnection f).Moves (StaysUnknown token) := by
  refine Call.moves_atomic fun e s h => ?_
  cases e.database with
  | error text => exact h
  | ok =>
    simp only
    cases hf : f e s.database with
    | mk result db => cases result <;> exact h

/-- Fresh random bytes do not spell the token of the call. -/
def Fresh (lib : Library) (token : String) (e : Surroundings) : Prop :=
  ∀ bytes, e.random 32 = some bytes → lib.encodeBase64 bytes ≠ token

theorem exec_randomBytes {len m : ℕ} {bytes : Bytes}
    (h : (randomBytes len).exec env n s = (.ok bytes, m, t)) :
    (env n).random len = some bytes ∧ m = n + 1 ∧ t = s := by
  rw [randomBytes, Call.exec_atomic] at h
  cases hrandom : (env n).random len with
  | none =>
    rw [hrandom] at h
    cases h
  | some fresh =>
    rw [hrandom] at h
    cases h
    exact ⟨rfl, rfl, rfl⟩

/-- A step that only reads leaves the state as it was, however it ends. -/
theorem exec_deviceRow_state {id : String} {result : Except DeviceAuthError (Option DeviceRow)}
    {m : ℕ} (h : (deviceRow id).exec env n s = (result, m, t)) : m = n + 1 ∧ t = s := by
  cases hstore : (env n).database with
  | error text =>
    cases (exec_withConnection_error _ hstore).symm.trans h
    exact ⟨rfl, rfl⟩
  | ok =>
    cases (exec_deviceRow id hstore).symm.trans h
    exact ⟨rfl, rfl⟩

theorem exec_randomBytes_error {len m : ℕ} {error : DeviceAuthError}
    (h : (randomBytes len).exec env n s = (.error error, m, t)) : t = s := by
  rw [randomBytes, Call.exec_atomic] at h
  cases hrandom : (env n).random len with
  | none =>
    rw [hrandom] at h
    cases h
    rfl
  | some fresh =>
    rw [hrandom] at h
    cases h

/-- However a rotation ends, the token that it was called with is unknown. -/
theorem rotate_removes (hfresh : Fresh lib token (env 2)) :
    Unknown token ((rotate lib token).exec env 0 s).2.2 := by
  have hremoved : Unknown token ((takeSession token).exec env 0 s).2.2 := by
    rw [takeSession, exec_cleaned]
    exact IndexMap.get?_shiftRemove.trans (if_pos rfl)
  unfold rotate
  refine Call.exec_bind_state (P := Unknown token) ?_ ?_
  · intro current m t htake
    have hgone : Unknown token t := by
      rw [htake] at hremoved
      exact hremoved
    obtain rfl : 1 = m := congrArg (fun r => r.2.1) ((exec_cleaned _).symm.trans htake)
    cases current with
    | none => exact hgone
    | some current =>
      refine Call.exec_bind_state (P := Unknown token) ?_ ?_
      · intro row m u hrow
        obtain ⟨rfl, rfl⟩ := exec_deviceRow_state hrow
        cases row with
        | none => exact hgone
        | some row =>
          simp only
          split
          · exact hgone
          · refine Call.exec_bind_state (P := Unknown token) ?_ ?_
            · intro bytes m u hrandom
              obtain ⟨hbytes, rfl, rfl⟩ := exec_randomBytes hrandom
              have hne : token ≠ lib.encodeBase64 bytes := (hfresh bytes hbytes).symm
              refine Call.Moves.exec (R := StaysUnknown token) (fun _ h => h)
                (fun _ _ _ hst htu h => htu (hst h)) ?_ hgone
              refine Call.moves_bind (renewSession_staysUnknown hne current) fun _ => ?_
              refine Call.moves_bind (withConnection_staysUnknown _) fun _ => ?_
              refine Call.moves_bind (withConnection_staysUnknown _) fun _ => ?_
              exact Call.moves_bind (Call.moves_atomic fun _ _ h => h) fun _ => Call.moves_pure _
            · intro error m u hrandom
              obtain rfl := exec_randomBytes_error hrandom
              exact hgone
      · intro error m u hrow
        obtain ⟨-, rfl⟩ := exec_deviceRow_state hrow
        exact hgone
  · intro error m t htake
    rw [htake] at hremoved
    exact hremoved

/-! ### Failures -/

inductive Request
  | pair (input : PairDevice)
  | rotate (token : String)

namespace Request

def outcome {α : Type} (r : Except DeviceAuthError α × ℕ × DeviceAuth) :
    Option DeviceAuthError × DeviceAuth :=
  match r with
  | (.ok _, _, s) => (none, s)
  | (.error error, _, s) => (some error, s)

/-- The error that a request ends with, if any, and the state that it leaves. -/
def run (lib : Library) (env : ℕ → Surroundings) (s : DeviceAuth) :
    Request → Option DeviceAuthError × DeviceAuth
  | pair input => outcome ((Devices.pair lib input).exec env 0 s)
  | rotate token => outcome ((Devices.rotate lib token).exec env 0 s)

/-- The new token of a rotation is none that it replaces. -/
def Fresh (lib : Library) (env : ℕ → Surroundings) : Request → Prop
  | pair _ => True
  | rotate token => Devices.Fresh lib token (env 2)

/-- The state before the request lets it take what it cannot give back: the code that it names, or
the session that it replaces. -/
def Commits (lib : Library) (env : ℕ → Surroundings) (s : DeviceAuth) : Request → Prop
  | pair input => input.Redeems lib env s
  | rotate token => s.Works token (env 0).instant

/-- What a request must be able to do after the failed one if it could before: redeem a code, while
the limiter lets it through, and use the token that was to be replaced. -/
def Retains (lib : Library) (env : ℕ → Surroundings) (before after : DeviceAuth) : Request → Prop
  | pair _ => ∀ input env' device,
      (after.ephemeral.cleanup (env' 0).instant).limited "pair" = false →
      ((Devices.pair lib input).exec env' 0 before).1 = .ok device →
      ((Devices.pair lib input).exec env' 0 after).1 = .ok device
  | rotate token => ∀ env' accepted, (env 0).instant ≤ (env' 0).instant →
      ((session token).exec env' 0 before).1 = .ok (some accepted) →
      ((session token).exec env' 0 after).1 = .ok (some accepted)

/-- The request has changed nothing that it may not change. -/
structure Intact (lib : Library) (env : ℕ → Surroundings) (request : Request)
    (before after : DeviceAuth) : Prop where
  codes : after.database.pairingCodes = before.database.pairingCodes
  devices : after.database.devices = before.database.devices
  retains : request.Retains lib env before after

theorem outcome_state {α : Type} (r : Except DeviceAuthError α × ℕ × DeviceAuth) :
    (outcome r).2 = r.2.2 := by
  obtain ⟨result, m, s⟩ := r
  cases result <;> rfl

end Request

theorem pair_intact_iff : (Request.pair input).Intact lib env s
    ((pair lib input).exec env 0 s).2.2 ↔ ¬input.Redeems lib env s := by
  constructor
  · rintro ⟨hcodes, -, -⟩ h
    exact pair_spends h hcodes
  · intro h
    have hsame := pair_sameDatabase h
    refine ⟨congrArg Database.pairingCodes hsame, congrArg Database.devices hsame, ?_⟩
    intro input' env' device hadmitted hdevice
    exact pair_of_sameDatabase hsame hadmitted hdevice

/-- Surroundings in which nothing goes wrong. -/
def calm (instant : ℕ) (n : ℕ) : Surroundings :=
  { now := toString n
    timestampAfter := fun _ => ""
    instant := instant
    random := fun len => some (List.replicate len 0)
    uuid := toString n
    database := .ok () }

theorem rotate_intact_iff (hfresh : Fresh lib token (env 2)) :
    (Request.rotate token).Intact lib env s ((rotate lib token).exec env 0 s).2.2 ↔
      ¬s.Works token (env 0).instant := by
  constructor
  · rintro ⟨-, -, hretains⟩ hworks
    obtain ⟨accepted, hbefore⟩ :=
      @session_of_works (calm (env 0).instant) _ _ (fun _ => rfl) hworks
    have hafter := hretains (calm (env 0).instant) accepted le_rfl hbefore
    obtain ⟨session, row, hsession, -⟩ := works_of_session hafter
    have hgone : Unknown token ((rotate lib token).exec env 0 s).2.2 := rotate_removes hfresh
    rw [Unknown, hsession] at hgone
    cases hgone
  · intro h
    have hsame := @rotate_sameDatabase lib _ _ _ h
    refine ⟨congrArg Database.pairingCodes hsame, congrArg Database.devices hsame, ?_⟩
    intro env' accepted hlater hbefore
    exact absurd (Works.earlier hlater (works_of_session hbefore)) h

/-- A request has changed nothing exactly when it came to its end before the point where it takes
the code or the session. Whether it ends with an error after that point makes no difference. -/
theorem intact_iff (request : Request) (hfresh : request.Fresh lib env) :
    request.Intact lib env s (request.run lib env s).2 ↔ ¬request.Commits lib env s := by
  cases request with
  | pair input =>
    rw [Request.run, Request.outcome_state]
    exact pair_intact_iff
  | rotate token =>
    rw [Request.run, Request.outcome_state]
    exact rotate_intact_iff hfresh

/-! ### A pairing under an identifier that is taken -/

def publicKey : Value := .object [("kty", .string "OKP"), ("crv", .string "Ed25519")]

def library : Library :=
  { sha256Hex := fun _ => "84d89877f0d4041efb6bf91a16f0248f2fd573e6af05c19f96bedb9f882f7882"
    toJson := fun _ => "\x7b\"crv\":\"Ed25519\",\"kty\":\"OKP\"\x7d"
    fromJson := fun _ => none
    encodeBase64 := fun _ => "AAAAAAAAAAAAAAAAAAAAAAAAAAAAAAAAAAAAAAAAAAA"
    decodeBase64 := fun _ => none
    verify := fun _ _ _ => false }

/-- One paired device, one open code and one session. -/
def paired : DeviceAuth :=
  { database :=
      { devices := ⟨[("device_1234", ⟨"", ⟨"device_1234", "Browser", "Ed25519", [.control],
          "2026-01-01T00:00:00Z", none, none⟩⟩)], by decide⟩
        pairingCodes := ⟨[("code-1",
          ⟨"84d89877f0d4041efb6bf91a16f0248f2fd573e6af05c19f96bedb9f882f7882", "9", none⟩)],
          by decide⟩
        auditEvents := [] }
    ephemeral :=
      { challenges := .empty
        challengeOrder := []
        sessions := ⟨[("token-1", ⟨"device_1234", [.control], 1000⟩)], by decide⟩
        sessionOrder := ["token-1"]
        failures := .empty
        failureOrder := [] } }

def pairing (deviceId : String) : PairDevice :=
  { code := "0123456789"
    deviceId := some deviceId
    name := "Browser"
    publicKey := publicKey
    algorithm := "Ed25519"
    scopes := none }

/-- A database that answers to nothing from some step on. -/
def failingFrom (first n : ℕ) : Surroundings :=
  { calm 0 n with database := if n < first then .ok () else .error "disk I/O error" }

/-- A token that no session has is refused, and the session that is there keeps its own. -/
theorem intact_of_unknown_token :
    (Request.rotate "token-2").Intact library (calm 0) paired
      ((Request.rotate "token-2").run library (calm 0) paired).2 := by
  have hfresh : "AAAAAAAAAAAAAAAAAAAAAAAAAAAAAAAAAAAAAAAAAAA" ≠ "token-2" := by decide +kernel
  refine (intact_iff (.rotate "token-2") fun bytes _ => hfresh).mpr ?_
  rintro ⟨session, row, hsession, -⟩
  rw [show paired.ephemeral.sessions.get? "token-2" = none by decide +kernel] at hsession
  cases hsession

/-- The code is spent although the device was not stored: the corrected request would have been
paired before and is refused now. A rotation whose device cannot be read has dropped its session. -/
theorem failed_calls_leave_traces :
    (((Request.pair (pairing "device_1234")).run library (calm 0) paired).1 =
        some (.storage (.constraint "devices.id")) ∧
      ((pair library (pairing "device_5678")).exec (calm 0) 0 paired).1.toOption.isSome = true ∧
      ((pair library (pairing "device_5678")).exec (calm 0) 0
        ((Request.pair (pairing "device_1234")).run library (calm 0) paired).2).1 =
          .error (.invalid "pairing code expired")) ∧
    ((Request.rotate "token-1").run library (failingFrom 1) paired).1 =
        some (.storage (.failed "disk I/O error")) ∧
      ((session "token-1").exec (calm 0) 0 paired).1 = .ok (some ⟨"device_1234", [.control]⟩) ∧
      ((session "token-1").exec (calm 0) 0
        ((Request.rotate "token-1").run library (failingFrom 1) paired).2).1 = .ok none := by
  refine ⟨⟨?_, ?_, ?_⟩, ?_, ?_, ?_⟩ <;> decide +kernel

end PiDeck.Devices
