import Mathlib
import PiDeck.Collections.IndexMap
import PiDeck.Server.Principal
import PiDeck.Tasks.Model
import PiDeck.Transition.Calls

/-! Paired devices: their rows and the pairing codes in the database, and challenges, sessions and
failures in memory under one lock. Hashing, encodings and signatures are parameters. -/
namespace PiDeck.Devices
open PiDeck.Collections PiDeck.Server PiDeck.Transition
open PiDeck.Mux (trim takeChars)
open PiDeck.Tasks (Value)

abbrev Bytes := List UInt8

/-- Instants are counted in nanoseconds. -/
def seconds (n : ℕ) : ℕ := n * 1000000000

def pairingTtl : ℕ := seconds (5 * 60)
def challengeTtl : ℕ := seconds 60
def sessionTtl : ℕ := seconds (15 * 60)
def failureWindow : ℕ := seconds 60
def failureLimit : ℕ := 8
def maxChallenges : ℕ := 1024
def maxSessions : ℕ := 4096
def maxFailureKeys : ℕ := 4096

structure PairedDevice where
  id : String
  name : String
  algorithm : String
  scopes : List DeviceScope
  createdAt : String
  lastUsedAt : Option String
  revokedAt : Option String
  deriving DecidableEq

structure PairDevice where
  code : String
  deviceId : Option String
  name : String
  publicKey : Value
  algorithm : String
  scopes : Option (List DeviceScope)

structure AuthenticateDevice where
  deviceId : String
  nonce : String
  signature : String

structure ExpiringCode where
  code : String
  expiresAt : String
  deriving DecidableEq

structure Challenge where
  nonce : String
  expiresAt : String
  deriving DecidableEq

structure DeviceSessionResult where
  token : String
  expiresAt : String
  device : PairedDevice
  deriving DecidableEq

structure DeviceSession where
  deviceId : String
  scopes : List DeviceScope
  deriving DecidableEq

/-- Why the database refused a statement. A refused statement has changed nothing. -/
inductive DatabaseError
  | constraint (column : String)
  | failed (text : String)
  deriving DecidableEq

inductive DeviceAuthError
  | invalid (message : String)
  | unauthorized (message : String)
  | rateLimited
  | randomness
  | storage (error : DatabaseError)
  deriving DecidableEq

structure PendingChallenge where
  deviceId : String
  expiresAt : ℕ
  deriving DecidableEq

structure Session where
  deviceId : String
  scopes : List DeviceScope
  expiresAt : ℕ
  deriving DecidableEq

structure Ephemeral where
  challenges : IndexMap String PendingChallenge
  challengeOrder : List String
  sessions : IndexMap String Session
  sessionOrder : List String
  failures : IndexMap String (List ℕ)
  failureOrder : List String
  deriving DecidableEq

/-- A row of `devices`; its scopes are stored as they are. -/
structure DeviceRow where
  publicKey : String
  device : PairedDevice
  deriving DecidableEq

structure PairingCode where
  codeHash : String
  expiresAt : String
  usedAt : Option String
  deriving DecidableEq

structure AuditEvent where
  deviceId : Option String
  action : String
  deriving DecidableEq

/-- The tables, by the primary keys of their rows. -/
structure Database where
  devices : IndexMap String DeviceRow
  pairingCodes : IndexMap String PairingCode
  auditEvents : List AuditEvent
  deriving DecidableEq

structure DeviceAuth where
  database : Database
  ephemeral : Ephemeral
  deriving DecidableEq

/-- What a step of a call meets: the two clocks, fresh random bytes if there are any, a fresh
identifier, and whether the database answers. -/
structure Surroundings where
  now : String
  timestampAfter : ℕ → String
  instant : ℕ
  random : ℕ → Option Bytes
  uuid : String
  database : Except String Unit

/-- What the service takes from other packages. -/
structure Library where
  sha256Hex : String → String
  toJson : Value → String
  fromJson : String → Option Value
  encodeBase64 : Bytes → String
  decodeBase64 : String → Option Bytes
  verify : Bytes → String → Bytes → Bool

abbrev DeviceCall (α : Type) := Call DeviceAuth Surroundings DeviceAuthError α

/-! ### In memory -/

/-- The loop of an eviction: the oldest keys go until the map is within its limit. -/
def evict {ν : Type} (limit : ℕ) (map : IndexMap String ν) :
    List String → IndexMap String ν × List String
  | [] => (map, [])
  | oldest :: order =>
    if limit < map.length then evict limit (map.shiftRemove oldest) order
    else (map, oldest :: order)

namespace Ephemeral
variable (ephemeral : Ephemeral)

def evictChallenges : Ephemeral :=
  let (challenges, order) := evict maxChallenges ephemeral.challenges ephemeral.challengeOrder
  { ephemeral with challenges := challenges, challengeOrder := order }

def evictSessions : Ephemeral :=
  let (sessions, order) := evict maxSessions ephemeral.sessions ephemeral.sessionOrder
  { ephemeral with sessions := sessions, sessionOrder := order }

def evictFailures : Ephemeral :=
  let (failures, order) := evict maxFailureKeys ephemeral.failures ephemeral.failureOrder
  { ephemeral with failures := failures, failureOrder := order }

/-- The failures of one key that are still in the window; the oldest come first. -/
def recentFailures (now : ℕ) (failures : List ℕ) : List ℕ :=
  failures.dropWhile fun at' => decide (failureWindow ≤ now - at')

def cleanup (now : ℕ) : Ephemeral :=
  { ephemeral with
    challenges := ephemeral.challenges.retain fun _ challenge => decide (now < challenge.expiresAt)
    sessions := ephemeral.sessions.retain fun _ session => decide (now < session.expiresAt)
    failures := (ephemeral.failures.mapValues (recentFailures now)).retain
      fun _ failures => decide (failures ≠ []) }

def insertChallenge (nonce : String) (challenge : PendingChallenge) : Ephemeral :=
  evictChallenges { ephemeral with
    challenges := ephemeral.challenges.insert nonce challenge
    challengeOrder := ephemeral.challengeOrder ++ [nonce] }

def insertSession (token : String) (session : Session) : Ephemeral :=
  evictSessions { ephemeral with
    sessions := ephemeral.sessions.insert token session
    sessionOrder := ephemeral.sessionOrder ++ [token] }

def limited (key : String) : Bool :=
  (ephemeral.failures.get? key).any fun items => decide (failureLimit ≤ items.length)

def addFailure (key : String) (now : ℕ) : Ephemeral :=
  evictFailures { ephemeral with
    failures := ephemeral.failures.insert key ((ephemeral.failures.get? key).getD [] ++ [now])
    failureOrder := ephemeral.failureOrder ++ [key] }

end Ephemeral

/-! ### In the database -/

namespace Database
variable (db : Database)

/-- The open code with the hash that expires last. -/
def openCode (codeHash now : String) : Option String :=
  ((db.pairingCodes.entries.filter fun entry =>
      decide (entry.2.codeHash = codeHash ∧ entry.2.usedAt = none ∧ now < entry.2.expiresAt)).argmax
    fun entry => entry.2.expiresAt).map Prod.fst

/-- Mark a code as used if it is open, and count the rows changed. -/
def consumeCode (id now : String) : ℕ × Database :=
  match db.pairingCodes.get? id with
  | none => (0, db)
  | some code =>
    if code.usedAt = none ∧ now < code.expiresAt then
      (1, { db with pairingCodes := db.pairingCodes.insert id { code with usedAt := some now } })
    else (0, db)

def insertCode (id : String) (code : PairingCode) : Except DatabaseError Unit × Database :=
  if db.pairingCodes.contains id then (.error (.constraint "pairing_codes.id"), db)
  else (.ok (), { db with pairingCodes := db.pairingCodes.insert id code })

def insertDevice (row : DeviceRow) : Except DatabaseError Unit × Database :=
  if db.devices.contains row.device.id then (.error (.constraint "devices.id"), db)
  else (.ok (), { db with devices := db.devices.insert row.device.id row })

def setRevoked (id now : String) : ℕ × Database :=
  (if db.devices.contains id then 1 else 0,
    { db with
      devices := db.devices.modify id fun row =>
        { row with device := { row.device with
          revokedAt := some (row.device.revokedAt.getD now) } } })

def setLastUsed (id now : String) : Database :=
  { db with
    devices := db.devices.modify id fun row =>
      { row with device := { row.device with lastUsedAt := some now } } }

def insertAudit (action : String) (deviceId : Option String) : Database :=
  { db with auditEvents := db.auditEvents ++ [⟨deviceId, action⟩] }

end Database

/-! ### Steps -/

/-- A region under the lock. -/
def locked {α : Type} (f : Surroundings → Ephemeral → α × Ephemeral) : DeviceCall α :=
  .atomic fun e s => (.ok (f e s.ephemeral).1, { s with ephemeral := (f e s.ephemeral).2 })

/-- A region under the lock that drops first what has expired. -/
def cleaned {α : Type} (f : Surroundings → Ephemeral → α × Ephemeral) : DeviceCall α :=
  locked fun e ephemeral => f e (ephemeral.cleanup e.instant)

/-- A statement. -/
def withConnection {α : Type}
    (f : Surroundings → Database → Except DatabaseError α × Database) : DeviceCall α :=
  .atomic fun e s =>
    match e.database with
    | .error text => (.error (.storage (.failed text)), s)
    | .ok () =>
      match f e s.database with
      | (.ok a, db) => (.ok a, { s with database := db })
      | (.error error, db) => (.error (.storage error), { s with database := db })

def nowIso : DeviceCall String := .observe Surroundings.now

def timestampAfter (ttl : ℕ) : DeviceCall String := .observe fun e => e.timestampAfter ttl

def randomBytes (n : ℕ) : DeviceCall Bytes :=
  .atomic fun e s =>
    match e.random n with
    | none => (.error .randomness, s)
    | some bytes => (.ok bytes, s)

end PiDeck.Devices
