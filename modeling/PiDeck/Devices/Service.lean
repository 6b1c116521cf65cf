import Mathlib
import PiDeck.Devices.Model

/-! The calls of the device service. A statement and a region under the lock are steps of their own,
so any other call can come between two of them. -/
namespace PiDeck.Devices
open PiDeck.Collections PiDeck.Server PiDeck.Transition
open PiDeck.Mux (trim takeChars)
open PiDeck.Tasks (Value)

def defaultAlgorithm : String := "Ed25519"

def normalizedScopes (scopes : List DeviceScope) : List DeviceScope :=
  let result := scopes.foldl
    (fun result scope => if scope ∈ result then result else result ++ [scope]) []
  if result = [] then [.control] else result

def validDeviceId (id : String) : Bool :=
  decide (8 ≤ id.utf8ByteSize ∧ id.utf8ByteSize ≤ 96) &&
    id.toList.all fun c => c.isAlphanum || decide (c = '_') || decide (c = '-')

def isObject : Value → Bool
  | .object _ => true
  | _ => false

def field (value : Value) (key : String) : Option String := (value.get key).bind Value.asStr

def validPublicKey (value : Value) : Bool :=
  isObject value && (field value "kty").isSome && (field value "crv").isSome

def validatePublicKey (value : Value) : DeviceCall Unit :=
  if validPublicKey value then pure () else .fail (.invalid "invalid device public key")

def hexDigit (n : ℕ) : Char := if n < 10 then Char.ofNat (48 + n) else Char.ofNat (55 + n)

def hexUpper (bytes : Bytes) : String :=
  String.ofList (bytes.flatMap fun byte => [hexDigit (byte.toNat / 16), hexDigit (byte.toNat % 16)])

def isHexDigit (c : Char) : Bool :=
  c.isDigit || decide ('a' ≤ c ∧ c ≤ 'f') || decide ('A' ≤ c ∧ c ≤ 'F')

@[irreducible] def validCode (code : String) : Bool :=
  decide (code.utf8ByteSize = 10) && code.toList.all isHexDigit

def truncateChars (value : String) (max : ℕ) (fallback : String) : String :=
  if value = "" then fallback else takeChars max value

def toAsciiUppercase (value : String) : String := String.ofList (value.toList.map Char.toUpper)

variable (lib : Library)

def verifySignature (publicKey nonce signature : String) : Bool :=
  match lib.fromJson publicKey with
  | none => false
  | some key =>
    if isObject key = false ∨ field key "kty" ≠ some "OKP" ∨ field key "crv" ≠ some "Ed25519" then
      false
    else
      match (field key "x").bind lib.decodeBase64, lib.decodeBase64 signature with
      | some bytes, some signature =>
        decide (bytes.length = 32) && lib.verify bytes nonce signature
      | _, _ => false

/-! ### What the calls share -/

def assertNotRateLimited (key : String) : DeviceCall Unit := do
  let limited ← cleaned fun _ ephemeral => (ephemeral.limited key, ephemeral)
  if limited then .fail .rateLimited else pure ()

def recordFailure (key : String) : DeviceCall Unit :=
  cleaned fun e ephemeral => ((), ephemeral.addFailure key e.instant)

/-- Record a failure and end with an error. -/
def failed {α : Type} (key : String) (error : DeviceAuthError) : DeviceCall α := do
  recordFailure key
  .fail error

def deviceRow (id : String) : DeviceCall (Option DeviceRow) :=
  withConnection fun _ db => (.ok (db.devices.get? id), db)

def touchDevice (id : String) : DeviceCall Unit :=
  withConnection fun e db => (.ok (), db.setLastUsed id e.now)

def audit (action : String) (deviceId : Option String) : DeviceCall Unit :=
  withConnection fun _ db => (.ok (), db.insertAudit action deviceId)

/-! ### The calls -/

def createPairingCode : DeviceCall ExpiringCode := do
  let code := hexUpper (← randomBytes 5)
  let expiresAt ← timestampAfter pairingTtl
  withConnection fun e db => db.insertCode e.uuid ⟨lib.sha256Hex code, expiresAt, none⟩
  return ⟨code, expiresAt⟩

/-- The code of a request as it is looked up. -/
def PairDevice.normalizedCode (input : PairDevice) : String := toAsciiUppercase (trim input.code)

def PairDevice.normalizedScopes (input : PairDevice) : List DeviceScope :=
  Devices.normalizedScopes (input.scopes.getD [.control])

def lookupPairing (codeHash now : String) : DeviceCall (Option String) :=
  withConnection fun _ db => (.ok (db.openCode codeHash now), db)

/-- The first part of `pair`: the checks up to the open code that the request names. -/
def findPairing (input : PairDevice) : DeviceCall (String × String) := do
  assertNotRateLimited "pair"
  if validCode input.normalizedCode = false then
    failed "pair" (.invalid "invalid pairing code")
  else
    validatePublicKey input.publicKey
    if 4 * 1024 < (lib.toJson input.publicKey).utf8ByteSize then
      .fail (.invalid "invalid device public key")
    else
      let now ← nowIso
      match ← lookupPairing (lib.sha256Hex input.normalizedCode) now with
      | none => failed "pair" (.invalid "pairing code expired")
      | some pairingId =>
        if .admin ∈ input.normalizedScopes then
          .fail (.invalid "admin pairing requires a local administrator")
        else return (now, pairingId)

def consumeCode (now pairingId : String) : DeviceCall ℕ :=
  withConnection fun _ db =>
    (.ok (db.consumeCode pairingId now).1, (db.consumeCode pairingId now).2)

/-- The second part: the code is spent. -/
def consumePairing (now pairingId : String) : DeviceCall Unit := do
  let consumed ← consumeCode now pairingId
  if consumed ≠ 1 then failed "pair" (.invalid "pairing code already used") else pure ()

def PairDevice.device (input : PairDevice) (fresh createdAt : String) : PairedDevice :=
  { id := (input.deviceId.filter validDeviceId).getD ("dev-" ++ fresh)
    name := truncateChars (trim input.name) 120 "YAADE device"
    algorithm := truncateChars (trim input.algorithm) 64 defaultAlgorithm
    scopes := input.normalizedScopes
    createdAt := createdAt
    lastUsedAt := none
    revokedAt := none }

def insertDevice (row : DeviceRow) : DeviceCall Unit :=
  withConnection fun _ db => db.insertDevice row

/-- The third part: the device is stored. -/
def storeDevice (input : PairDevice) : DeviceCall PairedDevice := do
  let fresh ← Call.observe Surroundings.uuid
  let createdAt ← nowIso
  insertDevice ⟨lib.toJson input.publicKey, input.device fresh createdAt⟩
  audit "device.paired" (some (input.device fresh createdAt).id)
  return input.device fresh createdAt

def pair (input : PairDevice) : DeviceCall PairedDevice := do
  let (now, pairingId) ← findPairing lib input
  consumePairing now pairingId
  storeDevice lib input

/-- The devices, the latest first. -/
def list : DeviceCall (List PairedDevice) :=
  withConnection fun _ db =>
    (.ok ((db.devices.values.map DeviceRow.device).mergeSort
      fun a b => decide (b.createdAt ≤ a.createdAt)), db)

def revoke (deviceId : String) : DeviceCall Bool := do
  let changed ← withConnection fun e db =>
    (.ok (db.setRevoked deviceId e.now).1, (db.setRevoked deviceId e.now).2)
  locked fun _ ephemeral =>
    ((), { ephemeral with
      sessions := ephemeral.sessions.retain fun _ session =>
        decide (session.deviceId ≠ deviceId) })
  if 0 < changed then
    audit "device.revoked" (some deviceId)
    return true
  else return false

def challenge (deviceId : String) : DeviceCall Challenge := do
  if validDeviceId deviceId = false then .fail (.unauthorized "invalid device id")
  else
    match ← deviceRow deviceId with
    | none => .fail (.unauthorized "device is revoked or unknown")
    | some row =>
      if row.device.revokedAt.isSome then .fail (.unauthorized "device is revoked or unknown")
      else
        let nonce := lib.encodeBase64 (← randomBytes 32)
        let now ← Call.observe Surroundings.instant
        cleaned fun _ ephemeral =>
          ((), ephemeral.insertChallenge nonce ⟨deviceId, now + challengeTtl⟩)
        return ⟨nonce, ← timestampAfter challengeTtl⟩

def authenticate (input : AuthenticateDevice) : DeviceCall DeviceSessionResult := do
  if validDeviceId input.deviceId = false ∨ 128 < input.nonce.utf8ByteSize ∨
      2048 < input.signature.utf8ByteSize then
    failed "invalid-device" (.unauthorized "invalid authentication payload")
  else
    assertNotRateLimited input.deviceId
    let challenge ← cleaned fun _ ephemeral =>
      (ephemeral.challenges.get? input.nonce,
        { ephemeral with challenges := ephemeral.challenges.shiftRemove input.nonce })
    let now ← Call.observe Surroundings.instant
    match challenge.filter fun challenge =>
        decide (challenge.deviceId = input.deviceId ∧ now < challenge.expiresAt) with
    | none => failed input.deviceId (.unauthorized "challenge expired")
    | some _ =>
      match ← deviceRow input.deviceId with
      | none => failed input.deviceId (.unauthorized "device is revoked or unknown")
      | some row =>
        if row.device.revokedAt.isSome ∨
            verifySignature lib row.publicKey input.nonce input.signature = false then
          failed input.deviceId (.unauthorized "invalid device signature")
        else
          let token := lib.encodeBase64 (← randomBytes 32)
          let started ← Call.observe Surroundings.instant
          locked fun _ ephemeral =>
            ((), Ephemeral.insertSession
              { ephemeral with failures := ephemeral.failures.shiftRemove input.deviceId } token
              ⟨input.deviceId, row.device.scopes, started + sessionTtl⟩)
          touchDevice input.deviceId
          return ⟨token, ← timestampAfter sessionTtl, row.device⟩

def findSession (token : String) : DeviceCall (Option Session) :=
  cleaned fun _ ephemeral => (ephemeral.sessions.get? token, ephemeral)

def session (token : String) : DeviceCall (Option DeviceSession) := do
  match ← findSession token with
  | none => return none
  | some session =>
    match ← deviceRow session.deviceId with
    | none => return none
    | some row =>
      if row.device.revokedAt.isSome then return none
      else
        touchDevice session.deviceId
        return some ⟨session.deviceId, session.scopes⟩

def takeSession (token : String) : DeviceCall (Option Session) :=
  cleaned fun _ ephemeral =>
    (ephemeral.sessions.get? token,
      { ephemeral with sessions := ephemeral.sessions.shiftRemove token })

def renewSession (token : String) (current : Session) : DeviceCall Unit :=
  locked fun e ephemeral =>
    ((), ephemeral.insertSession token
      ⟨current.deviceId, current.scopes, e.instant + sessionTtl⟩)

def rotate (token : String) : DeviceCall DeviceSessionResult := do
  match ← takeSession token with
  | none => .fail (.unauthorized "unknown session")
  | some current =>
    match ← deviceRow current.deviceId with
    | none => .fail (.unauthorized "device is revoked or unknown")
    | some row =>
      if row.device.revokedAt.isSome then .fail (.unauthorized "device is revoked or unknown")
      else
        let next := lib.encodeBase64 (← randomBytes 32)
        renewSession next current
        touchDevice current.deviceId
        audit "device.rotated" (some current.deviceId)
        return ⟨next, ← timestampAfter sessionTtl, row.device⟩

end PiDeck.Devices
