import VaporForge.Lib.Effect
import VaporForge.Local.Folder

/-!
# Play sessions

The session half of `cloud-local/src/store.rs`. A client that starts a game leaves a
*claim* next to the app's manifests; a client that starts it in spite of other claims
leaves an *override* that lists them. A claim has no stored id: it is known by the
SHA-256 of its file, so rewriting a claim gives it a new id and leaves its old one dead
in every override that lists it. `reconcile_session_overrides` weeds those out.

The two directories are listed in whatever order the file system returns. Calls are
`Effect`s: what a call wrote before it failed stays written.
-/

namespace VaporForge.Local

open VaporForge.CloudCore
open Lib

def maxSessionRecordBytes : Nat := 1024 * 1024
def maxSessionRecords : Nat := 4096

/-! ## Records -/

inductive SessionStatus where
  | active
  | suspended
  deriving DecidableEq, Repr

structure SessionClaim where
  appId : Nat
  clientId : Nat
  machineName : String
  osType : Option Int
  deviceType : Option Int
  status : SessionStatus
  observedHeads : List String
  updatedAt : Nat
  nonce : String
  deriving DecidableEq, Repr

structure SessionOverride where
  appId : Nat
  clientId : Nat
  supersededClaims : List String
  deriving DecidableEq, Repr

/-- A session of another client, as `launch_session` reports it. -/
structure SessionPeer where
  clientId : Nat
  machineName : String
  timeLastUpdated : Nat
  osType : Option Int
  deviceType : Option Int
  deriving DecidableEq, Repr

/-- `serde_json` on the two session records. What it writes reads back, and it writes
compactly: the text of an override that lists some of what it was read with is no longer
than the text it was read from. -/
structure SessionCodec where
  encodeClaim : SessionClaim → Bytes
  decodeClaim : Bytes → Option SessionClaim
  encodeOverride : SessionOverride → Bytes
  decodeOverride : Bytes → Option SessionOverride
  decode_encodeClaim : ∀ claim, decodeClaim (encodeClaim claim) = some claim
  decode_encodeOverride : ∀ record, decodeOverride (encodeOverride record) = some record
  encodeOverride_le : ∀ bytes record, decodeOverride bytes = some record →
    ∀ ids, ids.Sublist record.supersededClaims →
      (encodeOverride { record with supersededClaims := ids }).length ≤ bytes.length

/-! ## Checks -/

def validateSessionClaim (appId : Nat) (claim : SessionClaim) : Result Unit := do
  if claim.appId ≠ appId ∨ claim.nonce = "" ∨ claim.updatedAt = 0 then
    throw (permanent "invalid local cloud session claim")
  validateIdentity ⟨claim.clientId, claim.machineName⟩
  let heads ← normalizedHeadIds claim.observedHeads
  if heads ≠ claim.observedHeads then throw (permanent "invalid local cloud session heads")

def validateSessionOverride (appId : Nat) (record : SessionOverride) : Result Unit := do
  if record.appId ≠ appId ∨ record.clientId = 0 then
    throw (permanent "invalid local cloud session override")
  let ids ← normalizedHeadIds record.supersededClaims
  if ids ≠ record.supersededClaims then
    throw (permanent "invalid local cloud session override")

/-! ## File names -/

/-- `path.extension() == Some("json")`. -/
def hasJsonExtension : FileName → Bool
  | .utf8 name => ".json".toList.isSuffixOf name.toList && 5 < name.toList.length
  | .opaqueBytes bytes => [46, 106, 115, 111, 110].isSuffixOf bytes && 5 < bytes.length

/-- `path.file_stem()` of a name with that extension. -/
def fileStem (name : String) : String := String.ofList (name.toList.take (name.toList.length - 5))

/-- `session_record_client_id`, with the name it read the id from. -/
def sessionRecordClientId : FileName → Result (String × Nat)
  | .utf8 name =>
    match (parseU64 (fileStem name)).filter (· ≠ 0) with
    | some clientId => return (name, clientId)
    | none => throw (permanent "invalid local cloud session record name")
  | .opaqueBytes _ => throw (permanent "invalid local cloud session record name")

/-- The file name of a client's claim and of its override. -/
def sessionRecordName (clientId : Nat) : String := toString clientId ++ ".json"

/-- The checks of `session_claim_path` and `session_override_path`. -/
def FolderStore.sessionPath (store : FolderStore) (clientId : Nat) : Result String := do
  if clientId = 0 then throw (permanent "local cloud session ClientID is unavailable")
  if store.account = none then throw (permanent "local cloud session requires an account")
  return sessionRecordName clientId

/-! ## Reading -/

/-- What the two directory walks do with one file of the right extension. -/
def readSessionRecord {α : Type} (label : String) (decode : Bytes → Option α)
    (validate : α → Result Unit) (clientOf : α → Nat) (clientError : String) (name : FileName)
    (node : Node) : Result (String × Bytes × α) := do
  let bytes ← readBoundedFile (some node) maxSessionRecordBytes label
  match decode bytes with
  | none => throw (incomplete s!"local cloud {label} is incomplete")
  | some record =>
    validate record
    let (name, clientId) ← sessionRecordClientId name
    if clientId ≠ clientOf record then throw (permanent clientError)
    return (name, bytes, record)

/-- The walk both directories are read with; `entries` counts what was listed so far. -/
def walkSessionRecords {α : Type} (tooMany : String)
    (readRecord : FileName → Node → Result (String × Bytes × α)) :
    List Entry → Nat → Result (List (String × Bytes × α))
  | [], _ => return []
  | (name, node) :: rest, entries => do
    if entries + 1 > maxSessionRecords then throw (permanent tooMany)
    if hasJsonExtension name then do
      let record ← readRecord name node
      let records ← walkSessionRecords tooMany readRecord rest (entries + 1)
      return record :: records
    else walkSessionRecords tooMany readRecord rest (entries + 1)

section Calls

variable (P : Platform) (C : SessionCodec) (store : FolderStore) (appId : Nat)

def readClaimFile : FileName → Node → Result (String × Bytes × SessionClaim) :=
  readSessionRecord "session claim" C.decodeClaim (validateSessionClaim appId) (·.clientId)
    "local cloud session claim ClientID is invalid"

def readOverrideFile : FileName → Node → Result (String × Bytes × SessionOverride) :=
  readSessionRecord "session override" C.decodeOverride (validateSessionOverride appId)
    (·.clientId) "local cloud session override ClientID is invalid"

/-- `read_session_claims`: the claims with their ids. -/
def readSessionClaims (dir : AppDir) : Result (List (String × SessionClaim)) := do
  if store.account = none then throw (permanent "local cloud session requires an account")
  let records ← walkSessionRecords "too many local cloud session claims" (readClaimFile C appId)
    dir.entries 0
  return records.map fun record => (P.sha256 record.2.1, record.2.2)

/-- `read_session_overrides`: the overrides with the names of their files. -/
def readSessionOverrides (dir : AppDir) : Result (List (String × SessionOverride)) := do
  if store.account = none then throw (permanent "local cloud session requires an account")
  let records ← walkSessionRecords "too many local cloud session overrides"
    (readOverrideFile C appId) dir.entries 0
  return records.map fun record => (record.1, record.2.2)

/-- `read_session_claim`: the claim of one client, if it has one. -/
def readSessionClaim (dir : AppDir) (clientId : Nat) : Result (Option SessionClaim) := do
  let name ← store.sessionPath clientId
  match dir.find name with
  | none => return none
  | some node =>
    let bytes ← readBoundedFile (some node) maxSessionRecordBytes "session claim"
    match C.decodeClaim bytes with
    | none => throw (incomplete "local cloud session claim is incomplete")
    | some claim =>
      validateSessionClaim appId claim
      if claim.clientId ≠ clientId then
        throw (permanent "local cloud session claim ClientID is invalid")
      return some claim

end Calls

/-! ## Writing -/

/-- The two directories of `<app>/sessions`. One that does not exist has no entries. -/
structure SessionFolder where
  claims : AppDir
  overrides : AppDir

/-- `atomic_replace`, which leaves a file that has the bytes alone. -/
def AppDir.replace (dir : AppDir) (name : String) (bytes : Bytes) : AppDir :=
  match dir.find name with
  | some (.file old) => if old = bytes then dir else dir.put name (.file bytes)
  | _ => dir.put name (.file bytes)

abbrev SessionCall := Effect SessionFolder BackendError

def liveClaimIds (claims : List (String × SessionClaim)) : List String := claims.map Prod.fst

/-- `superseded_live_claims`, as the list of its members. -/
def supersededLiveClaims (overrides : List (String × SessionOverride)) (liveClaims : List String) :
    List String :=
  (overrides.flatMap fun override => override.2.supersededClaims).filter fun id =>
    liveClaims.contains id

section Calls

variable (P : Platform) (C : SessionCodec) (store : FolderStore) (appId : Nat)

def writeSessionClaim (claim : SessionClaim) : SessionCall String := do
  let name ← .lift (store.sessionPath claim.clientId)
  let bytes := C.encodeClaim claim
  if bytes.length > maxSessionRecordBytes then
    .raise (permanent "local cloud session claim is too large")
  else
    .modify fun folder => { folder with claims := folder.claims.replace name bytes }
    return P.sha256 bytes

def writeSessionOverride (record : SessionOverride) : SessionCall Unit := do
  let name ← .lift (store.sessionPath record.clientId)
  let bytes := C.encodeOverride record
  if bytes.length > maxSessionRecordBytes then
    .raise (permanent "local cloud session override is too large")
  else
    .modify fun folder => { folder with overrides := folder.overrides.replace name bytes }

/-- `reconcile_loaded_session_overrides`, without the set it returns, which no caller
uses. -/
def reconcileLoadedSessionOverrides (liveClaims : List String) :
    List (String × SessionOverride) → SessionCall Unit
  | [] => return ()
  | (name, record) :: rest => do
    let retained := record.supersededClaims.filter fun id => liveClaims.contains id
    if retained = [] then
      .modify fun folder => { folder with overrides := folder.overrides.remove name }
      reconcileLoadedSessionOverrides liveClaims rest
    else if retained ≠ record.supersededClaims then
      writeSessionOverride C store { record with supersededClaims := retained }
      reconcileLoadedSessionOverrides liveClaims rest
    else reconcileLoadedSessionOverrides liveClaims rest

def reconcileSessionOverrides (liveClaims : List String) : SessionCall Unit := do
  let folder ← .get
  let overrides ← .lift (readSessionOverrides C store appId folder.overrides)
  reconcileLoadedSessionOverrides C store liveClaims overrides

/-- The claims of other clients that no override supersedes. -/
def pendingClaims (clientId : Nat) (superseded : List String)
    (claims : List (String × SessionClaim)) : List (String × SessionClaim) :=
  claims.filter fun claim => claim.2.clientId != clientId && !superseded.contains claim.1

def SessionClaim.peer (claim : SessionClaim) : SessionPeer :=
  ⟨claim.clientId, claim.machineName, claim.updatedAt, claim.osType, claim.deviceType⟩

/-- The ids of the claims of other clients. -/
def otherClaimIds (clientId : Nat) (claims : List (String × SessionClaim)) : List String :=
  (claims.filter fun claim => claim.2.clientId != clientId).map Prod.fst

/-- What an override lists: everything superseded so far and every other claim, as a
sorted set. -/
def overrideClaims (clientId : Nat) (superseded : List String)
    (claims : List (String × SessionClaim)) : List String :=
  (superseded ++ otherClaimIds clientId claims).dedup.insertionSort (· ≤ ·)

/-- The block that supersedes the pending claims; it returns the overrides as they are
then. -/
def supersedePending (identity : CommitIdentity) (superseded : List String)
    (claims : List (String × SessionClaim)) (overrides : List (String × SessionOverride)) :
    SessionCall (List (String × SessionOverride)) := do
  let record : SessionOverride :=
    ⟨appId, identity.clientId, overrideClaims identity.clientId superseded claims⟩
  let name ← .lift (store.sessionPath identity.clientId)
  writeSessionOverride C store record
  return (overrides.filter fun override => override.1 != name) ++ [(name, record)]

/-- `launch_session` on an app whose manifests are in `dir`; `now` and `nonce` are the
clock and the nonce it would read. -/
def launchSession (dir : AppDir) (identity : CommitIdentity) (osType deviceType : Option Int)
    (ignorePending : Bool) (now : Nat) (nonce : String) : SessionCall (List SessionPeer) := do
  .lift (validateAppId appId)
  .lift (validateIdentity identity)
  let folder ← .get
  let claims ← .lift (readSessionClaims P C store appId folder.claims)
  let overrides ← .lift (readSessionOverrides C store appId folder.overrides)
  let superseded := supersededLiveClaims overrides (liveClaimIds claims)
  let pending := pendingClaims identity.clientId superseded claims
  if pending ≠ [] ∧ !ignorePending then
    reconcileLoadedSessionOverrides C store (liveClaimIds claims) overrides
    return pending.map fun claim => claim.2.peer
  else
    let overrides ← if pending ≠ [] then
        supersedePending C store appId identity superseded claims overrides
      else pure overrides
    let observed ← .lift (view P store appId dir)
    let claimId ← writeSessionClaim P C store {
      appId, clientId := identity.clientId, machineName := identity.machineName, osType
      deviceType, status := .active, observedHeads := observed.headIds, updatedAt := now, nonce }
    reconcileLoadedSessionOverrides C store
      (otherClaimIds identity.clientId claims ++ [claimId]) overrides
    return []

def updateSession (dir : AppDir) (identity : CommitIdentity) (status : SessionStatus) (now : Nat)
    (nonce : String) : SessionCall Unit := do
  .lift (validateAppId appId)
  .lift (validateIdentity identity)
  let folder ← .get
  match ← .lift (readSessionClaim C store appId folder.claims identity.clientId) with
  | none => .raise (conflict "local cloud session does not belong to this client")
  | some claim =>
    let observed ← .lift (view P store appId dir)
    if claim.machineName ≠ identity.machineName ∨ claim.status ≠ status ∨
        claim.observedHeads ≠ observed.headIds then
      let _ ← writeSessionClaim P C store { claim with
        machineName := identity.machineName, status, observedHeads := observed.headIds
        updatedAt := now, nonce }
    let folder ← .get
    let claims ← .lift (readSessionClaims P C store appId folder.claims)
    reconcileSessionOverrides C store appId (liveClaimIds claims)

def suspendSession (dir : AppDir) (identity : CommitIdentity) (now : Nat) (nonce : String) :
    SessionCall Unit :=
  updateSession P C store appId dir identity .suspended now nonce

def resumeSession (dir : AppDir) (identity : CommitIdentity) (now : Nat) (nonce : String) :
    SessionCall Unit :=
  updateSession P C store appId dir identity .active now nonce

def exitSession (identity : CommitIdentity) : SessionCall Unit := do
  .lift (validateAppId appId)
  .lift (validateIdentity identity)
  let folder ← .get
  match ← .lift (readSessionClaim C store appId folder.claims identity.clientId) with
  | none => return ()
  | some _ =>
    let name ← .lift (store.sessionPath identity.clientId)
    .modify fun folder => { folder with claims := folder.claims.remove name }
    let folder ← .get
    let claims ← .lift (readSessionClaims P C store appId folder.claims)
    reconcileSessionOverrides C store appId (liveClaimIds claims)

end Calls

end VaporForge.Local
