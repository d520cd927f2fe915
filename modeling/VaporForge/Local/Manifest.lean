import Std.Data.ExtTreeMap
import Mathlib.Data.List.Sort
import Mathlib.Data.List.Destutter
import VaporForge.CloudCore.Sync
import VaporForge.CloudCore.Text

/-!
# Save manifests and their validation

The save half of `cloud-local/src/store.rs` keeps one immutable manifest per
published version: the files of that version by path, and the manifests it
replaces. This file holds the value types and every check a manifest, a path or
a blob passes before it is written or after it is read, with the source's
constants and error texts.

What the store takes from other crates is a `Platform`: the two digests, and the
JSON codec with the one law the store relies on, that a written manifest reads
back.
-/

namespace VaporForge.Local

open VaporForge.CloudCore

abbrev Result := Except BackendError

def permanent (message : String) : BackendError := ⟨message, false⟩

def incomplete (message : String) : BackendError := ⟨message, true⟩

def conflict (message : String) : BackendError := ⟨message, true⟩

def ioError (error : String) : BackendError := ⟨"local cloud I/O failed: " ++ error, true⟩

def maxManifestBytes : Nat := 16 * 1024 * 1024
def maxManifestFiles : Nat := 100000
def maxManifestParents : Nat := 4096
def maxManifestObjects : Nat := 4096
def maxSaveFileBytes : Nat := 256 * 1024 * 1024
def maxCloudPathBytes : Nat := 4096

/-! ## Values -/

structure FileMetadata where
  sha1 : String
  rawSize : Nat
  mtime : Int
  platformsToSync : Nat
  deriving DecidableEq, Repr

structure StagedFile where
  path : String
  blobSha1 : String
  metadata : FileMetadata
  deriving DecidableEq, Repr

structure StoredFile where
  sha1 : String
  rawSize : Nat
  mtime : Int
  platformsToSync : Nat
  deriving DecidableEq, Repr

/-- The files of one version, by cloud path. -/
abbrev Files := Std.ExtTreeMap String StoredFile compare

/-- `files.values()`. -/
def storedFiles (files : Files) : List StoredFile := files.toList.map Prod.snd

structure SaveManifest where
  steamId64 : String
  appId : Nat
  revision : Nat
  parents : List String
  clientId : Nat
  machineName : String
  createdAtMs : Nat
  files : Files
  deriving DecidableEq

structure CommitIdentity where
  clientId : Nat
  machineName : String
  deriving DecidableEq, Repr

/-- What the store takes from other crates: the hex digests `hex_digest::<Sha1>`
and `hex_digest::<Sha256>`, and `serde_json` on manifests. -/
structure Platform where
  sha1 : Bytes → String
  sha256 : Bytes → String
  encodeManifest : SaveManifest → Bytes
  decodeManifest : Bytes → Option SaveManifest
  decode_encode : ∀ m, decodeManifest (encodeManifest m) = some m

/-- The identity of a manifest is the digest of its JSON text. -/
def Platform.manifestId (P : Platform) (m : SaveManifest) : String :=
  P.sha256 (P.encodeManifest m)

/-! ## Checks -/

def validateAppId (appId : Nat) : Result Unit :=
  if appId = 0 then throw (permanent "local cloud does not support account-scope AppID 0")
  else return ()

def validateIdentity (identity : CommitIdentity) : Result Unit :=
  if identity.clientId = 0 then throw (permanent "local cloud Steam ClientID is unavailable")
  else
    let machineName := trim identity.machineName
    if machineName = "" ∨ byteLen machineName > 255 ∨ containsChar machineName '\x00' then
      throw (permanent "invalid local cloud machine name")
    else return ()

/-- `normalized_head_ids`: well-formed ids, sorted, with a repetition refused. -/
def normalizedHeadIds (ids : List String) : Result (List String) :=
  if ids.any fun id => byteLen id != 64 || !allAsciiHexDigits id then
    throw (permanent "invalid local cloud manifest id")
  else
    let normalized := (ids.insertionSort (· ≤ ·)).destutter (· ≠ ·)
    if normalized.length ≠ ids.length then
      throw (permanent "duplicate local cloud manifest id")
    else return normalized

def validateManifestId (id : String) : Result Unit :=
  if byteLen id ≠ 64 ∨ id ≠ toAsciiLowercase id ∨ !allAsciiHexDigits id then
    throw (permanent "invalid local cloud manifest id")
  else return ()

def validateBlobHash (hash : String) : Result Unit :=
  if byteLen hash ≠ 40 ∨ hash ≠ toAsciiLowercase hash ∨ !allAsciiHexDigits hash then
    throw (permanent "invalid local cloud blob hash")
  else return ()

def validateCloudPath (path : String) : Result Unit :=
  if path = "" ∨ byteLen path > maxCloudPathBytes ∨ path.toList.head? = some '/' ∨
      containsChar path '\x00' ∨ containsChar path '\\' then
    throw (permanent "invalid local cloud path")
  else if (splitChar path '/').any fun part => part == "" || part == "." || part == ".." then
    throw (permanent "invalid local cloud path component")
  else return ()

def validateMetadata (P : Platform) (contents : Bytes) (metadata : FileMetadata) : Result Unit :=
  if metadata.rawSize > maxSaveFileBytes then
    throw (permanent "local cloud file exceeds the supported size")
  else if contents.length ≠ metadata.rawSize then
    throw (permanent "local cloud raw size does not match contents")
  else if byteLen metadata.sha1 ≠ 40 ∨ !allAsciiHexDigits metadata.sha1 then
    throw (permanent "local cloud SHA-1 is invalid")
  else if P.sha1 contents ≠ toAsciiLowercase metadata.sha1 then
    throw (permanent "local cloud SHA-1 does not match contents")
  else return ()

/-- The file loop of `validate_manifest`; `blobSizes` holds the size each blob
was first seen with. -/
def validateManifestFiles (blobSizes : Std.ExtTreeMap String Nat compare) :
    List (String × StoredFile) → Result Unit
  | [] => return ()
  | (path, file) :: rest => do
    validateCloudPath path
    if byteLen file.sha1 ≠ 40 ∨ !allAsciiHexDigits file.sha1 ∨
        file.sha1 ≠ toAsciiLowercase file.sha1 ∨ file.rawSize > maxSaveFileBytes ∨
        file.mtime < 0 then
      throw (permanent "invalid local cloud manifest file")
    else if blobSizes[file.sha1]?.any (· != file.rawSize) then
      throw (permanent "inconsistent local cloud blob metadata")
    else validateManifestFiles (blobSizes.insert file.sha1 file.rawSize) rest

def validateManifest (id steamId64 : String) (appId : Nat) (manifest : SaveManifest) :
    Result Unit := do
  if manifest.steamId64 ≠ steamId64 ∨ manifest.appId ≠ appId ∨ manifest.revision = 0 ∨
      manifest.files.size > maxManifestFiles ∨ manifest.parents.length > maxManifestParents then
    throw (permanent "invalid local cloud manifest")
  validateIdentity ⟨manifest.clientId, manifest.machineName⟩
  let parents ← normalizedHeadIds manifest.parents
  if parents ≠ manifest.parents ∨ parents.any (· == id) then
    throw (permanent "invalid local cloud manifest parents")
  validateManifestFiles ∅ manifest.files.toList

end VaporForge.Local
