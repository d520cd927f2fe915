import VaporForge.Local.Folder

/-!
# Save operations

An upload batch is a `SaveOperation`: it remembers the heads it was begun on, the
files of the version it starts from, and a private work directory with the blobs
collected so far. Nothing reaches the app's folder until `commit_operation` finds
the same heads again and moves the work directory into place.

Every function here runs under the repository's lock, or touches only the
operation's own work directory under the operation's lock, so each is one atomic
step. A path is modelled by the node found there. What can fail half-way
(`commit_operation` prunes the work directory before it checks it) returns the
state it leaves behind beside its result.
-/

namespace VaporForge.Local

open VaporForge.CloudCore

/-! ## The work directory -/

/-- A blob name that passed `validate_blob_hash`. -/
abbrev BlobHash := {hash : String // validateBlobHash hash = .ok ()}

/-- `operation_blob_path`: the only way a name enters an operation's `blobs/`. -/
def operationBlobPath (hash : String) : Result BlobHash :=
  match h : validateBlobHash hash with
  | .ok () => return ⟨hash, h⟩
  | .error e => throw e

/-- The files below an operation's `blobs/`. Every name passed
`operation_blob_path`, so `prune_operation_blobs` never meets one it refuses. -/
structure OperationBlobs where
  files : Std.ExtTreeMap String Bytes compare
  valid : ∀ name ∈ files, validateBlobHash name = .ok ()

namespace OperationBlobs

def empty : OperationBlobs := ⟨∅, fun _ h => absurd h Std.ExtTreeMap.not_mem_empty⟩

def insert (blobs : OperationBlobs) (hash : BlobHash) (bytes : Bytes) : OperationBlobs :=
  ⟨blobs.files.insert hash.1 bytes, by
    intro name hname
    rw [Std.ExtTreeMap.mem_insert] at hname
    rcases hname with heq | hname
    · have hn : hash.1 = name := compare_eq_iff_eq.mp heq
      exact hn ▸ hash.2
    · exact blobs.valid name hname⟩

def node (blobs : OperationBlobs) (hash : String) : Option Node :=
  blobs.files[hash]?.map .file

/-- `prune_operation_blobs`: drop what no file of the new version names. -/
def prune (blobs : OperationBlobs) (files : Files) : OperationBlobs :=
  ⟨blobs.files.filter fun name _ => ((storedFiles files).map (·.sha1)).contains name,
    fun name hname => blobs.valid name (Std.ExtTreeMap.mem_of_mem_filter hname)⟩

def toDir (blobs : OperationBlobs) : Node :=
  .dir (blobs.files.toList.map fun blob => (.utf8 blob.1, .file blob.2))

end OperationBlobs

/-- What an operation is fixed to when it begins. -/
structure OperationTerms where
  coordination : Nat
  repository : String
  manifestScope : String
  appId : Nat
  expectedHeads : List String
  parents : List String
  originalFiles : Files
  forcePublish : Bool
  minimumRevision : Nat

/-- `SaveOperation`: the terms, and the work directory as it stands. -/
structure SaveOperation extends OperationTerms where
  blobs : OperationBlobs
  /-- `manifest.json` of the work directory, left by a publish that then failed. -/
  manifestJson : Option Bytes
  closed : Bool

/-- `atomic_publish` on a path that holds `existing`: the bytes it holds afterwards. -/
def atomicPublish (existing : Option Bytes) (bytes : Bytes) : Result Bytes :=
  match existing with
  | none => return bytes
  | some old =>
    if old = bytes then return old
    else throw (permanent "immutable local cloud object already has different bytes")

def FolderStore.validateOperation (store : FolderStore) (op : SaveOperation) : Result Unit :=
  if op.repository ≠ store.root ∨ op.manifestScope ≠ store.manifestScope op.appId ∨
      op.coordination ≠ store.coordination then
    throw (permanent "local cloud operation belongs to another store")
  else return ()

/-! ## Paths into the app folder -/

/-- The checks `manifest_dir` makes before it forms the path. -/
def manifestDir (appId : Nat) (id : String) : Result Unit := do
  validateAppId appId
  validateManifestId id

/-- The node under `<manifest>/blobs/<hash>`. -/
def AppDir.blob (dir : AppDir) (manifestId hash : String) : Option Node :=
  match dir.find manifestId with
  | some (.dir entries) =>
    match lookup entries "blobs" with
    | some (.dir blobs) => lookup blobs hash
    | _ => none
  | _ => none

def manifestBlobPath (dir : AppDir) (appId : Nat) (manifestId hash : String) :
    Result (Option Node) := do
  validateBlobHash hash
  manifestDir appId manifestId
  return dir.blob manifestId hash

/-! ## Verifying blobs -/

def integrityFailed : BackendError := permanent "local cloud blob failed integrity verification"

/-- `verify_blob_file`, on the node found under the path. -/
def verifyBlobFile (P : Platform) (node : Option Node) (expected : StoredFile) : Result Unit :=
  if expected.rawSize > maxSaveFileBytes then
    throw (permanent "local cloud file exceeds the supported size")
  else
    match node with
    | none => throw (ioError "No such file or directory (os error 2)")
    | some (.file bytes) =>
      if bytes.length ≠ expected.rawSize ∨ P.sha1 bytes ≠ expected.sha1 then
        throw integrityFailed
      else return ()
    | some _ => throw integrityFailed

/-- The loop `verify_files` and `verify_operation_files` share; they differ in where
a blob is looked up. -/
def verifyEach (P : Platform) (blobPath : String → Result (Option Node)) :
    List (String × StoredFile) → Result Unit
  | [] => return ()
  | (path, file) :: rest => do
    validateCloudPath path
    let node ← blobPath file.sha1
    verifyBlobFile P node file
    verifyEach P blobPath rest

def verifyFiles (P : Platform) (dir : AppDir) (appId : Nat) (manifestId : String)
    (files : Files) : Result Unit :=
  verifyEach P (manifestBlobPath dir appId manifestId) files.toList

def verifyOperationFiles (P : Platform) (op : SaveOperation) (files : Files) : Result Unit :=
  verifyEach P (fun hash => do
    let hash ← operationBlobPath hash
    return op.blobs.node hash.1) files.toList

/-! ## Beginning -/

/-- What an operation starts from: the version whose files and blobs it takes over,
and the heads the new manifest will replace. -/
structure Base where
  parents : List String
  selectedId : Option String
  originalFiles : Files
  forcePublish : Bool

def selectBase (resolved : ResolvedApp) (baseHeads : List String)
    (resolutionHeads : Option (List String)) : Result Base :=
  match resolutionHeads with
  | some expected =>
    if expected.length < 2 ∨ resolved.heads ≠ expected then
      throw (conflict "local cloud conflict heads changed before resolution")
    else
      match baseHeads with
      | [selected] =>
        -- any manifest present passes, whether it is one of the heads or not
        match resolved.manifests[selected]? with
        | some manifest => return ⟨expected, some selected, manifest.files, true⟩
        | none => throw (permanent "selected local conflict manifest is not an active head")
      | _ => throw (permanent "local conflict resolution requires one selected base")
  | none =>
    if resolved.heads ≠ baseHeads then
      throw (conflict "local cloud changed after the upload batch began")
    else if resolved.heads.length > 1 then
      throw (conflict "ordinary upload cannot cover unresolved manifest heads")
    else do
      let current ← resolved.current
      return ⟨baseHeads, baseHeads.head?, (current.map fun head => head.2.files).getD ∅, false⟩

/-- `link_or_copy` onto a path that does not exist yet. -/
def linkOrCopy (source : Option Node) : Result Bytes :=
  match source with
  | some (.file bytes) => return bytes
  | none => throw (ioError "No such file or directory (os error 2)")
  | some _ =>
    throw (ioError "the source path is neither a regular file nor a symlink to a regular file")

/-- The copy loop of `begin_operation_with_revision`: each blob once. -/
def linkBlobs (dir : AppDir) (appId : Nat) (selectedId : String) :
    List StoredFile → OperationBlobs → Result OperationBlobs
  | [], blobs => return blobs
  | file :: rest, blobs =>
    if file.sha1 ∈ blobs.files then linkBlobs dir appId selectedId rest blobs
    else do
      let source ← manifestBlobPath dir appId selectedId file.sha1
      let target ← operationBlobPath file.sha1
      let bytes ← linkOrCopy source
      linkBlobs dir appId selectedId rest (blobs.insert target bytes)

/-- The blobs of the selected version, or of no version. -/
def linkBase (dir : AppDir) (appId : Nat) (base : Base) : Result OperationBlobs :=
  match base.selectedId with
  | some id => linkBlobs dir appId id (storedFiles base.originalFiles) .empty
  | none => return .empty

/-- `resolution_heads.map(normalized_head_ids).transpose()`. -/
def normalizedResolution : Option (List String) → Result (Option (List String))
  | none => return none
  | some heads => do
    let heads ← normalizedHeadIds heads
    return some heads

def beginOperationWithRevision (P : Platform) (store : FolderStore) (dir : AppDir)
    (appId : Nat) (baseHeads : List String) (resolutionHeads : Option (List String))
    (minimumRevision : Nat) : Result SaveOperation := do
  validateAppId appId
  let resolved ← resolveApp P store appId dir
  let baseHeads ← normalizedHeadIds baseHeads
  let resolutionHeads ← normalizedResolution resolutionHeads
  let base ← selectBase resolved baseHeads resolutionHeads
  let blobs ← linkBase dir appId base
  return {
    coordination := store.coordination
    repository := store.root
    manifestScope := store.manifestScope appId
    appId
    expectedHeads := resolutionHeads.getD baseHeads
    parents := base.parents
    originalFiles := base.originalFiles
    forcePublish := base.forcePublish
    minimumRevision
    blobs
    manifestJson := none
    closed := false }

/-! ## Staging -/

def stageFile (P : Platform) (store : FolderStore) (op : SaveOperation) (path : String)
    (contents : Bytes) (metadata : FileMetadata) : Result (SaveOperation × StagedFile) := do
  store.validateOperation op
  if op.closed then throw (permanent "local cloud operation is closed")
  validateCloudPath path
  validateMetadata P contents metadata
  let blobSha1 := toAsciiLowercase metadata.sha1
  let target ← operationBlobPath blobSha1
  let bytes ← atomicPublish op.blobs.files[target.1]? contents
  return ({ op with blobs := op.blobs.insert target bytes }, ⟨path, blobSha1, metadata⟩)

/-! ## Committing -/

def StagedFile.stored (file : StagedFile) : StoredFile :=
  ⟨file.blobSha1, file.metadata.rawSize, file.metadata.mtime, file.metadata.platformsToSync⟩

def removeDeleted : List String → Files → Result Files
  | [], files => return files
  | path :: rest, files => do
    validateCloudPath path
    removeDeleted rest (files.erase path)

def overlayStaged : List StagedFile → Files → Result Files
  | [], files => return files
  | file :: rest, files => do
    validateCloudPath file.path
    overlayStaged rest (files.insert file.path file.stored)

/-- `commit_operation` up to the new file map; nothing has been touched yet. -/
def planCommit (P : Platform) (store : FolderStore) (dir : AppDir) (op : SaveOperation)
    (staged : List StagedFile) (deleted : List String) (identity : CommitIdentity) :
    Result (ResolvedApp × Files) := do
  store.validateOperation op
  validateIdentity identity
  if op.closed then throw (permanent "local cloud operation is closed")
  validateAppId op.appId
  let resolved ← resolveApp P store op.appId dir
  if resolved.heads ≠ op.expectedHeads then
    throw (conflict "local cloud changed after the upload batch began")
  let files ← removeDeleted deleted op.originalFiles
  let files ← overlayStaged staged files
  return (resolved, files)

/-- The folder and the operation as a commit leaves them, and what it returned. -/
structure CommitOutcome where
  dir : AppDir
  operation : SaveOperation
  result : Result Nat

/-- The manifest `publish_operation` builds. -/
def draftManifest (store : FolderStore) (op : SaveOperation) (files : Files)
    (identity : CommitIdentity) (now maxRevision : Nat) : Result SaveManifest := do
  if maxRevision + 1 > u64Max then throw (permanent "local cloud revision overflow")
  let account ← store.manifestAccount
  return {
    steamId64 := account
    appId := op.appId
    revision := maxRevision + 1
    parents := op.parents
    clientId := identity.clientId
    machineName := identity.machineName
    createdAtMs := now
    files }

/-- The checks between building the manifest and writing it. -/
def checkDraft (P : Platform) (op : SaveOperation) (manifest : SaveManifest) : Result Unit := do
  let bytes := P.encodeManifest manifest
  if bytes.length > maxManifestBytes then
    throw (permanent "local cloud manifest is too large")
  validateManifest (P.sha256 bytes) manifest.steamId64 op.appId manifest

/-- `std::fs::rename` of a directory to `<app>/<id>`: over nothing or over an empty
directory. -/
def AppDir.rename (dir : AppDir) (id : String) (node : Node) : Result AppDir :=
  match dir.find id with
  | none | some (.dir []) => return dir.put id node
  | some (.dir (_ :: _)) => throw (ioError "Directory not empty (os error 39)")
  | some _ => throw (ioError "Not a directory (os error 20)")

/-- `manifest_dir`, then the move to the path it returns. -/
def AppDir.moveIntoPlace (dir : AppDir) (appId : Nat) (id : String) (node : Node) :
    Result AppDir := do
  manifestDir appId id
  dir.rename id node

/-- The published directory: the operation's work directory, moved. -/
def publishedNode (bytes : Bytes) (blobs : OperationBlobs) : Node :=
  .dir [(.utf8 "manifest.json", .file bytes), (.utf8 "blobs", blobs.toDir)]

/-- `publish_operation`; `now` is the clock read for `created_at_ms`. -/
def publishOperation (P : Platform) (now : Nat) (store : FolderStore) (dir : AppDir)
    (op : SaveOperation) (files : Files) (identity : CommitIdentity) (maxRevision : Nat) :
    CommitOutcome :=
  match draftManifest store op files identity now maxRevision with
  | .error e => ⟨dir, op, .error e⟩
  | .ok manifest =>
    match checkDraft P op manifest with
    | .error e => ⟨dir, op, .error e⟩
    | .ok () =>
      match atomicPublish op.manifestJson (P.encodeManifest manifest) with
      | .error e => ⟨dir, op, .error e⟩
      | .ok bytes =>
        let op := { op with manifestJson := some bytes }
        match dir.moveIntoPlace op.appId (P.manifestId manifest)
            (publishedNode bytes op.blobs) with
        | .error e => ⟨dir, op, .error e⟩
        | .ok dir => ⟨dir, { op with closed := true }, .ok manifest.revision⟩

def commitOperation (P : Platform) (now : Nat) (store : FolderStore) (dir : AppDir)
    (op : SaveOperation) (staged : List StagedFile) (deleted : List String)
    (identity : CommitIdentity) : CommitOutcome :=
  match planCommit P store dir op staged deleted identity with
  | .error e => ⟨dir, op, .error e⟩
  | .ok (resolved, files) =>
    let op := { op with blobs := op.blobs.prune files }
    match verifyOperationFiles P op files with
    | .error e => ⟨dir, op, .error e⟩
    | .ok () =>
      if files = op.originalFiles ∧ !op.forcePublish then
        match resolved.current with
        | .error e => ⟨dir, op, .error e⟩
        | .ok current =>
          ⟨dir, { op with closed := true }, .ok (current.elim 0 fun head => head.2.revision)⟩
      else
        publishOperation P now store dir op files identity
          (max resolved.maxRevision op.minimumRevision)

def abortOperation (store : FolderStore) (op : SaveOperation) : Result SaveOperation := do
  store.validateOperation op
  return { op with closed := true }

/-- `resolve_to_manifest`: an operation over all the heads, begun on the selected
version and committed at once. -/
def resolveToManifest (P : Platform) (now : Nat) (store : FolderStore) (dir : AppDir)
    (appId : Nat) (expectedHeads : List String) (selectedHead : String)
    (identity : CommitIdentity) (minimumRevision : Nat) : AppDir × Result Nat :=
  let begun : Result SaveOperation := do
    validateAppId appId
    validateIdentity identity
    let expectedHeads ← normalizedHeadIds expectedHeads
    beginOperationWithRevision P store dir appId [selectedHead] (some expectedHeads)
      minimumRevision
  match begun with
  | .error e => (dir, .error e)
  | .ok op =>
    let out := commitOperation P now store dir op [] [] identity
    (out.dir, out.result)

end VaporForge.Local
