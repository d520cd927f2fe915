import VaporForge.Lib.Maps
import VaporForge.Local.Manifest

/-!
# The app folder and what it resolves to

An app's folder holds one directory per published manifest, named by the
manifest's id: `manifest.json` and the blobs of its files. Nothing else says
what the current version is; `resolve_app` reads every manifest, and the heads
are the ones no other manifest names as a parent.

A directory listing is a list of named nodes. `read_dir` promises no order and a
directory has no name twice, so an `AppDir` is such a list with distinct names,
in whatever order it comes.
-/

namespace VaporForge.Local

open VaporForge.CloudCore

/-! ## Directory trees -/

/-- A file name as the operating system returns it; not every one is UTF-8. -/
inductive FileName where
  | utf8 (name : String)
  | opaqueBytes (bytes : Bytes)
  deriving DecidableEq, Repr

inductive Node where
  | file (bytes : Bytes)
  | dir (entries : List (FileName × Node))
  /-- A symbolic link, device or socket: neither file nor directory. -/
  | other

abbrev Entry := FileName × Node

/-- `path.join(name)` below a directory listing. -/
def lookup (entries : List Entry) (name : String) : Option Node :=
  (entries.find? fun entry => entry.1 == .utf8 name).map Prod.snd

/-- The entries of one app's folder. A folder that does not exist yet has none. -/
@[ext]
structure AppDir where
  entries : List Entry
  nodup : (entries.map Prod.fst).Nodup

def AppDir.empty : AppDir := ⟨[], List.nodup_nil⟩

def AppDir.find (dir : AppDir) (name : String) : Option Node := lookup dir.entries name

def AppDir.remove (dir : AppDir) (name : String) : AppDir :=
  ⟨dir.entries.filter fun entry => entry.1 != .utf8 name,
    dir.nodup.sublist (List.filter_sublist.map _)⟩

/-- A directory moved to `name`, over whatever had that name. -/
def AppDir.put (dir : AppDir) (name : String) (node : Node) : AppDir :=
  ⟨(.utf8 name, node) :: (dir.remove name).entries, by
    rw [List.map_cons, List.nodup_cons]
    exact ⟨by simp [AppDir.remove], (dir.remove name).nodup⟩⟩

/-! ## Reading one manifest directory -/

def isNonManifestAppEntry (name : String) : Bool :=
  name == "sessions" || name == "stats" || name == "playtime"

/-- `read_bounded_file`, on the node found under the path. -/
def readBoundedFile (node : Option Node) (maximum : Nat) (label : String) : Result Bytes :=
  match node with
  | none => throw (ioError "No such file or directory (os error 2)")
  | some (.file bytes) =>
    if bytes.length > maximum then throw (permanent s!"invalid local cloud {label} file")
    else return bytes
  | some _ => throw (permanent s!"invalid local cloud {label} file")

/-- The loop of `validate_manifest_directory`: the entry count so far and the two
flags. -/
def scanManifestDirectory : List Entry → Nat × Bool × Bool → Result (Nat × Bool × Bool)
  | [], seen => return seen
  | (.opaqueBytes _, _) :: _, _ =>
    throw (incomplete "local cloud manifest entry is not UTF-8")
  | (.utf8 name, node) :: rest, (count, hasManifest, hasBlobs) =>
    if count + 1 > 2 then
      throw (incomplete "local cloud manifest directory is incomplete")
    else
      scanManifestDirectory rest
        (count + 1,
          hasManifest || (name == "manifest.json" && match node with | .file _ => true | _ => false),
          hasBlobs || (name == "blobs" && match node with | .dir _ => true | _ => false))

def validateManifestDirectory (entries : List Entry) : Result Unit := do
  let (count, hasManifest, hasBlobs) ← scanManifestDirectory entries (0, false, false)
  if count ≠ 2 ∨ !hasManifest ∨ !hasBlobs then
    throw (incomplete "local cloud manifest directory is incomplete")

/-- The sizes a manifest's blobs must have: the last file naming a blob decides. -/
def expectedBlobs (files : Files) : Std.ExtTreeMap String Nat compare :=
  Lib.collect ∅ ((storedFiles files).map fun file => (file.sha1, file.rawSize))

/-- The loop of `validate_manifest_blobs`, collecting the names it accepted. -/
def scanBlobs (expected : Std.ExtTreeMap String Nat compare) :
    List Entry → List String → Result (List String)
  | [], actual => return actual
  | (name, .file bytes) :: rest, actual =>
    match name with
    | .opaqueBytes _ => throw (incomplete "local cloud blob name is not UTF-8")
    | .utf8 name =>
      if byteLen name ≠ 40 ∨ name ≠ toAsciiLowercase name ∨ !allAsciiHexDigits name then
        throw (incomplete "invalid local cloud blob name")
      else
        match expected[name]? with
        | none => throw (incomplete "local cloud manifest blob set is incomplete")
        | some expectedSize =>
          if bytes.length ≠ expectedSize then
            throw (incomplete "local cloud manifest blob set is incomplete")
          else scanBlobs expected rest (name :: actual)
  | _ :: _, _ => throw (incomplete "local cloud manifest blob set is incomplete")

def validateManifestBlobs (directory : Option Node) (files : Files) : Result Unit :=
  match directory with
  | some (.dir entries) => do
    let expected := expectedBlobs files
    let actual ← scanBlobs expected entries []
    if !expected.keys.all actual.contains then
      throw (incomplete "local cloud manifest blob set is incomplete")
  | _ => throw (ioError "Not a directory (os error 20)")

/-- The body of the `collect_manifest_objects` loop, past the count check. -/
def readManifest (P : Platform) (steamId64 : String) (appId : Nat) (name : String)
    (node : Node) : Result SaveManifest :=
  match node, validateManifestId name with
  | .dir entries, .ok () => do
    validateManifestDirectory entries
    let bytes ← readBoundedFile (lookup entries "manifest.json") maxManifestBytes "manifest"
    if P.sha256 bytes ≠ name then
      throw (incomplete "local cloud manifest identity is invalid")
    match P.decodeManifest bytes with
    | none => throw (incomplete "local cloud manifest is incomplete")
    | some manifest =>
      validateManifest name steamId64 appId manifest
      validateManifestBlobs (lookup entries "blobs") manifest.files
      return manifest
  | _, _ => throw (incomplete "local cloud manifest namespace is incomplete")

/-! ## Resolving the app -/

/-- Manifests by id. -/
abbrev Manifests := Std.ExtTreeMap String SaveManifest compare

def collectLoop (P : Platform) (steamId64 : String) (appId : Nat) :
    List Entry → Manifests → Result Manifests
  | [], manifests => return manifests
  | (.opaqueBytes _, _) :: _, _ =>
    throw (incomplete "local cloud manifest name is not UTF-8")
  | (.utf8 name, node) :: rest, manifests =>
    if isNonManifestAppEntry name then collectLoop P steamId64 appId rest manifests
    else if manifests.size ≥ maxManifestObjects then
      throw (permanent "too many local cloud manifests")
    else do
      let manifest ← readManifest P steamId64 appId name node
      if name ∈ manifests then throw (permanent "duplicate local cloud manifest identity")
      collectLoop P steamId64 appId rest (manifests.insert name manifest)

def collectManifestObjects (P : Platform) (steamId64 : String) (appId : Nat) (dir : AppDir) :
    Result Manifests :=
  collectLoop P steamId64 appId dir.entries ∅

/-- Every id some manifest names as a parent. -/
def referenced (manifests : Manifests) : List String :=
  manifests.toList.flatMap fun entry => entry.2.parents

/-- The ids no manifest names as a parent, in ascending order. -/
def headIds (manifests : Manifests) : List String :=
  manifests.keys.filter fun id => !(referenced manifests).contains id

def maxRevision (manifests : Manifests) : Nat :=
  manifests.toList.foldl (fun revision entry => max revision entry.2.revision) 0

structure ResolvedApp where
  manifests : Manifests
  heads : List String
  maxRevision : Nat

def ResolvedApp.of (manifests : Manifests) : ResolvedApp :=
  ⟨manifests, headIds manifests, Local.maxRevision manifests⟩

/-- `ResolvedApp::current`: the only head, or none yet. -/
def ResolvedApp.current (resolved : ResolvedApp) : Result (Option (String × SaveManifest)) :=
  match resolved.heads with
  | [] => return none
  | [id] => return resolved.manifests[id]?.map fun manifest => (id, manifest)
  | _ => throw (conflict "local cloud has unresolved manifest heads")

/-- An open folder: its path, the account it is opened for, and the identity of
the process-wide coordination that serialises its users. -/
structure FolderStore where
  root : String
  account : Option String
  coordination : Nat
  deriving DecidableEq, Repr

def FolderStore.manifestAccount (store : FolderStore) : Result String :=
  match store.account with
  | some account => return account
  | none => throw (permanent "local cloud save store requires an account")

def FolderStore.manifestScope (store : FolderStore) (appId : Nat) : String :=
  match store.account with
  | some account => s!"{account}/{appId}"
  | none => toString appId

def resolveApp (P : Platform) (store : FolderStore) (appId : Nat) (dir : AppDir) :
    Result ResolvedApp := do
  validateAppId appId
  let account ← store.manifestAccount
  let manifests ← collectManifestObjects P account appId dir
  return .of manifests

/-! ## Views -/

structure ManifestCandidate where
  id : String
  revision : Nat
  clientId : Nat
  machineName : String
  createdAtMs : Nat
  fileCount : Nat
  totalBytes : Nat
  fileNames : List String
  deriving DecidableEq, Repr

structure StoreView where
  currentChangeNumber : Option Nat
  maxRevision : Nat
  heads : List ManifestCandidate
  deriving DecidableEq, Repr

def StoreView.headIds (view : StoreView) : List String := view.heads.map (·.id)

def u64Max : Nat := 2 ^ 64 - 1

/-- The saturating byte total of a version. -/
def totalBytes (files : Files) : Nat :=
  files.toList.foldl (fun total file => min u64Max (total + file.2.rawSize)) 0

def manifestCandidate (id : String) (manifest : SaveManifest) : ManifestCandidate where
  id := id
  revision := manifest.revision
  clientId := manifest.clientId
  machineName := manifest.machineName
  createdAtMs := manifest.createdAtMs
  fileCount := manifest.files.size
  totalBytes := Local.totalBytes manifest.files
  fileNames := manifest.files.keys.take 8

def ResolvedApp.changeNumber (resolved : ResolvedApp) : Option Nat :=
  match resolved.heads with
  | [] => some 0
  | [id] => resolved.manifests[id]?.map (·.revision)
  | _ => none

def ResolvedApp.view (resolved : ResolvedApp) : StoreView where
  currentChangeNumber := resolved.changeNumber
  maxRevision := resolved.maxRevision
  heads := resolved.heads.filterMap fun id =>
    resolved.manifests[id]?.map (manifestCandidate id)

def view (P : Platform) (store : FolderStore) (appId : Nat) (dir : AppDir) :
    Result StoreView := do
  let resolved ← resolveApp P store appId dir
  return resolved.view

end VaporForge.Local
