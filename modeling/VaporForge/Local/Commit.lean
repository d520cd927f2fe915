import VaporForge.Local.Held
import VaporForge.Local.Operation

/-!
# What beginning and committing do

An operation that begins is tied to the heads it found: they are what it expects
at the end, what its manifest will name as parents, and where its files come from
(`beginOperationWithRevision_eq_ok`).

`commit_operation` is a long function with many ways out. Seen from the folder it
does one of two things, and `commitOperation_cases` says which:

> it leaves the folder as it is, or it adds one directory under a name that held no
> manifest; and the reader accepts that directory and reads back the very manifest
> that was written.

The second half is the writer's side of every check the reader makes: the pruned
and verified work directory has exactly the blobs the new file map names, at
their sizes, so `validate_manifest_blobs` finds what it expects.
-/

namespace VaporForge.Local

open VaporForge.CloudCore
open Lib

/-! ## The checks, read backwards -/

variable {hash : String} {bytes : Bytes} {appId now revision : Nat} {m : SaveManifest}
  {M : Manifests} {identity : CommitIdentity}

theorem validateBlobHash_eq_ok_iff :
    validateBlobHash hash = .ok () ↔
      ¬ (byteLen hash ≠ 40 ∨ hash ≠ toAsciiLowercase hash ∨ !allAsciiHexDigits hash) := by
  unfold validateBlobHash
  rw [ite_throw_eq_ok, pure_eq_ok]
  exact and_iff_left rfl

theorem operationBlobPath_eq_ok_iff {target : BlobHash} :
    operationBlobPath hash = .ok target ↔ target.1 = hash := by
  unfold operationBlobPath
  constructor
  · intro h
    split at h
    next hok =>
      cases h
      rfl
    next => cases h
  · rintro rfl
    split
    next hok => rfl
    next e he =>
      have hvalid := target.2
      rw [he] at hvalid
      cases hvalid

variable {file : StoredFile} {files' : Files} {baseHeads : List String}
  {resolutionHeads : Option (List String)} {node : Node}

theorem verifyBlobFile_eq_ok_iff {P : Platform} {node : Option Node} :
    verifyBlobFile P node file = .ok () ↔
      file.rawSize ≤ maxSaveFileBytes ∧ ∃ bytes, node = some (.file bytes) ∧
        bytes.length = file.rawSize ∧ P.sha1 bytes = file.sha1 := by
  unfold verifyBlobFile
  rw [ite_throw_eq_ok, Nat.not_lt]
  refine and_congr_right fun _ => ?_
  cases node with
  | none => simp
  | some node =>
    cases node with
    | file bytes => simp
    | dir entries => simp
    | other => simp

/-- The verification loop succeeded for every file. -/
theorem verifyEach_eq_ok_iff {P : Platform} {blobPath : String → Result (Option Node)}
    {files : List (String × StoredFile)} :
    verifyEach P blobPath files = .ok () ↔
      ∀ e ∈ files, validateCloudPath e.1 = .ok () ∧
        ∃ node, blobPath e.2.sha1 = .ok node ∧ verifyBlobFile P node e.2 = .ok () := by
  induction files with
  | nil => simp [verifyEach]
  | cons e files ih =>
    obtain ⟨path, file⟩ := e
    simp only [verifyEach, bind_eq_ok, ih, List.forall_mem_cons]
    constructor
    · rintro ⟨_, hpath, node, hnode, _, hverify, hrest⟩
      exact ⟨⟨hpath, node, hnode, hverify⟩, hrest⟩
    · rintro ⟨⟨hpath, node, hnode, hverify⟩, hrest⟩
      exact ⟨(), hpath, node, hnode, (), hverify, hrest⟩

/-! ## The blobs of a published directory -/

section ReadBack

variable {P : Platform} {files : Files} {op : SaveOperation}

/-- Some file of the version has the blob `hash`. -/
def NamesBlob (files : Files) (hash : String) : Prop :=
  ∃ (path : String) (file : StoredFile), files[path]? = some file ∧ file.sha1 = hash

theorem mem_storedFiles_iff :
    file ∈ storedFiles files ↔ ∃ path : String, files[path]? = some file := by
  simp only [storedFiles, List.mem_map, Prod.exists, exists_eq_right,
    Std.ExtTreeMap.mem_toList_iff_getElem?_eq_some]

/-- A blob name is among the hashes of the files. -/
theorem mem_map_sha1_iff : hash ∈ (storedFiles files).map (·.sha1) ↔ NamesBlob files hash := by
  simp only [List.mem_map, mem_storedFiles_iff, NamesBlob]
  exact ⟨fun ⟨file, ⟨path, hf⟩, hh⟩ => ⟨path, file, hf, hh⟩,
    fun ⟨path, file, hf, hh⟩ => ⟨file, ⟨path, hf⟩, hh⟩⟩

theorem mem_expectedBlobs_iff : hash ∈ expectedBlobs files ↔ NamesBlob files hash := by
  rw [expectedBlobs, mem_collect, List.map_map, ← mem_map_sha1_iff]
  exact or_iff_left Std.ExtTreeMap.not_mem_empty

/-- Files that agree on the size of a blob give it that size. -/
theorem expectedBlobs_getElem? {size : Nat} (hnames : NamesBlob files hash)
    (hsize : ∀ (path : String) (file : StoredFile), files[path]? = some file → file.sha1 = hash → file.rawSize = size)
    : (expectedBlobs files)[hash]? = some size := by
  obtain ⟨n, hn⟩ := mem_iff_exists_getElem?.mp (mem_expectedBlobs_iff.mpr hnames)
  rcases mem_of_getElem?_collect hn with hmem | hempty
  · obtain ⟨file, hfile, heq⟩ := List.mem_map.mp hmem
    obtain ⟨path, hpath⟩ := mem_storedFiles_iff.mp hfile
    cases heq
    rw [hn, hsize path file hpath rfl]
  · simp at hempty

/-- The blob walk accepts files of valid names at their expected sizes. -/
theorem scanBlobs_eq_ok {expected : Std.ExtTreeMap String Nat compare}
    {blobs : List (String × Bytes)} (actual : List String)
    (hvalid : ∀ e ∈ blobs, validateBlobHash e.1 = .ok ())
    (hsize : ∀ e ∈ blobs, expected[e.1]? = some e.2.length) :
    scanBlobs expected (blobs.map fun blob => (.utf8 blob.1, .file blob.2)) actual =
      .ok ((blobs.map Prod.fst).reverse ++ actual) := by
  induction blobs generalizing actual with
  | nil => rfl
  | cons e blobs ih =>
    rw [List.forall_mem_cons] at hvalid hsize
    have hname := validateBlobHash_eq_ok_iff.mp hvalid.1
    simp only [List.map_cons, scanBlobs, if_neg hname, hsize.1]
    rw [if_neg (by simp), ih _ hvalid.2 hsize.2]
    simp

variable {blobs : OperationBlobs}

/-- The pruned blobs are the blobs that a file names. -/
theorem prune_getElem? :
    (blobs.prune files).files[hash]? = some bytes ↔
      blobs.files[hash]? = some bytes ∧ NamesBlob files hash := by
  rw [OperationBlobs.prune, Std.ExtTreeMap.getElem?_filter', Option.filter_eq_some_iff,
    List.contains_iff_mem, mem_map_sha1_iff]

/-- A work directory with exactly the blobs of a file map, at their sizes. -/
structure Complete (files : Files) (blobs : OperationBlobs) : Prop where
  named : ∀ (hash : String) (bytes : Bytes), blobs.files[hash]? = some bytes →
    NamesBlob files hash
  sized : ∀ (path : String) (file : StoredFile), files[path]? = some file →
    ∃ bytes, blobs.files[file.sha1]? = some bytes ∧ bytes.length = file.rawSize

/-- Pruning and verifying leave a complete work directory. -/
theorem complete_of_verified
    (hverify : verifyOperationFiles P { op with blobs := blobs.prune files } files = .ok ()) :
    Complete files (blobs.prune files) := by
  refine ⟨fun hash bytes h => (prune_getElem?.mp h).2, fun path file hfile => ?_⟩
  obtain ⟨_, node, hnode, hblob⟩ := verifyEach_eq_ok_iff.mp hverify (path, file)
    (Std.ExtTreeMap.mem_toList_iff_getElem?_eq_some.mpr hfile)
  simp only [bind_eq_ok, pure_eq_ok, operationBlobPath_eq_ok_iff] at hnode
  obtain ⟨target, htarget, hfound⟩ := hnode
  obtain ⟨_, bytes, hbytes, hlength, _⟩ := verifyBlobFile_eq_ok_iff.mp hblob
  rw [hbytes, OperationBlobs.node, htarget] at hfound
  obtain ⟨bytes', hget, heq⟩ := Option.map_eq_some_iff.mp hfound
  cases heq
  exact ⟨bytes, hget, hlength⟩

theorem Complete.validateManifestBlobs (h : Complete files blobs) :
    validateManifestBlobs (some blobs.toDir) files = .ok () := by
  have hsize : ∀ e ∈ blobs.files.toList, (expectedBlobs files)[e.1]? = some e.2.length := by
    intro e he
    have hget := Std.ExtTreeMap.mem_toList_iff_getElem?_eq_some.mp he
    refine expectedBlobs_getElem? (h.named e.1 e.2 hget) fun path file hfile hsha => ?_
    obtain ⟨bytes, hbytes, hlength⟩ := h.sized path file hfile
    rw [hsha, hget] at hbytes
    rw [← hlength, Option.some.inj hbytes]
  have hscan := scanBlobs_eq_ok [] (fun e he => blobs.valid e.1 (mem_iff_exists_getElem?.mpr
    ⟨e.2, Std.ExtTreeMap.mem_toList_iff_getElem?_eq_some.mp he⟩)) hsize
  have hall : (expectedBlobs files).keys.all
      ((blobs.files.toList.map Prod.fst).reverse ++ []).contains = true := by
    rw [List.all_eq_true]
    intro hash hhash
    rw [Std.ExtTreeMap.mem_keys, mem_expectedBlobs_iff] at hhash
    obtain ⟨path, file, hfile, rfl⟩ := hhash
    obtain ⟨bytes, hbytes, _⟩ := h.sized path file hfile
    rw [List.contains_iff_mem, List.append_nil, List.mem_reverse, List.mem_map]
    exact ⟨(file.sha1, bytes), Std.ExtTreeMap.mem_toList_iff_getElem?_eq_some.mpr hbytes, rfl⟩
  simp only [Local.validateManifestBlobs, OperationBlobs.toDir, bind_eq_ok]
  exact ⟨_, hscan, by rw [hall]; rfl⟩

/-- The reader accepts the directory the writer publishes, and reads the manifest
that was written. -/
theorem readManifest_published (hid : validateManifestId (P.manifestId m) = .ok ())
    (hlength : (P.encodeManifest m).length ≤ maxManifestBytes)
    (hvalid : validateManifest (P.manifestId m) m.steamId64 appId m = .ok ())
    (hblobs : Complete m.files blobs) :
    readManifest P m.steamId64 appId (P.manifestId m)
      (publishedNode (P.encodeManifest m) blobs) = .ok m := by
  refine readManifest_eq_ok_iff.mpr ⟨_, P.encodeManifest m, rfl, hid, rfl, ?_, rfl,
    P.decode_encode m, hvalid, hblobs.validateManifestBlobs⟩
  have hfound : lookup [(.utf8 "manifest.json", .file (P.encodeManifest m)),
      (.utf8 "blobs", blobs.toDir)] "manifest.json" = some (.file (P.encodeManifest m)) := rfl
  rw [hfound, readBoundedFile, if_neg (by omega)]
  rfl

theorem lookup_toDir :
    lookup (blobs.files.toList.map fun blob => (.utf8 blob.1, .file blob.2)) hash =
      blobs.node hash := by
  -- the entries of the work directory form a folder, with one node per name
  have hnd : ((blobs.files.toList.map fun blob =>
      ((.utf8 blob.1, .file blob.2) : Entry)).map Prod.fst).Nodup := by
    have hkeys := (keys_ascending blobs.files).imp ne_of_lt
    rw [← Std.ExtTreeMap.map_fst_toList_eq_keys, List.pairwise_map] at hkeys
    rw [List.map_map, List.nodup_iff_pairwise_ne, List.pairwise_map]
    exact hkeys.imp fun hne heq => hne (FileName.utf8.inj heq)
  have hfind : ∀ node, lookup (blobs.files.toList.map fun blob => (.utf8 blob.1, .file blob.2))
      hash = some node ↔ (.utf8 hash, node) ∈ (⟨_, hnd⟩ : AppDir).entries :=
    fun node => (find_eq_some_iff : (⟨_, hnd⟩ : AppDir).find hash = some node ↔ _)
  refine Option.ext fun node => ?_
  rw [hfind, List.mem_map, OperationBlobs.node, Option.map_eq_some_iff]
  constructor
  · rintro ⟨⟨name, bytes⟩, hmem, heq⟩
    cases heq
    exact ⟨bytes, Std.ExtTreeMap.mem_toList_iff_getElem?_eq_some.mp hmem, rfl⟩
  · rintro ⟨bytes, hget, rfl⟩
    exact ⟨(hash, bytes), Std.ExtTreeMap.mem_toList_iff_getElem?_eq_some.mpr hget, rfl⟩

variable {dir : AppDir}

/-- The blobs of a directory that was moved into place are those of the operation. -/
theorem manifestBlobPath_published {id : String} (hid : manifestDir appId id = .ok ())
    {hash : BlobHash} :
    manifestBlobPath (dir.put id (publishedNode bytes blobs)) appId id hash.1 =
      .ok (blobs.node hash.1) := by
  have hblob : (dir.put id (publishedNode bytes blobs)).blob id hash.1 = blobs.node hash.1 := by
    have hfind : (dir.put id (publishedNode bytes blobs)).find id =
        some (publishedNode bytes blobs) := by
      rw [find_put, if_pos rfl]
    rw [AppDir.blob, hfind]
    exact lookup_toDir
  simp only [manifestBlobPath, bind_eq_ok, pure_eq_ok]
  exact ⟨(), hash.2, (), hid, hblob⟩

/-- What `commit_operation` verified in the work directory, `inspect_gc` finds in the
published one. -/
theorem verifyFiles_published {id : String} (hid : manifestDir appId id = .ok ())
    (hverify : verifyOperationFiles P op files = .ok ()) :
    verifyFiles P (dir.put id (publishedNode bytes op.blobs)) appId id files = .ok () := by
  refine verifyEach_eq_ok_iff.mpr fun e he => ?_
  obtain ⟨hpath, node, hnode, hblob⟩ := verifyEach_eq_ok_iff.mp hverify e he
  simp only [bind_eq_ok, pure_eq_ok, operationBlobPath_eq_ok_iff] at hnode
  obtain ⟨hash, hhash, rfl⟩ := hnode
  rw [← hhash]
  exact ⟨hpath, _, manifestBlobPath_published hid, hblob⟩

end ReadBack

/-! ## The file map of a commit -/

/-- What a commit makes of a path: the last file staged under it, else nothing if it
is deleted, else what the version it starts from has there. -/
def committedFile (files : Files) (staged : List StagedFile) (deleted : List String)
    (path : String) : Option StoredFile :=
  match staged.reverse.find? fun file => file.path == path with
  | some file => some file.stored
  | none => if path ∈ deleted then none else files[path]?

theorem removeDeleted_getElem? {deleted : List String} {files : Files}
    (h : removeDeleted deleted files = .ok files') (path : String) :
    files'[path]? = if path ∈ deleted then none else files[path]? := by
  induction deleted generalizing files with
  | nil =>
    cases h
    rfl
  | cons p deleted ih =>
    simp only [removeDeleted, bind_eq_ok] at h
    obtain ⟨_, _, h⟩ := h
    rw [ih h, Std.ExtTreeMap.getElem?_erase]
    by_cases hp : p = path
    · simp [hp]
    · simp [hp, Ne.symm hp]

theorem overlayStaged_getElem? {staged : List StagedFile} {files : Files}
    (h : overlayStaged staged files = .ok files') (path : String) :
    files'[path]? = match staged.reverse.find? fun file => file.path == path with
      | some file => some file.stored
      | none => files[path]? := by
  induction staged generalizing files with
  | nil =>
    cases h
    rfl
  | cons file staged ih =>
    simp only [overlayStaged, bind_eq_ok] at h
    obtain ⟨_, _, h⟩ := h
    rw [ih h, List.reverse_cons, List.find?_append]
    -- a file staged later under the same path wins
    cases staged.reverse.find? fun file => file.path == path with
    | some later => rfl
    | none =>
      rw [Std.ExtTreeMap.getElem?_insert]
      by_cases hp : file.path = path
      · simp [hp]
      · simp [hp]

/-! ## Beginning -/

/-- The files of the version an ordinary operation starts from: the only head's, or
none when there is no version yet. -/
def StartsFrom (M : Manifests) (heads : List String) (files : Files) : Prop :=
  (heads = [] ∧ files = ∅) ∨
    ∃ (h : String) (m : SaveManifest), heads = [h] ∧ M[h]? = some m ∧ files = m.files

/-- The terms of an operation begun where `M` is held. -/
structure Begun (M : Manifests) (appId : Nat) (resolving : Bool) (op : OperationTerms) : Prop where
  appId : op.appId = appId
  heads : headIds M = op.expectedHeads
  parents : op.parents = op.expectedHeads
  forced : op.forcePublish = resolving
  files : resolving = false → StartsFrom M op.expectedHeads op.originalFiles

theorem current_eq_ok {current : Option (String × SaveManifest)}
    (h : (ResolvedApp.of M).current = .ok current) :
    (headIds M = [] ∧ current = none) ∨
      ∃ (id : String) (m : SaveManifest), headIds M = [id] ∧ M[id]? = some m ∧
        current = some (id, m) := by
  have hheads : (ResolvedApp.of M).heads = headIds M := rfl
  unfold ResolvedApp.current at h
  rw [hheads] at h
  split at h
  next hnil => exact .inl ⟨hnil, (pure_eq_ok.mp h).symm⟩
  next id hone =>
    have hid : id ∈ headIds M := by
      rw [hone]
      exact List.mem_singleton_self id
    obtain ⟨m, hm⟩ := mem_iff_exists_getElem?.mp (mem_headIds_iff.mp hid).1
    have hget : (ResolvedApp.of M).manifests[id]? = some m := hm
    rw [hget] at h
    exact .inr ⟨id, m, hone, hm, (pure_eq_ok.mp h).symm⟩
  next => cases h

theorem selectBase_eq_ok {base : Base} (h : selectBase (.of M) baseHeads resolutionHeads = .ok base)
    :
    base.parents = resolutionHeads.getD baseHeads ∧
      headIds M = resolutionHeads.getD baseHeads ∧
      base.forcePublish = resolutionHeads.isSome ∧
      (resolutionHeads.isSome = false → StartsFrom M baseHeads base.originalFiles) := by
  cases resolutionHeads with
  | some expected =>
    simp only [selectBase, ite_throw_eq_ok, not_or, not_not] at h
    obtain ⟨⟨_, hheads⟩, h⟩ := h
    split at h
    next selected =>
      split at h
      next m hm =>
        cases h
        exact ⟨rfl, hheads, rfl, fun hno => by cases hno⟩
      next => cases h
    next => cases h
  | none =>
    simp only [selectBase, ite_throw_eq_ok, not_not, bind_eq_ok, pure_eq_ok] at h
    obtain ⟨hheads, hfew, current, hcurrent, rfl⟩ := h
    refine ⟨rfl, hheads, rfl, fun _ => ?_⟩
    have hheads' : headIds M = baseHeads := hheads
    rw [← hheads']
    rcases current_eq_ok hcurrent with ⟨hnil, rfl⟩ | ⟨id, m, hone, hm, rfl⟩
    · exact .inl ⟨hnil, rfl⟩
    · exact .inr ⟨id, m, hone, hm, rfl⟩

theorem beginOperationWithRevision_eq_ok {P : Platform} {store : FolderStore} {dir : AppDir}
    {minimumRevision : Nat} {op : SaveOperation}
    (h : beginOperationWithRevision P store dir appId baseHeads resolutionHeads minimumRevision = .ok op)
    :
    ∃ steamId64, store.account = some steamId64 ∧
      Begun (held P steamId64 appId dir) appId resolutionHeads.isSome op.toOperationTerms := by
  simp only [beginOperationWithRevision, bind_eq_ok, pure_eq_ok, resolveApp_eq_ok_iff] at h
  obtain ⟨_, _, resolved, ⟨_, steamId64, hacc, M, hcollect, rfl⟩, base', _, res', hres,
    base, hbase, blobs, _, rfl⟩ := h
  obtain ⟨_, _, rfl⟩ := collectManifestObjects_eq_ok_iff.mp hcollect
  obtain ⟨hparents, hheads, hforced, hfiles⟩ := selectBase_eq_ok hbase
  have hsome : res'.isSome = resolutionHeads.isSome := by
    cases resolutionHeads with
    | none =>
      cases hres
      rfl
    | some heads =>
      simp only [normalizedResolution, bind_eq_ok, pure_eq_ok] at hres
      obtain ⟨heads', _, rfl⟩ := hres
      rfl
  refine ⟨steamId64, hacc, rfl, hheads, hparents, by rw [hforced, hsome], fun hno => ?_⟩
  rw [← hsome] at hno
  have hnone : res' = none := by simpa using hno
  subst hnone
  exact hfiles rfl

/-! ## The two things a commit can do -/

section Cases

variable (P : Platform) (store : FolderStore) (dir : AppDir) (op : SaveOperation)
  (staged : List StagedFile) (deleted : List String)

/-- A commit that got past its checks: the folder reads, its heads are the expected
ones, and `files` is the new file map. -/
structure Planned (steamId64 : String) (files : Files) : Prop where
  account : store.account = some steamId64
  appId : op.appId ≠ 0
  opened : op.closed = false
  reads : collectManifestObjects P steamId64 op.appId dir =
    .ok (held P steamId64 op.appId dir)
  heads : headIds (held P steamId64 op.appId dir) = op.expectedHeads
  files : ∀ path : String, files[path]? = committedFile op.originalFiles staged deleted path

/-- The folder gained the directory of manifest `m`, and nothing else changed. -/
structure Publishes (steamId64 : String) (files : Files) (m : SaveManifest) (node : Node)
    (out : CommitOutcome) : Prop where
  account : m.steamId64 = steamId64
  parents : m.parents = op.parents
  files : m.files = files
  revision : m.revision =
    max (maxRevision (held P steamId64 op.appId dir)) op.minimumRevision + 1
  fresh : dir.find (P.manifestId m) = none
  name : isNonManifestAppEntry (P.manifestId m) = false
  read : readManifest P steamId64 op.appId (P.manifestId m) node = .ok m
  dir : out.dir = dir.put (P.manifestId m) node
  verified : verifyFiles P out.dir op.appId (P.manifestId m) m.files = .ok ()
  result : out.result = .ok m.revision

variable {P store dir op staged deleted}

variable {files : Files} {steamId64 : String}

theorem planCommit_eq_ok {resolved : ResolvedApp}
    (h : planCommit P store dir op staged deleted identity = .ok (resolved, files)) :
    ∃ steamId64, Planned P store dir op staged deleted steamId64 files ∧
      resolved = .of (held P steamId64 op.appId dir) := by
  simp only [planCommit, bind_eq_ok, throw_bind, ite_throw_eq_ok, pure_eq_ok,
    resolveApp_eq_ok_iff, Prod.mk.injEq] at h
  obtain ⟨_, _, _, _, hopen, _, _, resolved', ⟨happ, steamId64, hacc, M, hcollect, rfl⟩,
    hheads, files₁, hdeleted, files', hstaged, rfl, rfl⟩ := h
  obtain ⟨_, _, rfl⟩ := collectManifestObjects_eq_ok_iff.mp hcollect
  refine ⟨steamId64, ⟨hacc, happ, by simpa using hopen, hcollect, not_not.mp hheads, ?_⟩, rfl⟩
  intro path
  rw [overlayStaged_getElem? hstaged, committedFile, removeDeleted_getElem? hdeleted]

/-- A valid manifest id is none of the names the walk passes over. -/
theorem isNonManifestAppEntry_eq_false {id : String} (h : validateManifestId id = .ok ()) :
    isNonManifestAppEntry id = false := by
  by_contra hspecial
  simp only [isNonManifestAppEntry, Bool.not_eq_false, Bool.or_eq_true, beq_iff_eq] at hspecial
  rcases hspecial with (rfl | rfl) | rfl
  · exact absurd h (by decide)
  · exact absurd h (by decide)
  · exact absurd h (by decide)

/-- In a folder that reads, a directory can only be moved to a free name. -/
theorem rename_eq_ok {id : String} {dir' : AppDir}
    (hreads : ∀ entry ∈ dir.entries, Reads P steamId64 appId entry)
    (hname : isNonManifestAppEntry id = false) (h : dir.rename id node = .ok dir') :
    dir.find id = none ∧ dir' = dir.put id node := by
  unfold AppDir.rename at h
  split at h
  next hnone =>
    rw [pure_eq_ok] at h
    exact ⟨hnone, h.symm⟩
  next hempty =>
    -- an empty directory has no manifest in it, so it would not have read
    rcases hreads _ (find_eq_some_iff.mp hempty) with hspecial | ⟨m, hm⟩
    · rw [hname] at hspecial
      cases hspecial
    · obtain ⟨entries, _, heq, _, hdir, _⟩ := readManifest_eq_ok_iff.mp hm
      cases heq
      cases hdir
  next => cases h
  next => cases h

theorem manifestAccount_eq_ok_iff :
    store.manifestAccount = .ok steamId64 ↔ store.account = some steamId64 := by
  unfold FolderStore.manifestAccount
  cases store.account <;> simp

theorem draftManifest_eq_ok (hacc : store.account = some steamId64)
    (h : draftManifest store op files identity now revision = .ok m) :
    m.steamId64 = steamId64 ∧ m.parents = op.parents ∧ m.files = files ∧
      m.revision = revision + 1 := by
  simp only [draftManifest, bind_eq_ok, throw_bind, ite_throw_eq_ok, pure_eq_ok,
    manifestAccount_eq_ok_iff] at h
  obtain ⟨_, account, hacc', rfl⟩ := h
  rw [hacc] at hacc'
  exact ⟨(Option.some.inj hacc').symm, rfl, rfl, rfl⟩

theorem checkDraft_eq_ok (h : checkDraft P op m = .ok ()) :
    (P.encodeManifest m).length ≤ maxManifestBytes ∧
      validateManifest (P.manifestId m) m.steamId64 op.appId m = .ok () := by
  simp only [checkDraft, throw_bind, ite_throw_eq_ok, Nat.not_lt] at h
  exact h

theorem atomicPublish_eq_ok {existing : Option Bytes} {bytes' : Bytes}
    (h : atomicPublish existing bytes = .ok bytes') : bytes' = bytes := by
  unfold atomicPublish at h
  split at h
  next => exact (pure_eq_ok.mp h).symm
  next old =>
    split at h
    next heq => rw [← pure_eq_ok.mp h, heq]
    next => cases h

/-- The publishing half, on a work directory that is complete for `files`. -/
theorem publishOperation_cases (hplan : Planned P store dir op staged deleted steamId64 files)
    (hblobs : Complete files op.blobs) (hverify : verifyOperationFiles P op files = .ok ()) :
    let out := publishOperation P now store dir op files identity
      (max (maxRevision (held P steamId64 op.appId dir)) op.minimumRevision)
    (∃ e, out.result = .error e ∧ out.dir = dir) ∨
      ∃ m node, Publishes P dir op steamId64 files m node out := by
  intro out
  have hout : out = publishOperation P now store dir op files identity
    (max (maxRevision (held P steamId64 op.appId dir)) op.minimumRevision) := rfl
  clear_value out
  unfold publishOperation at hout
  split at hout
  next e _ => exact .inl ⟨e, by rw [hout], by rw [hout]⟩
  next m hdraft =>
  split at hout
  next e _ => exact .inl ⟨e, by rw [hout], by rw [hout]⟩
  next hcheck =>
  split at hout
  next e _ => exact .inl ⟨e, by rw [hout], by rw [hout]⟩
  next bytes hbytes =>
  dsimp only at hout
  split at hout
  next e _ => exact .inl ⟨e, by rw [hout], by rw [hout]⟩
  next dir' hmoved =>
  -- every check passed and the directory was moved into place
  obtain ⟨rfl, hparents, rfl, hrevision⟩ := draftManifest_eq_ok hplan.account hdraft
  obtain ⟨hlength, hvalid⟩ := checkDraft_eq_ok hcheck
  obtain rfl := atomicPublish_eq_ok hbytes
  simp only [AppDir.moveIntoPlace, bind_eq_ok] at hmoved
  obtain ⟨_, hplace, hrename⟩ := hmoved
  have hid : validateManifestId (P.manifestId m) = .ok () := by
    simp only [manifestDir, bind_eq_ok] at hplace
    obtain ⟨_, _, hid⟩ := hplace
    exact hid
  have hname := isNonManifestAppEntry_eq_false hid
  have hreads := (collectManifestObjects_eq_ok_iff.mp hplan.reads).1
  obtain ⟨hfresh, rfl⟩ := rename_eq_ok hreads hname hrename
  have hverified : verifyFiles P (dir.put (P.manifestId m)
      (publishedNode (P.encodeManifest m) op.blobs)) op.appId (P.manifestId m) m.files = .ok () :=
    verifyFiles_published hplace hverify
  exact .inr ⟨m, _, rfl, hparents, rfl, hrevision, hfresh, hname,
    readManifest_published hid hlength hvalid hblobs, by rw [hout], by rw [hout]; exact hverified,
    by rw [hout]⟩

theorem publishOperation_terms :
    (publishOperation P now store dir op files identity revision).operation.toOperationTerms =
      op.toOperationTerms := by
  unfold publishOperation
  dsimp only
  repeat' split
  all_goals rfl

theorem commitOperation_terms :
    (commitOperation P now store dir op staged deleted identity).operation.toOperationTerms =
      op.toOperationTerms := by
  unfold commitOperation
  dsimp only
  split
  · rfl
  split
  · rfl
  split
  · split
    · rfl
    · rfl
  · exact publishOperation_terms

/-- **A commit fails, changes nothing, or publishes one manifest.** -/
theorem commitOperation_cases (P : Platform) (now : Nat) (store : FolderStore) (dir : AppDir)
    (op : SaveOperation) (staged : List StagedFile) (deleted : List String)
    (identity : CommitIdentity) :
    let out := commitOperation P now store dir op staged deleted identity
    (∃ e, out.result = .error e ∧ out.dir = dir) ∨
      ∃ steamId64 files, Planned P store dir op staged deleted steamId64 files ∧
        ((files = op.originalFiles ∧ op.forcePublish = false ∧ out.dir = dir ∧
            ∃ n, out.result = .ok n) ∨
          ((files ≠ op.originalFiles ∨ op.forcePublish = true) ∧
            ∃ m node, Publishes P dir op steamId64 files m node out)) := by
  intro out
  have hout : out = commitOperation P now store dir op staged deleted identity := rfl
  clear_value out
  unfold commitOperation at hout
  split at hout
  next e _ => exact .inl ⟨e, by rw [hout], by rw [hout]⟩
  next resolved files hplan =>
  obtain ⟨steamId64, hplanned, rfl⟩ := planCommit_eq_ok hplan
  dsimp only at hout
  split at hout
  next e _ => exact .inl ⟨e, by rw [hout], by rw [hout]⟩
  next hverify =>
  have hblobs := complete_of_verified hverify
  split at hout
  next hsame =>
    split at hout
    next e _ => exact .inl ⟨e, by rw [hout], by rw [hout]⟩
    next current _ =>
      refine .inr ⟨steamId64, files, hplanned, .inl ⟨hsame.1, by simpa using hsame.2, ?_⟩⟩
      exact ⟨by rw [hout], _, by rw [hout]⟩
  next hchanged =>
    have hplanned' : Planned P store dir { op with blobs := op.blobs.prune files } staged
        deleted steamId64 files := ⟨hplanned.account, hplanned.appId, hplanned.opened,
      hplanned.reads, hplanned.heads, hplanned.files⟩
    rcases publishOperation_cases hplanned' hblobs hverify with ⟨e, he, hdir⟩ | ⟨m, node, hpub⟩
    · exact .inl ⟨e, by rw [hout]; exact he, by rw [hout]; exact hdir⟩
    · refine .inr ⟨steamId64, files, hplanned, .inr ⟨?_, m, node, ?_⟩⟩
      · by_contra hno
        push Not at hno
        exact hchanged ⟨hno.1, by simpa using hno.2⟩
      · rw [hout]
        exact ⟨hpub.account, hpub.parents, hpub.files, hpub.revision, hpub.fresh, hpub.name,
          hpub.read, hpub.dir, hpub.verified, hpub.result⟩

end Cases

/-! ## What a commit does not look at

A commit reads the folder through its heads, the greatest revision and the current
version, and then needs one free name. Two folders that agree on these give the
same result. -/

section Same

variable {P : Platform} {store : FolderStore} {dir dir' : AppDir} {op : SaveOperation}

theorem moveIntoPlace_of_find (hfind : ∀ id, dir'.find id = dir.find id ∨ dir'.find id = none)
    {id : String} {moved : AppDir} (h : dir.moveIntoPlace appId id node = .ok moved) :
    ∃ moved', dir'.moveIntoPlace appId id node = .ok moved' := by
  simp only [AppDir.moveIntoPlace, bind_eq_ok] at h ⊢
  obtain ⟨_, hid, hrename⟩ := h
  refine ⟨dir'.put id node, (), hid, ?_⟩
  unfold AppDir.rename at hrename ⊢
  rcases hfind id with hsame | hnone
  · rw [hsame]
    split at hrename
    next => rfl
    next => rfl
    next => cases hrename
    next => cases hrename
  · rw [hnone]
    rfl

variable {n : Nat}

theorem publishOperation_result_of_find
    (hfind : ∀ id, dir'.find id = dir.find id ∨ dir'.find id = none) {files : Files}
    (h : (publishOperation P now store dir op files identity revision).result = .ok n) :
    (publishOperation P now store dir' op files identity revision).result = .ok n := by
  unfold publishOperation at h ⊢
  split at h
  next => cases h
  next m hdraft =>
  split at h
  next => cases h
  next hcheck =>
  split at h
  next => cases h
  next bytes hbytes =>
  dsimp only at h
  split at h
  next => cases h
  next moved hmoved =>
  obtain ⟨moved', hmoved'⟩ := moveIntoPlace_of_find hfind hmoved
  simp only [hmoved']
  exact h

theorem commitOperation_result_of_same {M' : Manifests}
    (hres : resolveApp P store op.appId dir = .ok (.of M))
    (hres' : resolveApp P store op.appId dir' = .ok (.of M')) (hheads : headIds M' = headIds M)
    (hmax : maxRevision M' = maxRevision M)
    (hcurrent : (ResolvedApp.of M').current = (ResolvedApp.of M).current)
    (hfind : ∀ id, dir'.find id = dir.find id ∨ dir'.find id = none) {staged : List StagedFile}
    {deleted : List String}
    (h : (commitOperation P now store dir op staged deleted identity).result = .ok n) :
    (commitOperation P now store dir' op staged deleted identity).result = .ok n := by
  unfold commitOperation at h ⊢
  split at h
  next => cases h
  next resolved files hplan =>
  have hplan' : planCommit P store dir' op staged deleted identity = .ok (.of M', files) ∧
      resolved = .of M := by
    simp only [planCommit, bind_eq_ok, throw_bind, ite_throw_eq_ok, pure_eq_ok, hres, hres',
      Prod.mk.injEq] at hplan ⊢
    obtain ⟨_, h₁, _, h₂, h₃, _, h₄, resolved', hr, h₅, files₁, h₆, files₂, h₇, rfl, rfl⟩ := hplan
    cases hr
    refine ⟨⟨(), h₁, (), h₂, h₃, (), h₄, _, rfl, ?_, files₁, h₆, files₂, h₇, rfl, rfl⟩, rfl⟩
    exact fun hne => h₅ fun heq => hne (hheads.trans heq)
  obtain ⟨hplan', rfl⟩ := hplan'
  have hrevision : (ResolvedApp.of M').maxRevision = (ResolvedApp.of M).maxRevision := hmax
  rw [hplan']
  dsimp only at h ⊢
  rw [hcurrent, hrevision]
  split at h
  next => cases h
  next =>
  split at h
  next hsame =>
    rw [if_pos hsame]
    split at h
    next => cases h
    next => exact h
  next hsame =>
    rw [if_neg hsame]
    exact publishOperation_result_of_find hfind h

end Same

end VaporForge.Local
