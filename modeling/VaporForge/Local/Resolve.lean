import VaporForge.Local.ReadBack

/-!
# Resolving a conflict

A conflict is resolved by an operation over all the heads: it starts from the files of
the selected version and its manifest names every head as a parent. The folder may
change while a resolution is under way, since `begin_operation` and `commit_operation`
take the lock one after the other (inside `resolve_to_manifest` too), so `before` and
`found` below are the folder at the two moments.

> A resolution that succeeds leaves one head over exactly the heads it expected, and
> one that finds other heads at either moment leaves the folder alone
> (`resolution_replaces_heads`). What happened in between is not seen
> (`heads_changed_and_back`).

> The selected version is looked up among *all* manifests, so a superseded one passes
> for a head as long as it is on disk (`selects_head_iff`).
-/

namespace VaporForge.Local

open VaporForge.CloudCore
open Lib

/-! ## Head ids as a caller gives them -/

variable {ids heads : List String}

/-- What is not refused as a repetition is only sorted. -/
theorem normalizedHeadIds_eq_ok (h : normalizedHeadIds ids = .ok heads) :
    heads = ids.insertionSort (· ≤ ·) := by
  unfold normalizedHeadIds at h
  simp only [ite_throw_eq_ok, pure_eq_ok, not_not] at h
  obtain ⟨_, hlength, rfl⟩ := h
  refine (List.destutter_sublist _ _).eq_of_length ?_
  rw [hlength, List.length_insertionSort]

theorem mem_normalizedHeadIds (h : normalizedHeadIds ids = .ok heads) (id : String) :
    id ∈ heads ↔ id ∈ ids := by
  rw [normalizedHeadIds_eq_ok h, List.mem_insertionSort]

/-- Ascending ids that are well formed are taken as they are. -/
theorem normalizedHeadIds_of_ascending (hsorted : ids.Pairwise (· < ·))
    (hvalid : ∀ id ∈ ids, validateManifestId id = .ok ()) : normalizedHeadIds ids = .ok ids := by
  have hwellformed : ¬ (ids.any fun id => byteLen id != 64 || !allAsciiHexDigits id) = true := by
    intro hany
    obtain ⟨id, hid, hbad⟩ := List.any_eq_true.mp hany
    have hok := hvalid id hid
    unfold validateManifestId at hok
    simp only [ite_throw_eq_ok, not_or, not_not] at hok
    simp [hok.1.1, hok.1.2.2] at hbad
  have hsort : ids.insertionSort (· ≤ ·) = ids :=
    List.Pairwise.insertionSort_eq (hsorted.imp le_of_lt)
  have hdistinct : ids.destutter (· ≠ ·) = ids :=
    (List.destutter_eq_self_iff _ _).mpr (hsorted.imp ne_of_lt).isChain
  unfold normalizedHeadIds
  rw [if_neg hwellformed, hsort, hdistinct, if_neg (by simp)]
  rfl

/-! ## A resolution, from its decision to its commit -/

section Spec

variable (P : Platform) (store : FolderStore) (appId : Nat)

/-- Any calls made on an operation since it was begun. -/
inductive Continues (op : SaveOperation) : SaveOperation → Prop
  | begun : Continues op op
  | staged {op₁ op₂ : SaveOperation} {path : String} {contents : Bytes}
      {metadata : FileMetadata} {file : StagedFile} : Continues op op₁ →
      stageFile P store op₁ path contents metadata = .ok (op₂, file) → Continues op op₂
  | committed {op₁ : SaveOperation} (now : Nat) (dir : AppDir) (staged : List StagedFile)
      (deleted : List String) (identity : CommitIdentity) : Continues op op₁ →
      Continues op (commitOperation P now store dir op₁ staged deleted identity).operation
  | aborted {op₁ op₂ : SaveOperation} : Continues op op₁ →
      abortOperation store op₁ = .ok op₂ → Continues op op₂

/-- `resolve_to_manifest` where the folder changes between its two halves. -/
def resolveToManifestOver (now : Nat) (before found : AppDir) (expectedHeads : List String)
    (selectedHead : String) (identity : CommitIdentity) (minimumRevision : Nat) :
    AppDir × Result Nat :=
  let begun : Result SaveOperation := do
    validateAppId appId
    validateIdentity identity
    let expectedHeads ← normalizedHeadIds expectedHeads
    beginOperationWithRevision P store before appId [selectedHead] (some expectedHeads)
      minimumRevision
  match begun with
  | .error e => (found, .error e)
  | .ok op =>
    let out := commitOperation P now store found op [] [] identity
    (out.dir, out.result)

/-- A resolution over `expectedHeads`, begun on `before` and committed on `found`, with
the folder it leaves and its result. -/
inductive Resolves (expectedHeads : List String) (selectedHead : String) (minimumRevision : Nat)
    (before found : AppDir) :
    List StagedFile → List String → AppDir → Result Nat → Prop
  | refused {e : BackendError} {staged : List StagedFile} {deleted : List String} :
      beginOperationWithRevision P store before appId [selectedHead] (some expectedHeads)
        minimumRevision = .error e →
      Resolves expectedHeads selectedHead minimumRevision before found staged deleted found
        (.error e)
  | committed {op op' : SaveOperation} (now : Nat) (staged : List StagedFile)
      (deleted : List String) (identity : CommitIdentity) :
      beginOperationWithRevision P store before appId [selectedHead] (some expectedHeads)
        minimumRevision = .ok op → Continues P store op op' →
      Resolves expectedHeads selectedHead minimumRevision before found staged deleted
        (commitOperation P now store found op' staged deleted identity).dir
        (commitOperation P now store found op' staged deleted identity).result
  | direct (now : Nat) (identity : CommitIdentity) :
      Resolves expectedHeads selectedHead minimumRevision before found [] []
        (resolveToManifestOver P store appId now before found expectedHeads selectedHead identity
          minimumRevision).1
        (resolveToManifestOver P store appId now before found expectedHeads selectedHead identity
          minimumRevision).2

/-- The heads of a folder, as a set, are those a caller was shown. -/
def ShowsHeads (dir : AppDir) (expectedHeads : List String) : Prop :=
  ∀ id, id ∈ headIds (store.held P appId dir) ↔ id ∈ expectedHeads

/-- One manifest was added, over the expected heads. -/
structure ReplacesHeads (expectedHeads : List String) (selectedHead : String)
    (minimumRevision : Nat) (before found : AppDir) (staged : List StagedFile)
    (deleted : List String) (after : AppDir) (revision : Nat) (id : String) (m : SaveManifest) :
    Prop where
  added : store.held P appId after = (store.held P appId found).insert id m
  fresh : id ∉ store.held P appId found
  heads : headIds (store.held P appId after) = [id]
  parents : ∀ p, p ∈ m.parents ↔ p ∈ expectedHeads
  revision : m.revision = revision
  newest : ∀ (other : String) (m' : SaveManifest),
    (store.held P appId found)[other]? = some m' → m'.revision < m.revision
  above : minimumRevision < m.revision
  files : ∃ selected, (store.held P appId before)[selectedHead]? = some selected ∧
    ∀ path : String, m.files[path]? = committedFile selected.files staged deleted path

end Spec

variable {P : Platform} {store : FolderStore} {appId : Nat}

theorem Continues.terms {op op' : SaveOperation} (h : Continues P store op op') :
    op'.toOperationTerms = op.toOperationTerms := by
  induction h with
  | begun => rfl
  | staged _ hstage ih => exact (stageFile_terms hstage).trans ih
  | committed now dir staged deleted identity _ ih => exact commitOperation_terms.trans ih
  | aborted _ habort ih =>
    simp only [abortOperation, bind_eq_ok, pure_eq_ok] at habort
    obtain ⟨_, _, rfl⟩ := habort
    exact ih

/-- The terms of a resolution that was begun. -/
structure BegunResolution (P : Platform) (store : FolderStore) (appId : Nat)
    (expectedHeads : List String) (selectedHead : String) (minimumRevision : Nat)
    (before : AppDir) (op : OperationTerms) : Prop where
  app : op.appId = appId
  expected : ∀ id, id ∈ op.expectedHeads ↔ id ∈ expectedHeads
  shown : headIds (store.held P appId before) = op.expectedHeads
  parents : op.parents = op.expectedHeads
  forced : op.forcePublish = true
  minimum : op.minimumRevision = minimumRevision
  files : ∃ selected, (store.held P appId before)[selectedHead]? = some selected ∧
    op.originalFiles = selected.files

theorem begunResolution {before : AppDir} {expectedHeads : List String} {selectedHead : String}
    {minimumRevision : Nat} {op : SaveOperation}
    (h : beginOperationWithRevision P store before appId [selectedHead] (some expectedHeads)
      minimumRevision = .ok op) :
    BegunResolution P store appId expectedHeads selectedHead minimumRevision before
      op.toOperationTerms := by
  obtain ⟨steamId64, hacc, hbegun⟩ := beginOperationWithRevision_eq_ok h
  have hfiles := resolution_originalFiles h
  simp only [beginOperationWithRevision, bind_eq_ok, pure_eq_ok, normalizedResolution] at h
  obtain ⟨_, _, _, _, _, _, _, ⟨heads, hheads, rfl⟩, _, _, _, _, rfl⟩ := h
  refine ⟨rfl, mem_normalizedHeadIds hheads, ?_, hbegun.parents, hbegun.forced, rfl, hfiles⟩
  rw [held_of_account hacc]
  exact hbegun.heads

section Commit

variable {expectedHeads : List String} {selectedHead : String} {minimumRevision : Nat}
  {before found : AppDir} {op : SaveOperation} {now : Nat} {staged : List StagedFile}
  {deleted : List String} {identity : CommitIdentity}

/-- The commit of a resolution publishes over the heads it finds, which are the
expected ones. -/
theorem BegunResolution.commit_eq_ok
    (h : BegunResolution P store appId expectedHeads selectedHead minimumRevision before
      op.toOperationTerms) {revision : Nat}
    (hok : (commitOperation P now store found op staged deleted identity).result = .ok revision)
    (hac : Acyclic (store.held P appId
      (commitOperation P now store found op staged deleted identity).dir)) :
    ∃ id m, ReplacesHeads P store appId expectedHeads selectedHead minimumRevision before found
      staged deleted (commitOperation P now store found op staged deleted identity).dir revision
      id m := by
  obtain rfl := h.app
  rcases commitOperation_cases P now store found op staged deleted identity with
    ⟨e, herr, _⟩ | ⟨steamId64, files, hplan, ⟨_, hforced, _⟩ | ⟨_, m, node, hpub⟩⟩
  · rw [hok] at herr
    cases herr
  · -- a resolution always publishes
    rw [h.forced] at hforced
    cases hforced
  have hfits : FitsOver P steamId64 op.appId found (P.manifestId m) node m := by
    refine ⟨hpub.fresh, hpub.name, hpub.read, ?_, hpub.dir ▸ hpub.verified⟩
    rw [hpub.parents, h.parents, hplan.heads]
  have hheld : ∀ dir, store.held P op.appId dir = held P steamId64 op.appId dir :=
    held_of_account hplan.account
  have hadded : store.held P op.appId
      (commitOperation P now store found op staged deleted identity).dir =
      (store.held P op.appId found).insert (P.manifestId m) m := by
    rw [hheld, hheld, hpub.dir, hfits.held]
  have hfresh : P.manifestId m ∉ store.held P op.appId found := by
    rw [hheld]
    exact hfits.not_mem
  rw [hadded] at hac
  have hrevision := hpub.revision
  refine ⟨P.manifestId m, m, hadded, hfresh, ?_, fun p => ?_, ?_, fun other m' hm' => ?_, ?_, ?_⟩
  · rw [hadded]
    refine headIds_insert hfresh ?_ hac
    rw [hheld]
    exact hfits.parents
  · rw [hpub.parents, h.parents]
    exact h.expected p
  · rw [hpub.result] at hok
    exact Except.ok.inj hok
  · rw [hheld] at hm'
    have hle := revision_le_maxRevision hm'
    omega
  · rw [← h.minimum]
    omega
  · obtain ⟨selected, hselected, hfiles⟩ := h.files
    refine ⟨selected, hselected, fun path => ?_⟩
    rw [hpub.files, hplan.files, hfiles]

/-- Other heads at either moment: the commit fails. -/
theorem BegunResolution.commit_refused
    (h : BegunResolution P store appId expectedHeads selectedHead minimumRevision before
      op.toOperationTerms)
    (hchanged : ¬ ShowsHeads P store appId before expectedHeads ∨
      ¬ ShowsHeads P store appId found expectedHeads) :
    (∃ e, (commitOperation P now store found op staged deleted identity).result = .error e) ∧
      (commitOperation P now store found op staged deleted identity).dir = found := by
  obtain rfl := h.app
  have hfound : ∀ steamId64 files, ¬ Planned P store found op staged deleted steamId64 files := by
    intro steamId64 files hplan
    rcases hchanged with hbefore | hnow
    · exact hbefore fun id => h.shown ▸ h.expected id
    · refine hnow fun id => ?_
      rw [held_of_account hplan.account, hplan.heads]
      exact h.expected id
  rcases commitOperation_cases P now store found op staged deleted identity with
    ⟨e, herr, hdir⟩ | ⟨steamId64, files, hplan, _⟩
  · exact ⟨⟨e, herr⟩, hdir⟩
  · exact absurd hplan (hfound steamId64 files)

end Commit

/-- What `resolve_to_manifest` is made of. -/
theorem resolveToManifestOver_cases (P : Platform) (store : FolderStore) (appId now : Nat)
    (before found : AppDir) (expectedHeads : List String) (selectedHead : String)
    (identity : CommitIdentity) (minimumRevision : Nat) :
    (∃ e, resolveToManifestOver P store appId now before found expectedHeads selectedHead identity
        minimumRevision = (found, .error e)) ∨
      ∃ op, BegunResolution P store appId expectedHeads selectedHead minimumRevision before
          op.toOperationTerms ∧
        resolveToManifestOver P store appId now before found expectedHeads selectedHead identity
            minimumRevision =
          ((commitOperation P now store found op [] [] identity).dir,
            (commitOperation P now store found op [] [] identity).result) := by
  unfold resolveToManifestOver
  dsimp only
  split
  next e _ => exact .inl ⟨e, rfl⟩
  next op hbegun =>
    simp only [bind_eq_ok] at hbegun
    obtain ⟨_, _, _, _, heads, hheads, hbegin⟩ := hbegun
    have hterms := begunResolution hbegin
    refine .inr ⟨op, { hterms with expected := fun id => ?_ }, rfl⟩
    exact (hterms.expected id).trans (mem_normalizedHeadIds hheads id)

/-- **A resolution replaces exactly the heads it was shown**, in a folder where following
parents never leads back to a manifest (ids are digests of content). -/
theorem resolution_replaces_heads (P : Platform) (store : FolderStore) (appId : Nat)
    (expectedHeads : List String) (selectedHead : String) (minimumRevision : Nat)
    (before found after : AppDir) (staged : List StagedFile) (deleted : List String)
    (result : Result Nat)
    (h : Resolves P store appId expectedHeads selectedHead minimumRevision before found staged
      deleted after result) :
    (∀ revision, result = .ok revision → Acyclic (store.held P appId after) →
      ∃ id m, ReplacesHeads P store appId expectedHeads selectedHead minimumRevision before found
        staged deleted after revision id m) ∧
    ((¬ ShowsHeads P store appId before expectedHeads ∨
        ¬ ShowsHeads P store appId found expectedHeads) →
      (∃ e, result = .error e) ∧ after = found) := by
  cases h with
  | @refused e _ _ _ =>
    exact ⟨fun _ hok => absurd hok (by simp), fun _ => ⟨⟨e, rfl⟩, rfl⟩⟩
  | @committed op op' now _ _ identity hbegin hcalls =>
    have hterms := begunResolution hbegin
    rw [← hcalls.terms] at hterms
    exact ⟨fun revision hok hac => hterms.commit_eq_ok hok hac, hterms.commit_refused⟩
  | direct now identity =>
    rcases resolveToManifestOver_cases P store appId now before found expectedHeads selectedHead
      identity minimumRevision with ⟨e, heq⟩ | ⟨op, hterms, heq⟩
    · rw [heq]
      exact ⟨fun _ hok => absurd hok (by simp), fun _ => ⟨⟨e, rfl⟩, rfl⟩⟩
    · rw [heq]
      exact ⟨fun revision hok hac => hterms.commit_eq_ok hok hac, hterms.commit_refused⟩

/-! ## The selected version -/

section Blobs

variable {expected : Std.ExtTreeMap String Nat compare}

variable {entries : List Entry}

/-- The blob walk accepts regular files only, and knows every name it accepted. -/
theorem scanBlobs_inv {actual names : List String}
    (h : scanBlobs expected entries actual = .ok names) :
    (∀ entry ∈ entries, ∃ bytes, entry.2 = .file bytes) ∧
      ∀ name ∈ names, name ∈ actual ∨ ∃ bytes, (.utf8 name, .file bytes) ∈ entries := by
  induction entries generalizing actual with
  | nil =>
    cases h
    exact ⟨fun _ hmem => absurd hmem List.not_mem_nil, fun name hname => .inl hname⟩
  | cons entry entries ih =>
    obtain ⟨name, node⟩ := entry
    cases node with
    | file bytes =>
      cases name with
      | opaqueBytes raw => exact absurd h (by simp [scanBlobs])
      | utf8 name =>
        simp only [scanBlobs, ite_throw_eq_ok] at h
        obtain ⟨_, h⟩ := h
        split at h
        next => exact absurd h (by simp)
        next size _ =>
        simp only [ite_throw_eq_ok] at h
        obtain ⟨hfiles, hnames⟩ := ih h.2
        refine ⟨List.forall_mem_cons.mpr ⟨⟨bytes, rfl⟩, hfiles⟩, fun other hother => ?_⟩
        rcases hnames other hother with hactual | ⟨bytes', hmem⟩
        · rcases List.mem_cons.mp hactual with rfl | hactual
          · exact .inr ⟨bytes, List.mem_cons_self⟩
          · exact .inl hactual
        · exact .inr ⟨bytes', List.mem_cons_of_mem _ hmem⟩
    | dir _ => exact absurd h (by simp [scanBlobs])
    | other => exact absurd h (by simp [scanBlobs])

theorem lookup_of_files (hfiles : ∀ entry ∈ entries, ∃ bytes, entry.2 = .file bytes) {name : String}
    {node : Node} (hmem : (.utf8 name, node) ∈ entries) :
    ∃ bytes, lookup entries name = some (.file bytes) := by
  have hsome : (entries.find? fun entry => entry.1 == .utf8 name).isSome := by
    rw [List.find?_isSome]
    exact ⟨_, hmem, beq_self_eq_true _⟩
  obtain ⟨entry, hentry⟩ := Option.isSome_iff_exists.mp hsome
  obtain ⟨bytes, hbytes⟩ := hfiles entry (List.mem_of_find?_eq_some hentry)
  refine ⟨bytes, ?_⟩
  rw [lookup, hentry, Option.map_some, hbytes]

theorem validateManifestFiles_hash {files : List (String × StoredFile)}
    {sizes : Std.ExtTreeMap String Nat compare} (h : validateManifestFiles sizes files = .ok ()) :
    ∀ entry ∈ files, validateBlobHash entry.2.sha1 = .ok () := by
  induction files generalizing sizes with
  | nil => exact fun _ hmem => absurd hmem List.not_mem_nil
  | cons entry files ih =>
    simp only [validateManifestFiles, bind_eq_ok, ite_throw_eq_ok] at h
    obtain ⟨_, _, hfields, _, hrest⟩ := h
    push Not at hfields
    refine List.forall_mem_cons.mpr ⟨validateBlobHash_eq_ok_iff.mpr ?_, ih hrest⟩
    simp [hfields.1, hfields.2.1, ← hfields.2.2.1]

end Blobs

section Selected

variable {steamId64 : String} {dir : AppDir} {id : String} {m : SaveManifest}

theorem validateManifestId_of_held (hm : (held P steamId64 appId dir)[id]? = some m) :
    validateManifestId id = .ok () := by
  obtain ⟨_, _, _, hread⟩ := held_getElem?_iff.mp hm
  obtain ⟨_, _, _, hid, _⟩ := readManifest_eq_ok_iff.mp hread
  exact hid

/-- A manifest that reads has its blobs next to it, as regular files. -/
theorem blob_of_held (hm : (held P steamId64 appId dir)[id]? = some m) {file : StoredFile}
    (hfile : file ∈ storedFiles m.files) :
    validateBlobHash file.sha1 = .ok () ∧
      ∃ bytes, dir.blob id file.sha1 = some (.file bytes) := by
  obtain ⟨node, hnode, _, hread⟩ := held_getElem?_iff.mp hm
  obtain ⟨entries, _, rfl, _, _, _, _, _, hvalid, hblobs⟩ := readManifest_eq_ok_iff.mp hread
  obtain ⟨path, hpath⟩ := mem_storedFiles_iff.mp hfile
  constructor
  · simp only [validateManifest, bind_eq_ok, throw_bind, ite_throw_eq_ok] at hvalid
    obtain ⟨_, _, _, _, _, _, hfiles⟩ := hvalid
    exact validateManifestFiles_hash hfiles (path, file)
      (Std.ExtTreeMap.mem_toList_iff_getElem?_eq_some.mpr hpath)
  · unfold validateManifestBlobs at hblobs
    split at hblobs
    next blobs hdir =>
      simp only [bind_eq_ok, ite_throw_eq_ok] at hblobs
      obtain ⟨names, hscan, hall, _⟩ := hblobs
      obtain ⟨hregular, hnames⟩ := scanBlobs_inv hscan
      have hexpected : file.sha1 ∈ (expectedBlobs m.files).keys :=
        Std.ExtTreeMap.mem_keys.mpr (mem_expectedBlobs_iff.mpr ⟨path, file, hpath, rfl⟩)
      rw [Bool.not_eq_true', Bool.not_eq_false] at hall
      have hname := List.contains_iff_mem.mp (List.all_eq_true.mp hall _ hexpected)
      obtain ⟨bytes, hmem⟩ := (hnames _ hname).resolve_left List.not_mem_nil
      obtain ⟨bytes', hlookup⟩ := lookup_of_files hregular hmem
      refine ⟨bytes', ?_⟩
      unfold AppDir.blob
      rw [find_eq_some_iff.mpr hnode]
      dsimp only
      rw [hdir]
      exact hlookup
    next => cases hblobs

theorem linkBlobs_ok (happ : appId ≠ 0) (hid : validateManifestId id = .ok ())
    (files : List StoredFile)
    (hfiles : ∀ file ∈ files, validateBlobHash file.sha1 = .ok () ∧
      ∃ bytes, dir.blob id file.sha1 = some (.file bytes)) (blobs : OperationBlobs) :
    ∃ linked, linkBlobs dir appId id files blobs = .ok linked := by
  induction files generalizing blobs with
  | nil => exact ⟨blobs, rfl⟩
  | cons file files ih =>
    rw [List.forall_mem_cons] at hfiles
    obtain ⟨⟨hhash, bytes, hblob⟩, hrest⟩ := hfiles
    unfold linkBlobs
    split
    · exact ih hrest blobs
    · have happId : validateAppId appId = .ok () := if_neg happ
      obtain ⟨linked, hlinked⟩ := ih hrest (blobs.insert ⟨file.sha1, hhash⟩ bytes)
      refine ⟨linked, ?_⟩
      simp only [bind_eq_ok, manifestBlobPath, manifestDir, pure_eq_ok]
      refine ⟨_, ⟨(), hhash, (), ⟨(), happId, hid⟩, rfl⟩, ⟨file.sha1, hhash⟩,
        operationBlobPath_eq_ok_iff.mpr rfl, bytes, ?_, hlinked⟩
      rw [hblob]
      rfl

/-- Over two heads or more, a resolution can be begun on any manifest present. -/
theorem begin_resolution_ok {selected : String} (hacc : store.account = some steamId64)
    (happ : appId ≠ 0) (hcollect : collectManifestObjects P steamId64 appId dir =
      .ok (held P steamId64 appId dir))
    (htwo : 2 ≤ (headIds (held P steamId64 appId dir)).length)
    (hselected : selected ∈ held P steamId64 appId dir) (minimumRevision : Nat) :
    ∃ op, beginOperationWithRevision P store dir appId [selected]
      (some (headIds (held P steamId64 appId dir))) minimumRevision = .ok op := by
  obtain ⟨m, hm⟩ := mem_iff_exists_getElem?.mp hselected
  have hresolved : resolveApp P store appId dir = .ok (.of (held P steamId64 appId dir)) :=
    resolveApp_eq_ok_iff.mpr ⟨happ, steamId64, hacc, _, hcollect, rfl⟩
  have hbase : normalizedHeadIds [selected] = .ok [selected] := by
    refine normalizedHeadIds_of_ascending (List.pairwise_singleton _ _) fun id hid => ?_
    rw [List.mem_singleton.mp hid]
    exact validateManifestId_of_held hm
  have hheads : normalizedHeadIds (headIds (held P steamId64 appId dir)) =
      .ok (headIds (held P steamId64 appId dir)) := by
    refine normalizedHeadIds_of_ascending (headIds_ascending _) fun id hid => ?_
    obtain ⟨m', hm'⟩ := mem_iff_exists_getElem?.mp (mem_headIds_iff.mp hid).1
    exact validateManifestId_of_held hm'
  have hselect : selectBase (.of (held P steamId64 appId dir)) [selected]
      (some (headIds (held P steamId64 appId dir))) =
      .ok ⟨headIds (held P steamId64 appId dir), some selected, m.files, true⟩ := by
    have hget : (ResolvedApp.of (held P steamId64 appId dir)).manifests[selected]? = some m := hm
    simp only [selectBase, hget]
    rw [if_neg]
    · rfl
    · rintro (hfew | hne)
      · omega
      · exact hne rfl
  obtain ⟨blobs, hblobs⟩ := linkBlobs_ok happ (validateManifestId_of_held hm)
    (storedFiles m.files) (fun file hfile => blob_of_held hm hfile) .empty
  have happId : validateAppId appId = .ok () := if_neg happ
  simp only [beginOperationWithRevision, bind_eq_ok, normalizedResolution, pure_eq_ok]
  exact ⟨_, (), happId, _, hresolved, _, hbase, _, ⟨_, hheads, rfl⟩, _, hselect, blobs, hblobs, rfl⟩

end Selected

/-- Only one of the conflicting versions can be selected: whichever heads and minimum
are given, neither entry point gets past another one, and nothing is published. -/
structure SelectsHead (P : Platform) (store : FolderStore) (appId : Nat) (dir : AppDir)
    (selected : String) : Prop where
  begun : ∀ expectedHeads minimumRevision op,
    beginOperationWithRevision P store dir appId [selected] (some expectedHeads)
      minimumRevision = .ok op → selected ∈ headIds (store.held P appId dir)
  resolved : ∀ now expectedHeads identity minimumRevision after n,
    resolveToManifest P now store dir appId expectedHeads selected identity minimumRevision =
      (after, .ok n) → selected ∈ headIds (store.held P appId dir)
  unpublished : selected ∉ headIds (store.held P appId dir) →
    ∀ now expectedHeads identity minimumRevision,
      (resolveToManifest P now store dir appId expectedHeads selected identity
        minimumRevision).1 = dir

/-- **When the selected version has to be a head.** Exactly when the folder does not
resolve, has no conflict, or holds no superseded manifest of that id. -/
theorem selects_head_iff (P : Platform) (store : FolderStore) (appId : Nat) (dir : AppDir)
    (selected : String) :
    SelectsHead P store appId dir selected ↔
      ((∃ resolved, resolveApp P store appId dir = .ok resolved) →
        2 ≤ (headIds (store.held P appId dir)).length →
        selected ∈ store.held P appId dir → selected ∈ headIds (store.held P appId dir)) := by
  constructor
  · intro h ⟨resolved, hresolved⟩ htwo hselected
    obtain ⟨happ, steamId64, hacc, M, hcollect, _⟩ := resolveApp_eq_ok_iff.mp hresolved
    obtain ⟨_, _, rfl⟩ := collectManifestObjects_eq_ok_iff.mp hcollect
    rw [held_of_account hacc] at htwo hselected
    obtain ⟨op, hop⟩ := begin_resolution_ok hacc happ hcollect htwo hselected 0
    exact h.begun _ _ op hop
  · intro h
    have hbegun : ∀ expectedHeads minimumRevision op,
        beginOperationWithRevision P store dir appId [selected] (some expectedHeads)
          minimumRevision = .ok op → selected ∈ headIds (store.held P appId dir) := by
      intro expectedHeads minimumRevision op hop
      have hterms := begunResolution hop
      obtain ⟨m, hm, _⟩ := hterms.files
      have hselected := mem_iff_exists_getElem?.mpr ⟨m, hm⟩
      simp only [beginOperationWithRevision, bind_eq_ok, normalizedResolution, pure_eq_ok] at hop
      obtain ⟨_, _, resolved, hresolved, _, _, _, ⟨heads, hheads, rfl⟩, base, hbase, _⟩ := hop
      obtain ⟨happ, steamId64, hacc, M, hcollect, rfl⟩ := resolveApp_eq_ok_iff.mp hresolved
      obtain ⟨_, _, rfl⟩ := collectManifestObjects_eq_ok_iff.mp hcollect
      refine h ⟨_, hresolved⟩ ?_ hselected
      simp only [selectBase, ite_throw_eq_ok, not_or, not_not, Nat.not_lt] at hbase
      have hcurrent : headIds (held P steamId64 appId dir) = heads := hbase.1.2
      rw [held_of_account hacc, hcurrent]
      exact hbase.1.1
    have hresolved : ∀ now expectedHeads identity minimumRevision after n,
        resolveToManifest P now store dir appId expectedHeads selected identity minimumRevision =
          (after, .ok n) → selected ∈ headIds (store.held P appId dir) := by
      intro now expectedHeads identity minimumRevision after n hok
      obtain ⟨heads, op, hop, _⟩ := resolveToManifest_eq_ok hok
      exact hbegun heads minimumRevision op hop
    refine ⟨hbegun, hresolved, fun hnot now expectedHeads identity minimumRevision => ?_⟩
    unfold resolveToManifest
    dsimp only
    split
    · rfl
    · next op hop =>
      simp only [bind_eq_ok] at hop
      obtain ⟨_, _, _, _, heads, _, hbegin⟩ := hop
      exact absurd (hbegun heads minimumRevision op hbegin) hnot

/-! ## A recorded conflict

Two devices uploaded over the second version: the deck the third one, the desktop
another. -/

def otherId : String := "ad9c1a29551513832a476443e8b7e5221da6c37231e649cd8c526ee7abcebdc4"
def chosenId : String := "7a682c7f45fcdaadde3f736e1594cd7388c5fb1efea093c369468cefa0a4d070"
def staleId : String := "f378b980cdfb4e6d72657315630ef2d87a4b9676709257f4500daa456241f1dc"

def otherRow : SaveRow := ⟨3, [secondId], 9, "desktop", 3500, fourthSave, otherId⟩
/-- The resolution that selects the third version. -/
def chosenRow : SaveRow := ⟨4, [thirdId, otherId], 7, "deck", 5000, thirdSave, chosenId⟩
/-- The resolution that selects the second, superseded by both. -/
def staleRow : SaveRow := ⟨4, [thirdId, otherId], 7, "deck", 5000, secondSave, staleId⟩

def forkedVersions : Recording where
  manifests := [firstRow.recorded, secondRow.recorded, thirdRow.recorded, otherRow.recorded,
    chosenRow.recorded, staleRow.recorded]
  blobs := fourVersions.blobs
  distinct := by decide +kernel
  text := by decide +kernel

/-- The directory of a version whose file has these contents. -/
def SaveRow.node (row : SaveRow) (contents : String) : Node :=
  .dir [(.utf8 "manifest.json", .file row.json),
    (.utf8 "blobs", .dir [(.utf8 row.file.sha1, .file (utf8Bytes contents))])]

/-- The two heads; the versions below them are still on their way. -/
def twoHeads : AppDir :=
  (AppDir.empty.put thirdId (thirdRow.node "three")).put otherId (otherRow.node "four")

def oldestArrived : AppDir := twoHeads.put firstId (firstRow.node "one")

def bothArrived : AppDir := oldestArrived.put secondId (secondRow.node "two")

theorem forked_heads :
    headIds (cloudStore.held forkedVersions.platform 480 twoHeads) = [thirdId, otherId] ∧
    headIds (cloudStore.held forkedVersions.platform 480 oldestArrived) =
      [firstId, thirdId, otherId] ∧
    headIds (cloudStore.held forkedVersions.platform 480 bothArrived) = [thirdId, otherId] := by
  decide +kernel

/-- How many versions there are below one. -/
def forkedRank (id : String) : Nat :=
  if id = firstId then 0 else if id = secondId then 1
  else if id = thirdId ∨ id = otherId then 2 else 3

/-- The deck's choice, begun before and committed after the two arrivals. -/
def deckChoice : AppDir × Result Nat :=
  resolveToManifestOver forkedVersions.platform cloudStore 480 5000 twoHeads bothArrived
    [otherId, thirdId] thirdId deck 0

theorem deckChoice_evaluates : deckChoice.2 = .ok 4 ∧
    ∀ e ∈ (cloudStore.held forkedVersions.platform 480 deckChoice.1).toList,
      ∀ p ∈ e.2.parents, forkedRank p < forkedRank e.1 := by
  decide +kernel

theorem deckChoice_resolves : ∃ after,
    Resolves forkedVersions.platform cloudStore 480 [otherId, thirdId] thirdId 0 twoHeads
        bothArrived [] [] after (.ok 4) ∧
      Acyclic (cloudStore.held forkedVersions.platform 480 after) := by
  obtain ⟨hok, hrank⟩ := deckChoice_evaluates
  have hresolves : Resolves forkedVersions.platform cloudStore 480 [otherId, thirdId] thirdId 0
    twoHeads bothArrived [] [] deckChoice.1 deckChoice.2 := .direct 5000 deck
  rw [hok] at hresolves
  exact ⟨deckChoice.1, hresolves, acyclic_of_rank forkedRank hrank⟩

theorem resolution_replaces_heads_of_deck : ∃ after id m,
    ReplacesHeads forkedVersions.platform cloudStore 480 [otherId, thirdId] thirdId 0 twoHeads
      bothArrived [] [] after 4 id m := by
  obtain ⟨after, hresolves, hac⟩ := deckChoice_resolves
  exact ⟨after, (resolution_replaces_heads _ _ _ _ _ _ _ _ _ _ _ _ hresolves).1 4 rfl hac⟩

/-- The oldest version arrives before its child: it is a head for a while, and the
resolution under way does not notice. -/
theorem heads_changed_and_back :
    ShowsHeads forkedVersions.platform cloudStore 480 twoHeads [otherId, thirdId] ∧
    ¬ ShowsHeads forkedVersions.platform cloudStore 480 oldestArrived [otherId, thirdId] ∧
    ∃ after, Resolves forkedVersions.platform cloudStore 480 [otherId, thirdId] thirdId 0 twoHeads
      bothArrived [] [] after (.ok 4) := by
  obtain ⟨hbefore, hbetween, _⟩ := forked_heads
  refine ⟨fun id => ?_, fun hshown => ?_, ?_⟩
  · rw [hbefore, List.mem_pair, List.mem_pair, or_comm]
  · have hfirst : firstId ∈ [otherId, thirdId] := by
      rw [← hshown firstId, hbetween]
      exact List.mem_cons_self
    exact absurd hfirst (by decide +kernel)
  · obtain ⟨after, hresolves, _⟩ := deckChoice_resolves
    exact ⟨after, hresolves⟩

/-- What `resolve_to_manifest` makes of the second version, which is below both heads. -/
def staleChoice : AppDir × Result Nat :=
  resolveToManifest forkedVersions.platform 5000 cloudStore bothArrived 480 [otherId, thirdId]
    secondId deck 0

theorem staleChoice_evaluates : staleChoice.2 = .ok 4 := by decide +kernel

/-- It is selected and published all the same. -/
theorem superseded_selected :
    secondId ∉ headIds (cloudStore.held forkedVersions.platform 480 bothArrived) ∧
    staleChoice.2 = .ok 4 ∧
    ¬ SelectsHead forkedVersions.platform cloudStore 480 bothArrived secondId := by
  have hnot : secondId ∉ headIds (cloudStore.held forkedVersions.platform 480 bothArrived) := by
    rw [forked_heads.2.2]
    decide +kernel
  have hpublished : staleChoice = (staleChoice.1, .ok 4) := by
    rw [← staleChoice_evaluates, Prod.mk.eta]
  refine ⟨hnot, staleChoice_evaluates, fun hselects => hnot ?_⟩
  exact hselects.resolved 5000 [otherId, thirdId] deck 0 staleChoice.1 4 hpublished

end VaporForge.Local
