import VaporForge.Local.ChangeNumber
import VaporForge.Local.Gc

/-!
# Reading back what a commit published

A commit that returns `Ok` should leave an app that `view` and `inspect_gc` accept, with
the new version as a head. The writer checks everything about the new manifest that the
reader checks, but not the folder it goes into:

> what a commit leaves behind can be read back exactly when nothing was published and
> the app could be inspected before, or when fewer than `MAX_MANIFEST_OBJECTS` manifests
> were present, none of them names the new one, and the blobs of the replaced heads
> have their hashes (`commit_reads_back_iff`).

A full folder is one place where it fails: `publish_operation` adds one manifest too many,
and from then on every call on the app fails. A damaged blob of a head that is replaced is
another (`damaged_head_unreadable`).
-/

namespace VaporForge.Local

open VaporForge.CloudCore
open Lib

/-! ## The operations there are -/

section Spec

variable (P : Platform) (store : FolderStore) (appId : Nat)

/-- An operation as a caller can hold it: begun on some state of the app, with any calls
on it since. -/
inductive Obtained : SaveOperation → Prop
  | begun {dir : AppDir} {baseHeads : List String} {resolutionHeads : Option (List String)}
      {minimumRevision : Nat} {op : SaveOperation} :
      beginOperationWithRevision P store dir appId baseHeads resolutionHeads
        minimumRevision = .ok op → Obtained op
  | staged {op op' : SaveOperation} {path : String} {contents : Bytes}
      {metadata : FileMetadata} {file : StagedFile} : Obtained op →
      stageFile P store op path contents metadata = .ok (op', file) → Obtained op'
  | committed {op : SaveOperation} (now : Nat) (dir : AppDir) (staged : List StagedFile)
      (deleted : List String) (identity : CommitIdentity) : Obtained op →
      Obtained (commitOperation P now store dir op staged deleted identity).operation
  | aborted {op op' : SaveOperation} : Obtained op → abortOperation store op = .ok op' →
      Obtained op'

/-- A call that returned `Ok` on `dir` and left `after`; the file map it committed is
given by path. -/
inductive Commits (dir : AppDir) : (String → Option StoredFile) → AppDir → Prop
  | commit {op : SaveOperation} (hop : Obtained P store appId op) {now : Nat}
      {staged : List StagedFile} {deleted : List String} {identity : CommitIdentity} {n : Nat} :
      (commitOperation P now store dir op staged deleted identity).result = .ok n →
      Commits dir (committedFile op.originalFiles staged deleted)
        (commitOperation P now store dir op staged deleted identity).dir
  | resolve {now : Nat} {expectedHeads : List String} {selectedHead : String}
      {identity : CommitIdentity} {minimumRevision n : Nat} {after : AppDir} :
      resolveToManifest P now store dir appId expectedHeads selectedHead identity
        minimumRevision = (after, .ok n) →
      Commits dir
        (fun path => (store.held P appId dir)[selectedHead]?.bind (·.files[path]?)) after

/-- Both readers accept `after`, and what is new there is a head with the committed
file map. -/
structure ReadsBack (committed : String → Option StoredFile) (dir after : AppDir) : Prop where
  view : ∃ v, view P store appId after = .ok v ∧
    ∀ id, dir.find id = none → (after.find id).isSome →
      ∃ m, (store.held P appId after)[id]? = some m ∧ manifestCandidate id m ∈ v.heads ∧
        ∀ path : String, m.files[path]? = committed path
  inspect : ∃ report, inspectGc P store appId after = .ok report

/-- What the writer would have to check, beyond what it does. -/
def Readable (dir after : AppDir) : Prop :=
  (after = dir ∧ ∃ report, inspectGc P store appId dir = .ok report) ∨
    ∃ id node, dir.find id = none ∧ after = dir.put id node ∧
      (store.held P appId dir).size < maxManifestObjects ∧
      (∀ c, ¬ Names (store.held P appId dir) c id) ∧
      ∀ head ∈ headIds (store.held P appId dir), ∀ m,
        (store.held P appId dir)[head]? = some m →
          verifyFiles P dir appId head m.files = .ok ()

end Spec

variable {P : Platform} {store : FolderStore} {appId : Nat}

variable {op : SaveOperation} {now n minimumRevision : Nat} {identity : CommitIdentity}
  {selectedHead : String}

theorem Obtained.terms (h : Obtained P store appId op) :
    op.appId = appId ∧ op.parents = op.expectedHeads := by
  have hcongr : ∀ {t t' : OperationTerms}, t' = t →
      t.appId = appId ∧ t.parents = t.expectedHeads →
      t'.appId = appId ∧ t'.parents = t'.expectedHeads := fun heq => heq ▸ id
  induction h with
  | begun hbegin =>
    obtain ⟨_, _, hbegun⟩ := beginOperationWithRevision_eq_ok hbegin
    exact ⟨hbegun.appId, hbegun.parents⟩
  | staged _ hstage ih => exact hcongr (stageFile_terms hstage) ih
  | committed now dir staged deleted identity _ ih => exact hcongr commitOperation_terms ih
  | aborted _ habort ih =>
    simp only [abortOperation, bind_eq_ok, pure_eq_ok] at habort
    obtain ⟨_, _, rfl⟩ := habort
    exact ih

/-! ## What the readers need -/

section Readers

variable {steamId64 : String} {dir : AppDir} {M : Manifests}

theorem exists_view_iff (hacc : store.account = some steamId64) (happ : appId ≠ 0)
    (hM : M = held P steamId64 appId dir) {v : StoreView} :
    view P store appId dir = .ok v ↔
      collectManifestObjects P steamId64 appId dir = .ok M ∧ v = (ResolvedApp.of M).view := by
  simp only [view, bind_eq_ok, pure_eq_ok, resolveApp_eq_ok_iff, hacc, Option.some.injEq]
  constructor
  · rintro ⟨_, ⟨_, _, rfl, M', hcollect, rfl⟩, rfl⟩
    obtain rfl : M = M' := hM.trans (collectManifestObjects_eq_ok_iff.mp hcollect).2.2.symm
    exact ⟨hcollect, rfl⟩
  · rintro ⟨hcollect, rfl⟩
    exact ⟨.of M, ⟨happ, steamId64, rfl, M, hcollect, rfl⟩, rfl⟩

theorem candidate_mem_view_iff {id : String} {m : SaveManifest} (hm : M[id]? = some m) :
    manifestCandidate id m ∈ (ResolvedApp.of M).view.heads ↔ id ∈ headIds M := by
  constructor
  · intro hmem
    rw [← view_headIds]
    exact List.mem_map.mpr ⟨_, hmem, rfl⟩
  · intro hid
    refine List.mem_filterMap.mpr ⟨id, hid, ?_⟩
    have hget : (ResolvedApp.of M).manifests[id]? = some m := hm
    rw [hget]
    rfl

/-- The blobs of a manifest are looked up in its own directory. -/
theorem verifyFiles_put {id name : String} {node : Node} (hne : id ≠ name) (files : Files) :
    verifyFiles P (dir.put name node) appId id files = verifyFiles P dir appId id files := by
  have hpath : manifestBlobPath (dir.put name node) appId id =
      manifestBlobPath dir appId id := by
    funext hash
    have hblob : (dir.put name node).blob id hash = dir.blob id hash := by
      rw [AppDir.blob, AppDir.blob, find_put, if_neg hne]
    rw [manifestBlobPath, manifestBlobPath, hblob]
  rw [verifyFiles, verifyFiles, hpath]

end Readers

/-! ## The two outcomes -/

section Outcomes

variable {steamId64 : String} {dir : AppDir} {committed : String → Option StoredFile}

theorem put_ne_self {id : String} {node : Node} (hfresh : dir.find id = none) :
    dir.put id node ≠ dir := by
  intro heq
  have hfind : (dir.put id node).find id = some node := by rw [find_put, if_pos rfl]
  rw [heq, hfresh] at hfind
  cases hfind

/-- Nothing was published: the view is as good as it was. -/
theorem readsBack_self_iff (hacc : store.account = some steamId64) (happ : appId ≠ 0)
    (hcollect : collectManifestObjects P steamId64 appId dir =
      .ok (held P steamId64 appId dir)) :
    ReadsBack P store appId committed dir dir ↔ Readable P store appId dir dir := by
  constructor
  · exact fun h => .inl ⟨rfl, h.inspect⟩
  · rintro (⟨_, hinspect⟩ | ⟨id, node, hfresh, heq, _⟩)
    · refine ⟨⟨_, (exists_view_iff hacc happ rfl).mpr ⟨hcollect, rfl⟩, ?_⟩, hinspect⟩
      intro id hnone hsome
      rw [hnone] at hsome
      cases hsome
    · exact absurd heq.symm (put_ne_self hfresh)

/-- A manifest that a commit may publish over the heads of `dir`. -/
structure FitsOver (P : Platform) (steamId64 : String) (appId : Nat) (dir : AppDir)
    (id : String) (node : Node) (m : SaveManifest) : Prop where
  fresh : dir.find id = none
  name : isNonManifestAppEntry id = false
  read : readManifest P steamId64 appId id node = .ok m
  parents : m.parents = headIds (held P steamId64 appId dir)
  verified : verifyFiles P (dir.put id node) appId id m.files = .ok ()

variable {id : String} {node : Node} {m : SaveManifest}

theorem FitsOver.not_mem (h : FitsOver P steamId64 appId dir id node m) :
    id ∉ held P steamId64 appId dir := by
  intro hmem
  obtain ⟨m', hm'⟩ := mem_iff_exists_getElem?.mp hmem
  obtain ⟨node', hnode', _⟩ := held_getElem?_iff.mp hm'
  exact find_eq_none_iff.mp h.fresh node' hnode'

theorem FitsOver.held (h : FitsOver P steamId64 appId dir id node m) :
    held P steamId64 appId (dir.put id node) = (held P steamId64 appId dir).insert id m :=
  held_put h.name h.read

/-- The folder with the new manifest reads unless it was full. -/
theorem FitsOver.collect_iff (h : FitsOver P steamId64 appId dir id node m)
    (hcollect : collectManifestObjects P steamId64 appId dir =
      .ok (Local.held P steamId64 appId dir)) :
    collectManifestObjects P steamId64 appId (dir.put id node) =
        .ok (Local.held P steamId64 appId (dir.put id node)) ↔
      (Local.held P steamId64 appId dir).size < maxManifestObjects := by
  have hreads := (collectManifestObjects_eq_ok_iff.mp hcollect).1
  have hsize : (Local.held P steamId64 appId (dir.put id node)).size =
      (Local.held P steamId64 appId dir).size + 1 := by
    rw [h.held, Std.ExtTreeMap.size_insert]
    exact if_neg h.not_mem
  rw [collectManifestObjects_eq_ok_iff, hsize]
  constructor
  · exact fun ⟨_, hle, _⟩ => hle
  · exact fun hlt => ⟨reads_put hreads h.read, hlt, rfl⟩

theorem FitsOver.headIds_eq (h : FitsOver P steamId64 appId dir id node m)
    (hno : ∀ c, ¬ Names (Local.held P steamId64 appId dir) c id) :
    headIds (Local.held P steamId64 appId (dir.put id node)) = [id] := by
  have hext := extends_insert h.not_mem m
  rw [h.held]
  exact headIds_insert_of_fresh h.not_mem h.parents fun c hc hnames =>
    hno c ((hext.names hc).mp hnames)

/-- It is a head unless one of the others names it. -/
theorem FitsOver.head_iff (h : FitsOver P steamId64 appId dir id node m) :
    id ∈ headIds (Local.held P steamId64 appId (dir.put id node)) ↔
      ∀ c, ¬ Names (Local.held P steamId64 appId dir) c id := by
  constructor
  · rintro hid c ⟨mc, hmc, hparent⟩
    have hmc' := extends_insert h.not_mem m c mc hmc
    rw [h.held] at hid
    exact (mem_headIds_iff.mp hid).2 c (mem_iff_exists_getElem?.mpr ⟨mc, hmc'⟩)
      ⟨mc, hmc', hparent⟩
  · intro hno
    rw [h.headIds_eq hno]
    exact List.mem_singleton_self id

theorem FitsOver.names_iff (h : FitsOver P steamId64 appId dir id node m) (p : String) :
    Names (Local.held P steamId64 appId (dir.put id node)) id p ↔
      p ∈ headIds (Local.held P steamId64 appId dir) := by
  rw [h.held, ← h.parents]
  simp [Names]

theorem FitsOver.getElem?_of_ne (h : FitsOver P steamId64 appId dir id node m) {x : String}
    (hx : x ≠ id) : (Local.held P steamId64 appId (dir.put id node))[x]? =
      (Local.held P steamId64 appId dir)[x]? := by
  rw [h.held, Std.ExtTreeMap.getElem?_insert, if_neg]
  exact fun heq => hx (compare_eq_iff_eq.mp heq).symm

/-- What the readers check in the new folder is what `Readable` asks of the old one. -/
theorem FitsOver.inspect_iff (h : FitsOver P steamId64 appId dir id node m)
    (hacc : store.account = some steamId64) (happ : appId ≠ 0)
    (hcollect : collectManifestObjects P steamId64 appId dir =
      .ok (Local.held P steamId64 appId dir))
    (hhead : id ∈ headIds (Local.held P steamId64 appId (dir.put id node))) :
    (∃ report, inspectGc P store appId (dir.put id node) = .ok report) ↔
      (Local.held P steamId64 appId dir).size < maxManifestObjects ∧
        ∀ head ∈ headIds (Local.held P steamId64 appId dir), ∀ m',
          (Local.held P steamId64 appId dir)[head]? = some m' →
            verifyFiles P dir appId head m'.files = .ok () := by
  have hne : ∀ x ∈ Local.held P steamId64 appId dir, x ≠ id := fun x hx heq =>
    h.not_mem (heq ▸ hx)
  have hold : ∀ x ∈ headIds (Local.held P steamId64 appId dir), x ≠ id := fun x hx =>
    hne x (mem_headIds_iff.mp hx).1
  rw [exists_inspectGc_iff hacc happ rfl, h.collect_iff hcollect]
  refine and_congr_right fun _ => ?_
  constructor
  · intro hverify head hmem m' hm'
    rw [← verifyFiles_put (hold head hmem)]
    rw [← h.getElem?_of_ne (hold head hmem)] at hm'
    -- a head that was replaced is a parent of the new one, and retained as such
    refine hverify head (mem_retainedIds_iff.mpr ⟨?_, .inr ⟨id, hhead, ?_⟩⟩) m' hm'
    · exact mem_iff_exists_getElem?.mpr ⟨m', hm'⟩
    · exact (h.names_iff head).mpr hmem
  · intro hverify x hx m' hm'
    by_cases hxid : x = id
    · subst hxid
      rw [h.held, Std.ExtTreeMap.getElem?_insert_self] at hm'
      cases hm'
      exact h.verified
    · rw [h.getElem?_of_ne hxid] at hm'
      have hsole := h.headIds_eq (h.head_iff.mp hhead)
      rcases (mem_retainedIds_iff.mp hx).2 with hhead' | ⟨head, hhead', hnames⟩
      · rw [hsole] at hhead'
        exact absurd (List.mem_singleton.mp hhead') hxid
      · rw [hsole, List.mem_singleton] at hhead'
        subst hhead'
        rw [verifyFiles_put hxid]
        exact hverify x ((h.names_iff x).mp hnames) m' hm'

/-- A manifest was published. -/
theorem FitsOver.readsBack_iff (h : FitsOver P steamId64 appId dir id node m)
    (hacc : store.account = some steamId64) (happ : appId ≠ 0)
    (hcollect : collectManifestObjects P steamId64 appId dir =
      .ok (Local.held P steamId64 appId dir))
    (hfiles : ∀ path : String, m.files[path]? = committed path) :
    ReadsBack P store appId committed dir (dir.put id node) ↔
      Readable P store appId dir (dir.put id node) := by
  have hfind : (dir.put id node).find id = some node := by rw [find_put, if_pos rfl]
  have hget : (Local.held P steamId64 appId (dir.put id node))[id]? = some m := by
    rw [h.held, Std.ExtTreeMap.getElem?_insert_self]
  have hnew : ∀ x, dir.find x = none → ((dir.put id node).find x).isSome → x = id := by
    intro x hnone hsome
    by_contra hx
    rw [find_put, if_neg hx, hnone] at hsome
    cases hsome
  unfold Readable
  rw [held_of_account hacc]
  constructor
  · rintro ⟨⟨v, hview, hcommitted⟩, hinspect⟩
    obtain ⟨m', hm', hcandidate, _⟩ := hcommitted id h.fresh (by rw [hfind]; rfl)
    rw [held_of_account hacc] at hm'
    obtain ⟨_, rfl⟩ := (exists_view_iff hacc happ rfl).mp hview
    have hhead := (candidate_mem_view_iff hm').mp hcandidate
    obtain ⟨hsize, hverify⟩ := (h.inspect_iff hacc happ hcollect hhead).mp hinspect
    exact .inr ⟨id, node, h.fresh, rfl, hsize, h.head_iff.mp hhead, hverify⟩
  · rintro (⟨heq, _⟩ | ⟨id', node', hfresh', heq, hsize, hno, hverify⟩)
    · exact absurd heq (put_ne_self h.fresh)
    obtain rfl : id' = id := by
      refine hnew id' hfresh' ?_
      rw [heq, find_put, if_pos rfl]
      rfl
    have hhead := h.head_iff.mpr hno
    refine ⟨⟨_, (exists_view_iff hacc happ rfl).mpr ⟨(h.collect_iff hcollect).mpr hsize, rfl⟩, ?_⟩,
      (h.inspect_iff hacc happ hcollect hhead).mpr ⟨hsize, hverify⟩⟩
    intro x hnone hsome
    obtain rfl := hnew x hnone hsome
    rw [held_of_account hacc]
    exact ⟨m, hget, (candidate_mem_view_iff hget).mpr hhead, hfiles⟩

end Outcomes

/-! ## Every commit -/

/-- One call of `commit_operation` on an operation that replaces the heads it expects. -/
theorem readsBack_commit_iff {dir : AppDir} {staged : List StagedFile} {deleted : List String}
    (happId : op.appId = appId) (hparents : op.parents = op.expectedHeads)
    (hok : (commitOperation P now store dir op staged deleted identity).result = .ok n) :
    ReadsBack P store appId (committedFile op.originalFiles staged deleted) dir
        (commitOperation P now store dir op staged deleted identity).dir ↔
      Readable P store appId dir
        (commitOperation P now store dir op staged deleted identity).dir := by
  subst happId
  rcases commitOperation_cases P now store dir op staged deleted identity with
    ⟨e, herr, _⟩ | ⟨steamId64, files, hplan, ⟨_, _, hdir, _⟩ | ⟨_, m, node, hpub⟩⟩
  · rw [hok] at herr
    cases herr
  · rw [hdir]
    exact readsBack_self_iff hplan.account hplan.appId hplan.reads
  · have hfits : FitsOver P steamId64 op.appId dir (P.manifestId m) node m := by
      refine ⟨hpub.fresh, hpub.name, hpub.read, ?_, hpub.dir ▸ hpub.verified⟩
      rw [hpub.parents, hparents, hplan.heads]
    rw [hpub.dir]
    refine hfits.readsBack_iff hplan.account hplan.appId hplan.reads fun path => ?_
    rw [hpub.files, hplan.files]

theorem normalizedHeadIds_singleton {id : String} {ids : List String}
    (h : normalizedHeadIds [id] = .ok ids) : ids = [id] := by
  unfold normalizedHeadIds at h
  simp only [ite_throw_eq_ok, pure_eq_ok] at h
  obtain ⟨_, _, rfl⟩ := h
  rfl

/-- A resolution starts from the files of the selected version. -/
theorem resolution_originalFiles {dir : AppDir} {heads : List String}
    (h : beginOperationWithRevision P store dir appId [selectedHead] (some heads) minimumRevision = .ok op)
    : ∃ m, (store.held P appId dir)[selectedHead]? = some m ∧ op.originalFiles = m.files := by
  simp only [beginOperationWithRevision, bind_eq_ok, pure_eq_ok, resolveApp_eq_ok_iff,
    normalizedResolution] at h
  obtain ⟨_, _, resolved, ⟨_, steamId64, hacc, M, hcollect, rfl⟩, base', hbase', res',
    ⟨heads', _, rfl⟩, base, hbase, blobs, _, rfl⟩ := h
  obtain ⟨_, _, rfl⟩ := collectManifestObjects_eq_ok_iff.mp hcollect
  obtain rfl := normalizedHeadIds_singleton hbase'
  simp only [selectBase, ite_throw_eq_ok] at hbase
  obtain ⟨_, hbase⟩ := hbase
  split at hbase
  next m hm =>
    cases hbase
    rw [held_of_account hacc]
    exact ⟨m, hm, rfl⟩
  next => cases hbase

/-- `resolve_to_manifest` is a commit of an operation it has begun. -/
theorem resolveToManifest_eq_ok {dir after : AppDir} {expectedHeads : List String}
    (h : resolveToManifest P now store dir appId expectedHeads selectedHead identity minimumRevision = (after, .ok n))
    :
    ∃ heads op, beginOperationWithRevision P store dir appId [selectedHead] (some heads)
        minimumRevision = .ok op ∧
      (commitOperation P now store dir op [] [] identity).result = .ok n ∧
      (commitOperation P now store dir op [] [] identity).dir = after := by
  unfold resolveToManifest at h
  dsimp only at h
  split at h
  next => cases h
  next op hbegun =>
    simp only [bind_eq_ok] at hbegun
    obtain ⟨_, _, _, _, heads, _, hbegin⟩ := hbegun
    rw [Prod.mk.injEq] at h
    exact ⟨heads, op, hbegin, h.2, h.1⟩

/-- **What a commit leaves behind can be read back** if and only if it published
nothing and the app could be inspected, or there was room for one more manifest,
nothing names it yet, and the blobs of the heads it replaces are intact. -/
theorem commit_reads_back_iff (P : Platform) (store : FolderStore) (appId : Nat)
    (dir after : AppDir) (committed : String → Option StoredFile)
    (h : Commits P store appId dir committed after) :
    ReadsBack P store appId committed dir after ↔ Readable P store appId dir after := by
  cases h with
  | commit hop hok => exact readsBack_commit_iff hop.terms.1 hop.terms.2 hok
  | @resolve _ _ selectedHead _ _ _ _ hresolve =>
    obtain ⟨heads, op, hbegin, hok, rfl⟩ := resolveToManifest_eq_ok hresolve
    obtain ⟨_, _, hbegun⟩ := beginOperationWithRevision_eq_ok hbegin
    obtain ⟨m, hm, hfiles⟩ := resolution_originalFiles hbegin
    have hcommitted : (fun path : String =>
        (store.held P appId dir)[selectedHead]?.bind (·.files[path]?)) =
        committedFile op.originalFiles [] [] := by
      funext path
      rw [hm, hfiles]
      simp [committedFile]
    rw [hcommitted]
    exact readsBack_commit_iff hbegun.appId hbegun.parents hok

/-- The deck's first upload: what its commit returned. -/
def firstUpload : Result (Result Nat) := do
  let op ← beginOperationWithRevision fourVersions.platform cloudStore .empty 480 [] none 0
  let (op, file) ← stageFile fourVersions.platform cloudStore op "save.dat" (utf8Bytes "one")
    firstRow.metadata
  return (commitOperation fourVersions.platform 1001 cloudStore .empty op [file] [] deck).result

theorem commit_reads_back_iff_first_upload : ∃ committed after,
    Commits fourVersions.platform cloudStore 480 .empty committed after ∧
    (ReadsBack fourVersions.platform cloudStore 480 committed .empty after ↔
      Readable fourVersions.platform cloudStore 480 .empty after) := by
  have hupload : firstUpload = .ok (.ok 1) := by decide +kernel
  simp only [firstUpload, bind_eq_ok, pure_eq_ok] at hupload
  obtain ⟨op, hbegin, ⟨op', file⟩, hstage, hcommit⟩ := hupload
  have hcommits := Commits.commit (.staged (.begun hbegin) hstage) hcommit
  exact ⟨_, _, hcommits, commit_reads_back_iff _ _ _ _ _ _ hcommits⟩

/-- The deck's first version, with other bytes of the same size under the hash of its file. -/
def damagedFolder : AppDir :=
  AppDir.empty.put firstId (publishedNode firstRow.json
    (OperationBlobs.empty.insert ⟨firstSave.sha1, by decide +kernel⟩ (utf8Bytes "eno")))

/-- The desktop's upload over it: what its commit returned, and whether the app can be
inspected then. -/
def uploadOverDamage : Result (Result Nat × Bool) := do
  let op ← beginOperationWithRevision fourVersions.platform cloudStore damagedFolder 480
    [firstId] none 0
  let (op, file) ← stageFile fourVersions.platform cloudStore op "save.dat" (utf8Bytes "two")
    secondRow.metadata
  let out := commitOperation fourVersions.platform 2000 cloudStore damagedFolder op [file] []
    desktop
  return (out.result, (inspectGc fourVersions.platform cloudStore 480 out.dir).isOk)

/-- **A commit that cannot be read back.** `resolve_app` looks at the sizes of blobs only and
accepts the folder, so the commit returns `Ok`; `inspect_gc` then fails over the hash of a blob
that the new version does not even use. -/
theorem damaged_head_unreadable :
    (∃ app, resolveApp fourVersions.platform cloudStore 480 damagedFolder = .ok app) ∧
    ∃ committed after, Commits fourVersions.platform cloudStore 480 damagedFolder committed after ∧
      ¬ReadsBack fourVersions.platform cloudStore 480 committed damagedFolder after := by
  have hupload : uploadOverDamage = .ok (.ok 2, false) := by decide +kernel
  simp only [uploadOverDamage, bind_eq_ok, pure_eq_ok, Prod.mk.injEq] at hupload
  obtain ⟨op, hbegin, ⟨op', file⟩, hstage, hcommit, hinspect⟩ := hupload
  constructor
  · obtain ⟨_, _, app, happ, _⟩ := by
      simpa only [beginOperationWithRevision, bind_eq_ok] using hbegin
    exact ⟨app, happ⟩
  · have hcommits := Commits.commit (.staged (.begun hbegin) hstage) hcommit
    refine ⟨_, _, hcommits, fun hreads => ?_⟩
    obtain ⟨report, hreport⟩ := hreads.inspect
    rw [hreport] at hinspect
    cases hinspect

end VaporForge.Local
