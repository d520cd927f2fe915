import VaporForge.Local.Device
import VaporForge.Local.Recorded

/-!
# Uploads on one device lose nothing

Heads are not stored; they are recomputed from the parents at every call. Yet any
number of ordinary uploads, begun and committed in any interleaving, leave one
line of versions:

> there is never more than one head, a commit that returns `Ok` made its change to
> the head that was there at that moment, and of all operations begun on the same
> heads at most one publishes (`uploads_lose_nothing`).

The reason is one invariant, `Uploading`: an operation's files are those of the
heads it expects. A commit that finds these heads therefore changes the current
version, and by publishing over them it makes them no heads for ever after.
-/

namespace VaporForge.Local

open VaporForge.CloudCore
open Lib

/-! ## What is claimed of a run -/

/-- The files of the current version: the only head's, or none. -/
def headFiles (M : Manifests) : Files :=
  match headIds M with
  | [id] => (M[id]?.map (·.files)).getD ∅
  | _ => ∅

section Spec

variable (P : Platform) (store : FolderStore) (appId : Nat)

/-- The step is a commit of `op` with these arguments, and it returned `result`. -/
def Step.Commits (s : Step) (op : SaveOperation) (staged : List StagedFile)
    (deleted : List String) (result : Result Nat) : Prop :=
  ∃ i identity now, s.action = .commit i staged deleted identity now ∧
    s.before.operations[i]? = some op ∧
    (commitOperation P now store s.before.dir op staged deleted identity).result = result

/-- The step added a manifest. -/
def Step.AddsManifest (s : Step) : Prop :=
  ∃ id, id ∉ store.held P appId s.before.dir ∧ id ∈ store.held P appId s.after.dir

/-- No update is lost in a run. -/
structure LosesNothing (steps : List Step) : Prop where
  oneHead : ∀ s ∈ steps, (headIds (store.held P appId s.before.dir)).length ≤ 1 ∧
    (headIds (store.held P appId s.after.dir)).length ≤ 1
  /-- A successful commit changed the head of that moment, and no other version. -/
  committed : ∀ s ∈ steps, ∀ op staged deleted n, s.Commits P store op staged deleted (.ok n) →
    (∀ path : String, (headFiles (store.held P appId s.after.dir))[path]? =
      committedFile (headFiles (store.held P appId s.before.dir)) staged deleted path) ∧
    (store.held P appId s.after.dir = store.held P appId s.before.dir ∨
      ∃ id m, id ∉ store.held P appId s.before.dir ∧
        store.held P appId s.after.dir = (store.held P appId s.before.dir).insert id m ∧
        m.parents = headIds (store.held P appId s.before.dir))
  failed : ∀ s ∈ steps, ∀ op staged deleted e, s.Commits P store op staged deleted (.error e) →
    store.held P appId s.after.dir = store.held P appId s.before.dir
  /-- Of operations begun on the same heads, at most one publishes. -/
  once : steps.Pairwise fun s s' => ∀ op staged deleted result op' staged' deleted' result',
    s.Commits P store op staged deleted result → s.AddsManifest P store appId →
    s'.Commits P store op' staged' deleted' result' → s'.AddsManifest P store appId →
    op.expectedHeads ≠ op'.expectedHeads

end Spec

/-! ## The invariant -/

section Invariant

variable {P : Platform} {store : FolderStore} {appId : Nat} {d : Device}

/-- The terms of an ordinary operation, where `M` is held now. -/
structure Fits (M : Manifests) (appId : Nat) (op : OperationTerms) : Prop where
  appId : op.appId = appId
  parents : op.parents = op.expectedHeads
  files : StartsFrom M op.expectedHeads op.originalFiles

structure Uploading (P : Platform) (store : FolderStore) (appId : Nat) (d : Device) : Prop where
  oneHead : (headIds (store.held P appId d.dir)).length ≤ 1
  operations : ∀ op ∈ d.operations, Fits (store.held P appId d.dir) appId op.toOperationTerms

theorem Uploading.ownApp (hinv : Uploading P store appId d) :
    ∀ op ∈ d.operations, op.appId = appId := fun op hop => (hinv.operations op hop).appId

variable {M : Manifests} {files : Files} {actions : List Action} {s : Step} {op : SaveOperation}
  {staged : List StagedFile} {deleted : List String} {result : Result Nat}

theorem StartsFrom.mono {M' : Manifests} (h : Extends M M') {heads : List String}
    (hfrom : StartsFrom M heads files) : StartsFrom M' heads files := by
  rcases hfrom with hnone | ⟨id, m, hheads, hm, hfiles⟩
  · exact .inl hnone
  · exact .inr ⟨id, m, hheads, h id m hm, hfiles⟩

theorem StartsFrom.headFiles (hfrom : StartsFrom M (headIds M) files) : headFiles M = files := by
  rcases hfrom with ⟨hheads, hfiles⟩ | ⟨id, m, hheads, hm, hfiles⟩
  · simp only [Local.headFiles, hheads, hfiles]
  · simp only [Local.headFiles, hheads, hm, hfiles]
    rfl

/-- Publishing over the heads leaves the new manifest as the only head. -/
theorem PublishesOver.headIds {dir dir' : AppDir} {op : OperationTerms} {m : SaveManifest}
    (h : PublishesOver P store appId dir dir' op m) (hparents : op.parents = op.expectedHeads)
    (hac : Acyclic (store.held P appId dir')) :
    headIds (store.held P appId dir') = [P.manifestId m] := by
  rw [h.held] at hac ⊢
  refine headIds_insert h.not_mem ?_ hac
  rw [h.parents, hparents, h.heads]

theorem act_uploading {a : Action} (ha : a.Ordinary)
    (hac : Acyclic (store.held P appId (d.act P store appId a).dir))
    (hinv : Uploading P store appId d) : Uploading P store appId (d.act P store appId a) := by
  have hext : Extends (store.held P appId d.dir)
      (store.held P appId (d.act P store appId a).dir) := act_extends hinv.ownApp a
  constructor
  · rcases act_dir hinv.ownApp a with hdir | ⟨op, hop, m, hpub⟩
    · rw [hdir]
      exact hinv.oneHead
    · rw [hpub.headIds (hinv.operations op hop).parents hac]
      exact le_rfl
  · intro op hop
    rcases act_operations hop with ⟨op₀, hop₀, hterms⟩ | ⟨_, resolution, _, rfl, hbegun⟩
    · have hfits := hinv.operations op₀ hop₀
      rw [hterms]
      exact ⟨hfits.appId, hfits.parents, hfits.files.mono hext⟩
    · obtain ⟨rfl, _⟩ := ha
      exact ⟨hbegun.appId, hbegun.parents, (hbegun.files rfl).mono hext⟩

/-- The invariant at every step of a run. -/
theorem steps_uploading (hinv : Uploading P store appId d) (hordinary : ∀ a ∈ actions, a.Ordinary)
    (hac : Acyclic (store.held P appId (d.run P store appId actions).dir)) :
    ∀ s ∈ d.steps P store appId actions, Uploading P store appId s.before ∧
      s.after = s.before.act P store appId s.action ∧
      Uploading P store appId s.after ∧ Acyclic (store.held P appId s.after.dir) := by
  induction actions generalizing d with
  | nil => exact fun s hs => absurd hs List.not_mem_nil
  | cons a actions ih =>
    rw [List.forall_mem_cons] at hordinary
    have hac' : Acyclic (store.held P appId (d.act P store appId a).dir) :=
      hac.mono (run_extends (act_appId hinv.ownApp))
    have hinv' := act_uploading hordinary.1 hac' hinv
    intro s hs
    rcases List.mem_cons.mp hs with rfl | hs
    · exact ⟨hinv, rfl, hinv', hac'⟩
    · exact ih hinv' hordinary.2 hac s hs

/-- What a commit of one step did to the manifests. -/
theorem commits_cases (hinv : Uploading P store appId s.before)
    (hafter : s.after = s.before.act P store appId s.action)
    (hcommit : s.Commits P store op staged deleted result) :
    (∃ e, result = .error e ∧ s.after.dir = s.before.dir) ∨
      headIds (store.held P appId s.before.dir) = op.expectedHeads ∧
        ∃ files n, result = .ok n ∧
        (∀ path : String, files[path]? =
          committedFile (headFiles (store.held P appId s.before.dir)) staged deleted path) ∧
        ((files = headFiles (store.held P appId s.before.dir) ∧ s.after.dir = s.before.dir) ∨
          ∃ m, m.files = files ∧
            PublishesOver P store appId s.before.dir s.after.dir op.toOperationTerms m) := by
  obtain ⟨i, identity, now, haction, hi, rfl⟩ := hcommit
  have hfits := hinv.operations op (List.mem_of_getElem? hi)
  have hdir : s.after.dir =
      (commitOperation P now store s.before.dir op staged deleted identity).dir := by
    rw [hafter, haction]
    simp only [Device.act, hi]
  rw [hdir]
  rcases commit_dir hfits.appId s.before.dir with herr | ⟨hheads, files, n, hn, hfiles, hdone⟩
  · exact .inl herr
  · have hbase : headFiles (store.held P appId s.before.dir) = op.originalFiles := by
      refine StartsFrom.headFiles ?_
      rw [hheads]
      exact hfits.files
    rw [hbase]
    refine .inr ⟨hheads, files, n, hn, hfiles, ?_⟩
    rcases hdone with ⟨hsame, _, hdir'⟩ | hpub
    · exact .inl ⟨hsame, hdir'⟩
    · exact .inr hpub

/-- A commit that added a manifest published over the heads it expected. -/
theorem publishesOver_of_adds (hinv : Uploading P store appId s.before)
    (hafter : s.after = s.before.act P store appId s.action)
    (hcommit : s.Commits P store op staged deleted result) (hadds : s.AddsManifest P store appId) :
    ∃ m, PublishesOver P store appId s.before.dir s.after.dir op.toOperationTerms m := by
  obtain ⟨id, hnot, hmem⟩ := hadds
  rcases commits_cases hinv hafter hcommit with ⟨_, _, hdir⟩ | ⟨_, _, _, _, _, ⟨_, hdir⟩ | hpub⟩
  · rw [hdir] at hmem
    exact absurd hmem hnot
  · rw [hdir] at hmem
    exact absurd hmem hnot
  · obtain ⟨m, _, hpub⟩ := hpub
    exact ⟨m, hpub⟩

/-- Heads that were published over are never published over again. -/
theorem steps_once (hinv : Uploading P store appId d) (hordinary : ∀ a ∈ actions, a.Ordinary)
    (hac : Acyclic (store.held P appId (d.run P store appId actions).dir)) :
    (d.steps P store appId actions).Pairwise fun s s' =>
      ∀ op staged deleted result op' staged' deleted' result',
        s.Commits P store op staged deleted result → s.AddsManifest P store appId →
        s'.Commits P store op' staged' deleted' result' → s'.AddsManifest P store appId →
        op.expectedHeads ≠ op'.expectedHeads := by
  induction actions generalizing d with
  | nil => exact List.Pairwise.nil
  | cons a actions ih =>
    have hsteps := steps_uploading hinv hordinary hac
    obtain ⟨_, _, hinv', _⟩ := hsteps _ List.mem_cons_self
    rw [List.forall_mem_cons] at hordinary
    refine List.Pairwise.cons ?_ (ih hinv' hordinary.2 hac)
    intro s' hs' op _ _ _ op' _ _ _ hcommit hadds hcommit' hadds' heq
    obtain ⟨m, hpub⟩ := publishesOver_of_adds hinv rfl hcommit hadds
    obtain ⟨hbefore', hact', _, hac'⟩ := hsteps s' (List.mem_cons_of_mem _ hs')
    obtain ⟨m', hpub'⟩ := publishesOver_of_adds hbefore' hact' hcommit' hadds'
    -- the first manifest is still there, and its parents are the heads of both operations
    have hthere := steps_extends hinv'.ownApp s' hs' _ _ hpub.getElem?
    have hacb := hac'.mono (hact' ▸ act_extends hbefore'.ownApp s'.action)
    obtain ⟨i, _, _, _, hi, _⟩ := hcommit
    have hparents := (hinv.operations op (List.mem_of_getElem? hi)).parents
    refine headIds_ne_parents hacb hthere ?_
    rw [hpub'.heads, hpub.parents, hparents, heq]

end Invariant

/-- **Ordinary uploads lose nothing.** From any folder with at most one head and no
operation open, through every interleaving of ordinary operations. Ids being hashes
of content that includes the parents, no manifest present at the end reaches itself
through its parents. -/
theorem uploads_lose_nothing (P : Platform) (store : FolderStore) (appId : Nat)
    (start : Device) (actions : List Action) (hstart : start.operations = [])
    (hhead : (headIds (store.held P appId start.dir)).length ≤ 1)
    (hordinary : ∀ a ∈ actions, a.Ordinary)
    (hacyclic : Acyclic (store.held P appId (start.run P store appId actions).dir)) :
    LosesNothing P store appId (start.steps P store appId actions) := by
  have hinv : Uploading P store appId start := by
    refine ⟨hhead, fun op hop => ?_⟩
    rw [hstart] at hop
    exact absurd hop List.not_mem_nil
  have hsteps := steps_uploading hinv hordinary hacyclic
  constructor
  case oneHead =>
    intro s hs
    obtain ⟨hbefore, _, hafter, _⟩ := hsteps s hs
    exact ⟨hbefore.oneHead, hafter.oneHead⟩
  case committed =>
    intro s hs op staged deleted n hcommit
    obtain ⟨hbefore, hact, _, hac⟩ := hsteps s hs
    rcases commits_cases hbefore hact hcommit with ⟨e, he, _⟩ | ⟨hheads, files, _, _, hfiles, hdone⟩
    · cases he
    · rcases hdone with ⟨hsame, hdir⟩ | ⟨m, rfl, hpub⟩
      · rw [hdir, ← hsame]
        exact ⟨hsame ▸ hfiles, .inl rfl⟩
      · obtain ⟨i, _, _, _, hi, _⟩ := hcommit
        have hparents := (hbefore.operations op (List.mem_of_getElem? hi)).parents
        have hnew : headFiles (store.held P appId s.after.dir) = m.files :=
          StartsFrom.headFiles (.inr ⟨_, m, hpub.headIds hparents hac, hpub.getElem?, rfl⟩)
        rw [hnew]
        exact ⟨hfiles, .inr ⟨_, m, hpub.not_mem, hpub.held, by
          rw [hpub.parents, hparents, hheads]⟩⟩
  case failed =>
    intro s hs op staged deleted e hcommit
    obtain ⟨hbefore, hact, _, _⟩ := hsteps s hs
    rcases commits_cases hbefore hact hcommit with ⟨_, _, hdir⟩ | ⟨_, _, _, hn, _⟩
    · rw [hdir]
    · cases hn
  case once => exact steps_once hinv hordinary hacyclic

/-- Two operations begin on the empty folder. One commits, the other finds that the
heads changed; a third begins on the new head and commits over it. -/
def racingUploads : List Action := [
  .begin [] none 0,
  .begin [] none 0,
  .stage 0 "save.dat" (utf8Bytes "one") firstRow.metadata,
  .commit 0 [firstRow.staged] [] deck 1001,
  .commit 1 [] ["save.dat"] desktop 1500,
  .begin [firstId] none 0,
  .stage 2 "save.dat" (utf8Bytes "two") secondRow.metadata,
  .commit 2 [secondRow.staged] [] desktop 2000]

theorem uploads_lose_nothing_racing :
    (cloudStore.held fourVersions.platform 480 ((⟨.empty, []⟩ : Device).run
      fourVersions.platform cloudStore 480 racingUploads).dir).keys = [secondId, firstId] ∧
    LosesNothing fourVersions.platform cloudStore 480
      ((⟨.empty, []⟩ : Device).steps fourVersions.platform cloudStore 480 racingUploads) := by
  have hfinal : (cloudStore.held fourVersions.platform 480 ((⟨.empty, []⟩ : Device).run
      fourVersions.platform cloudStore 480 racingUploads).dir).toList =
      [(secondId, secondRow.manifest), (firstId, firstRow.manifest)] := by
    decide +kernel
  refine ⟨?_, uploads_lose_nothing _ _ _ _ _ rfl (by decide +kernel) ?_ ?_⟩
  · rw [← Std.ExtTreeMap.map_fst_toList_eq_keys, hfinal]
    rfl
  · intro a ha
    simp only [racingUploads, List.mem_cons, List.not_mem_nil, or_false] at ha
    rcases ha with rfl | rfl | rfl | rfl | rfl | rfl | rfl | rfl <;> simp [Action.Ordinary]
  · refine acyclic_of_rank (fun id => if id = secondId then 1 else 0) ?_
    rw [hfinal]
    decide +kernel

end VaporForge.Local
