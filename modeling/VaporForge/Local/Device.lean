import VaporForge.Local.Commit

/-!
# One device

A device has the app's folder and the operations it has open. Its users call
`begin_operation`, `stage_file`, `commit_operation` and `abort` from any thread in
any order; the locks make each call one step. `Device.act` is one call, and a run
is any list of calls.

What one call can do is said once:

> an operation's terms never change after it began (`act_operations`), and the
> folder changes only when a commit publishes, by one new manifest over the heads
> (`act_dir`).
-/

namespace VaporForge.Local

open VaporForge.CloudCore
open Lib

structure Device where
  dir : AppDir
  operations : List SaveOperation

/-- One call; operations are named by the order in which they began. -/
inductive Action where
  | begin (baseHeads : List String) (resolutionHeads : Option (List String))
      (minimumRevision : Nat)
  | stage (operation : Nat) (path : String) (contents : Bytes) (metadata : FileMetadata)
  | commit (operation : Nat) (staged : List StagedFile) (deleted : List String)
      (identity : CommitIdentity) (now : Nat)
  | abort (operation : Nat)

/-- Calls of an ordinary upload: no conflict is being resolved. -/
def Action.Ordinary : Action → Prop
  | .begin _ resolutionHeads minimumRevision => resolutionHeads = none ∧ minimumRevision = 0
  | _ => True

section Act

variable (P : Platform) (store : FolderStore) (appId : Nat)

/-- Replace operation `i` by what a call made of it. -/
def Device.onOperation (d : Device) (i : Nat) (call : SaveOperation → Result SaveOperation) :
    Device :=
  match d.operations[i]? with
  | none => d
  | some op =>
    match call op with
    | .ok op' => { d with operations := d.operations.set i op' }
    | .error _ => d

/-- One call on the device. A call on an operation that does not exist cannot be
made, and changes nothing. -/
def Device.act (d : Device) : Action → Device
  | .begin baseHeads resolutionHeads minimumRevision =>
    match beginOperationWithRevision P store d.dir appId baseHeads resolutionHeads
        minimumRevision with
    | .ok op => { d with operations := d.operations ++ [op] }
    | .error _ => d
  | .stage i path contents metadata =>
    d.onOperation i fun op => do
      let (op, _) ← stageFile P store op path contents metadata
      return op
  | .commit i staged deleted identity now =>
    match d.operations[i]? with
    | none => d
    | some op =>
      let out := commitOperation P now store d.dir op staged deleted identity
      ⟨out.dir, d.operations.set i out.operation⟩
  | .abort i => d.onOperation i (abortOperation store)

def Device.run (d : Device) (actions : List Action) : Device :=
  actions.foldl (fun d a => d.act P store appId a) d

/-- One step of a run. -/
structure Step where
  before : Device
  action : Action
  after : Device

/-- The steps of a run, in order. -/
def Device.steps (d : Device) : List Action → List Step
  | [] => []
  | a :: actions => ⟨d, a, d.act P store appId a⟩ :: (d.act P store appId a).steps actions

/-- The manifests a folder holds for the store's account. -/
def FolderStore.held (dir : AppDir) : Manifests :=
  match store.account with
  | some steamId64 => Local.held P steamId64 appId dir
  | none => ∅

end Act

/-! ## What one call can do -/

section Cases

variable {P : Platform} {store : FolderStore} {appId : Nat} {d : Device}

theorem held_of_account {steamId64 : String} (hacc : store.account = some steamId64)
    (dir : AppDir) : store.held P appId dir = held P steamId64 appId dir := by
  rw [FolderStore.held, hacc]

variable {op : SaveOperation} {i : Nat} {dir dir' : AppDir} {m : SaveManifest}

variable {op' op₁ : SaveOperation} {call : SaveOperation → Result SaveOperation} {a : Action}
  {actions : List Action}

theorem stageFile_terms {path : String} {contents : Bytes} {metadata : FileMetadata}
    {file : StagedFile} (h : stageFile P store op path contents metadata = .ok (op', file)) :
    op'.toOperationTerms = op.toOperationTerms := by
  simp only [stageFile, bind_eq_ok, throw_bind, ite_throw_eq_ok, pure_eq_ok,
    Prod.mk.injEq] at h
  obtain ⟨_, _, _, _, _, _, _, _, _, _, _, rfl, _⟩ := h
  rfl

/-- The operation at `i` was replaced by one of the same terms. -/
theorem mem_set_terms {ops : List SaveOperation} (hi : ops[i]? = some op)
    (hterms : op'.toOperationTerms = op.toOperationTerms) (hmem : op₁ ∈ ops.set i op') :
    ∃ op₀ ∈ ops, op₁.toOperationTerms = op₀.toOperationTerms := by
  rcases List.mem_or_eq_of_mem_set hmem with hold | rfl
  · exact ⟨op₁, hold, rfl⟩
  · exact ⟨op, List.mem_of_getElem? hi, hterms⟩

theorem onOperation_terms
    (hcall : ∀ op op', call op = .ok op' → op'.toOperationTerms = op.toOperationTerms)
    (hmem : op₁ ∈ (d.onOperation i call).operations) :
    ∃ op₀ ∈ d.operations, op₁.toOperationTerms = op₀.toOperationTerms := by
  unfold Device.onOperation at hmem
  split at hmem
  next => exact ⟨op₁, hmem, rfl⟩
  next op hi =>
    split at hmem
    next op' hop' => exact mem_set_terms hi (hcall op op' hop') hmem
    next => exact ⟨op₁, hmem, rfl⟩

theorem onOperation_dir : (d.onOperation i call).dir = d.dir := by
  unfold Device.onOperation
  split
  · rfl
  · split
    · rfl
    · rfl

/-- Every operation has the terms of one that was there, or has just begun. -/
theorem act_operations (hmem : op ∈ (d.act P store appId a).operations) :
    (∃ op₀ ∈ d.operations, op.toOperationTerms = op₀.toOperationTerms) ∨
      ∃ baseHeads resolutionHeads minimumRevision,
        a = .begin baseHeads resolutionHeads minimumRevision ∧
        Begun (store.held P appId d.dir) appId resolutionHeads.isSome op.toOperationTerms := by
  cases a with
  | begin baseHeads resolutionHeads minimumRevision =>
    simp only [Device.act] at hmem
    split at hmem
    next op' hbegin =>
      rw [List.mem_append, List.mem_singleton] at hmem
      rcases hmem with hold | rfl
      · exact .inl ⟨op, hold, rfl⟩
      · obtain ⟨steamId64, hacc, hbegun⟩ := beginOperationWithRevision_eq_ok hbegin
        rw [held_of_account hacc]
        exact .inr ⟨baseHeads, resolutionHeads, minimumRevision, rfl, hbegun⟩
    next => exact .inl ⟨op, hmem, rfl⟩
  | stage i path contents metadata =>
    refine .inl (onOperation_terms (fun op op' h => ?_) hmem)
    simp only [bind_eq_ok, pure_eq_ok] at h
    obtain ⟨⟨op'', file⟩, hstage, rfl⟩ := h
    exact stageFile_terms hstage
  | commit i staged deleted identity now =>
    simp only [Device.act] at hmem
    split at hmem
    next => exact .inl ⟨op, hmem, rfl⟩
    next op' hi => exact .inl (mem_set_terms hi commitOperation_terms hmem)
  | abort i =>
    refine .inl (onOperation_terms (fun op op' h => ?_) hmem)
    simp only [abortOperation, bind_eq_ok, pure_eq_ok] at h
    obtain ⟨_, _, rfl⟩ := h
    rfl

/-- Manifest `m` went into the folder over the heads that operation `op` expected. -/
structure PublishesOver (P : Platform) (store : FolderStore) (appId : Nat) (dir dir' : AppDir)
    (op : OperationTerms) (m : SaveManifest) : Prop where
  heads : headIds (store.held P appId dir) = op.expectedHeads
  parents : m.parents = op.parents
  revision : m.revision =
    max (maxRevision (store.held P appId dir)) op.minimumRevision + 1
  fresh : dir.find (P.manifestId m) = none
  put : ∃ node steamId64, store.account = some steamId64 ∧
    isNonManifestAppEntry (P.manifestId m) = false ∧
    readManifest P steamId64 appId (P.manifestId m) node = .ok m ∧
    dir' = dir.put (P.manifestId m) node

theorem PublishesOver.held {op : OperationTerms} (h : PublishesOver P store appId dir dir' op m) :
    store.held P appId dir' = (store.held P appId dir).insert (P.manifestId m) m := by
  obtain ⟨node, steamId64, hacc, hname, hread, rfl⟩ := h.put
  rw [held_of_account hacc, held_of_account hacc, held_put hname hread]

theorem PublishesOver.getElem? {op : OperationTerms} (h : PublishesOver P store appId dir dir' op m)
    : (store.held P appId dir')[P.manifestId m]? = some m := by
  rw [h.held, Std.ExtTreeMap.getElem?_insert_self]

theorem PublishesOver.not_mem {op : OperationTerms} (h : PublishesOver P store appId dir dir' op m)
    : P.manifestId m ∉ store.held P appId dir := by
  obtain ⟨node, steamId64, hacc, _⟩ := h.put
  rw [held_of_account hacc]
  intro hmem
  obtain ⟨m', hm'⟩ := mem_iff_exists_getElem?.mp hmem
  obtain ⟨node', hnode', _⟩ := held_getElem?_iff.mp hm'
  exact find_eq_none_iff.mp h.fresh node' hnode'

/-- A commit, seen as a step of the device. -/
theorem commit_dir (happ : op.appId = appId) {staged : List StagedFile} {deleted : List String}
    {identity : CommitIdentity} {now : Nat} (dir : AppDir) :
    let out := commitOperation P now store dir op staged deleted identity
    (∃ e, out.result = .error e ∧ out.dir = dir) ∨
      headIds (store.held P appId dir) = op.expectedHeads ∧ ∃ files n, out.result = .ok n ∧
        (∀ path : String,
          files[path]? = committedFile op.originalFiles staged deleted path) ∧
        ((files = op.originalFiles ∧ op.forcePublish = false ∧ out.dir = dir) ∨
          ∃ m, m.files = files ∧ PublishesOver P store appId dir out.dir op.toOperationTerms m) := by
  subst happ
  intro out
  rcases commitOperation_cases P now store dir op staged deleted identity with
    herr | ⟨steamId64, files, hplan, hdone⟩
  · exact .inl herr
  · have hheld : store.held P op.appId dir = Local.held P steamId64 op.appId dir :=
      held_of_account hplan.account dir
    refine .inr ⟨hheld ▸ hplan.heads, files, ?_⟩
    rcases hdone with ⟨hsame, hforce, hdir, n, hn⟩ | ⟨_, m, node, hpub⟩
    · exact ⟨n, hn, hplan.files, .inl ⟨hsame, hforce, hdir⟩⟩
    · refine ⟨m.revision, hpub.result, hplan.files, .inr ⟨m, hpub.files, ?_⟩⟩
      exact ⟨hheld ▸ hplan.heads, hpub.parents, hheld ▸ hpub.revision, hpub.fresh,
        node, steamId64, hplan.account, hpub.name, hpub.read, hpub.dir⟩

/-- The folder stays as it is, or a commit publishes over the heads. -/
theorem act_dir (happ : ∀ op ∈ d.operations, op.appId = appId) (a : Action) :
    (d.act P store appId a).dir = d.dir ∨ ∃ op ∈ d.operations, ∃ m,
      PublishesOver P store appId d.dir (d.act P store appId a).dir op.toOperationTerms m := by
  cases a with
  | begin baseHeads resolutionHeads minimumRevision =>
    simp only [Device.act]
    split
    · exact .inl rfl
    · exact .inl rfl
  | stage i path contents metadata => exact .inl onOperation_dir
  | abort i => exact .inl onOperation_dir
  | commit i staged deleted identity now =>
    simp only [Device.act]
    split
    next => exact .inl rfl
    next op hi =>
      have hop := List.mem_of_getElem? hi
      rcases commit_dir (happ op hop) d.dir with ⟨_, _, hdir⟩ | ⟨_, files, n, _, _, hdone⟩
      · exact .inl hdir
      · rcases hdone with ⟨_, _, hdir⟩ | ⟨m, _, hpub⟩
        · exact .inl hdir
        · exact .inr ⟨op, hop, m, hpub⟩

/-! ## Runs -/

theorem act_appId (happ : ∀ op ∈ d.operations, op.appId = appId) :
    ∀ op ∈ (d.act P store appId a).operations, op.appId = appId := by
  intro op hop
  rcases act_operations hop with ⟨op₀, hop₀, hterms⟩ | ⟨_, _, _, _, hbegun⟩
  · rw [hterms]
    exact happ op₀ hop₀
  · exact hbegun.appId

theorem act_extends (happ : ∀ op ∈ d.operations, op.appId = appId) (a : Action) :
    Extends (store.held P appId d.dir) (store.held P appId (d.act P store appId a).dir) := by
  rcases act_dir happ a with hdir | ⟨op, _, m, hpub⟩
  · rw [hdir]
    exact Extends.refl _
  · rw [hpub.held]
    exact extends_insert hpub.not_mem m

theorem run_extends (happ : ∀ op ∈ d.operations, op.appId = appId) :
    Extends (store.held P appId d.dir)
      (store.held P appId (d.run P store appId actions).dir) := by
  induction actions generalizing d with
  | nil => exact Extends.refl _
  | cons a actions ih => exact (act_extends happ a).trans (ih (act_appId happ))

theorem steps_extends (happ : ∀ op ∈ d.operations, op.appId = appId) :
    ∀ s ∈ d.steps P store appId actions,
      Extends (store.held P appId d.dir) (store.held P appId s.before.dir) := by
  induction actions generalizing d with
  | nil => exact fun s hs => absurd hs List.not_mem_nil
  | cons a actions ih =>
    intro s hs
    rcases List.mem_cons.mp hs with rfl | hs
    · exact Extends.refl _
    · exact (act_extends happ a).trans (ih (act_appId happ) s hs)

end Cases

end VaporForge.Local
