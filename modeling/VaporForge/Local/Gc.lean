import Std.Data.ExtTreeSet
import VaporForge.Local.Commit

/-!
# Garbage collection

A sweep happens in three calls that may lie far apart. `inspect_gc` reads the whole
folder without the lock and reports what may go: everything but the heads and their
present parents. `prepare_gc_sweep` and `apply_gc_sweep` compare only names: if the
folder has exactly the names of the report, the candidates are moved away one by
one, in ascending order of their ids.

`applyGcSweep_eq_ok` says what a sweep that succeeds did: the names were those of the
plan, and the candidates are gone.
-/

namespace VaporForge.Local

open VaporForge.CloudCore
open Lib

/-- A `BTreeSet<String>`. -/
abbrev IdSet := Std.ExtTreeSet String compare

structure GcReport where
  appId : Nat
  manifestScope : String
  retainedManifests : List String
  candidateManifests : List String
  deriving DecidableEq, Repr

structure GcSweep where
  deletedManifests : Nat
  movedManifests : List (String × Node)

/-- A prepared sweep; it holds the app's lock. -/
structure GcSweepPlan where
  root : List String
  appId : Nat
  expectedManifests : IdSet
  candidateManifests : IdSet

/-- The components of `app_dir`. -/
def FolderStore.appDir (store : FolderStore) (appId : Nat) : List String :=
  store.root :: (store.account.toList ++ [toString appId])

/-! ## Inspecting -/

/-- Head `head` is present and names `id` as a parent. -/
def parentOf (manifests : Manifests) (head id : String) : Bool :=
  match manifests[head]? with
  | some manifest => manifest.parents.contains id
  | none => false

/-- The heads and those of their parents that are present, ascending. -/
def retainedIds (manifests : Manifests) : List String :=
  manifests.keys.filter fun id =>
    (headIds manifests).contains id || (headIds manifests).any fun head => parentOf manifests head id

def candidateIds (manifests : Manifests) : List String :=
  manifests.keys.filter fun id => !(retainedIds manifests).contains id

def verifyRetained (P : Platform) (dir : AppDir) (appId : Nat) (manifests : Manifests) :
    List String → Result Unit
  | [] => return ()
  | id :: rest =>
    match manifests[id]? with
    | none => throw (incomplete "local cloud GC retained manifest is unavailable")
    | some manifest => do
      verifyFiles P dir appId id manifest.files
      verifyRetained P dir appId manifests rest

def inspectGc (P : Platform) (store : FolderStore) (appId : Nat) (dir : AppDir) :
    Result GcReport := do
  validateAppId appId
  let account ← store.manifestAccount
  let manifests ← collectManifestObjects P account appId dir
  verifyRetained P dir appId manifests (retainedIds manifests)
  return {
    appId
    manifestScope := store.manifestScope appId
    retainedManifests := retainedIds manifests
    candidateManifests := candidateIds manifests }

/-! ## Preparing -/

/-- The loop of `collect_manifest_paths`. -/
def collectPathsLoop : List Entry → IdSet → Result IdSet
  | [], paths => return paths
  | (.opaqueBytes _, _) :: _, _ =>
    throw (incomplete "local cloud manifest name is not UTF-8")
  | (.utf8 name, node) :: rest, paths =>
    if isNonManifestAppEntry name then collectPathsLoop rest paths
    else if paths.size ≥ maxManifestObjects then
      throw (permanent "too many local cloud manifests")
    else
      match node, validateManifestId name with
      | .dir _, .ok () =>
        if name ∈ paths then throw (permanent "duplicate local cloud manifest identity")
        else collectPathsLoop rest (paths.insert name)
      | _, _ => throw (incomplete "local cloud manifest namespace is incomplete")

def collectManifestPaths (dir : AppDir) : Result IdSet := collectPathsLoop dir.entries ∅

def uniqueItems (items : List String) : Result IdSet :=
  let unique : IdSet := .ofList items compare
  if unique.size ≠ items.length then throw (permanent "invalid local cloud GC report")
  else return unique

def prepareGcSweep (store : FolderStore) (report : GcReport) (dir : AppDir) :
    Result (Option GcSweepPlan) := do
  if report.manifestScope ≠ store.manifestScope report.appId then
    throw (permanent "invalid local cloud GC scope")
  let retained ← uniqueItems report.retainedManifests
  let candidates ← uniqueItems report.candidateManifests
  if retained.toList.any fun id => candidates.contains id then
    throw (permanent "invalid local cloud GC report")
  validateAppId report.appId
  let current ← collectManifestPaths dir
  let expected := retained ∪ candidates
  if current ≠ expected then return none
  else return some ⟨store.appDir report.appId, report.appId, expected, candidates⟩

/-! ## Sweeping -/

/-- `move_manifest_to_trash`: the directory that was moved out, if there was one. -/
def moveManifestToTrash (dir : AppDir) (appId : Nat) (id : String) :
    Result (AppDir × Option Node) := do
  manifestDir appId id
  match dir.find id with
  | none => return (dir, none)
  | some node => return (dir.remove id, some node)

/-- `restore_gc_sweep_locked`: put back, newest first, what has no successor yet. -/
def restoreGcSweep (dir : AppDir) (moved : List (String × Node)) : AppDir :=
  moved.reverse.foldl
    (fun dir item => if (dir.find item.1).isSome then dir else dir.put item.1 item.2) dir

def sweepLoop (appId : Nat) :
    List String → AppDir → List (String × Node) → AppDir × Result (Option GcSweep)
  | [], dir, moved => (dir, .ok (some ⟨moved.length, moved⟩))
  | id :: rest, dir, moved =>
    match moveManifestToTrash dir appId id with
    | .ok (dir, some node) => sweepLoop appId rest dir (moved ++ [(id, node)])
    | .ok (dir, none) => sweepLoop appId rest dir moved
    | .error e => (restoreGcSweep dir moved, .error e)

def applyGcSweep (store : FolderStore) (dir : AppDir) (plan : GcSweepPlan) :
    AppDir × Result (Option GcSweep) :=
  if plan.root ≠ store.appDir plan.appId then (dir, .ok none)
  else
    match collectManifestPaths dir with
    | .error e => (dir, .error e)
    | .ok current =>
      if current ≠ plan.expectedManifests then (dir, .ok none)
      else sweepLoop plan.appId plan.candidateManifests.toList dir []

/-- Where a sweep stands after its first `k` moves, and where it leaves the folder when
the process dies there: the next open clears the work root, so nothing is put back. -/
def GcSweepPlan.afterMoves (plan : GcSweepPlan) (dir : AppDir) (k : Nat) : AppDir :=
  (sweepLoop plan.appId (plan.candidateManifests.toList.take k) dir []).1

/-- The folder without the names of a list. -/
def AppDir.removeAll (dir : AppDir) (ids : List String) : AppDir :=
  ids.foldl AppDir.remove dir

/-! ## What was reported -/

section Report

variable {M : Manifests} {id : String}

theorem parentOf_iff {head : String} : parentOf M head id = true ↔ Names M head id := by
  unfold parentOf Names
  cases M[head]? with
  | none => simp
  | some m => simp

theorem mem_retainedIds_iff :
    id ∈ retainedIds M ↔ id ∈ M ∧ (id ∈ headIds M ∨ ∃ head ∈ headIds M, Names M head id) := by
  simp only [retainedIds, List.mem_filter, Std.ExtTreeMap.mem_keys, Bool.or_eq_true,
    List.contains_iff_mem, List.any_eq_true, parentOf_iff]

theorem mem_candidateIds_iff : id ∈ candidateIds M ↔ id ∈ M ∧ id ∉ retainedIds M := by
  simp only [candidateIds, List.mem_filter, Std.ExtTreeMap.mem_keys, Bool.not_eq_true',
    List.contains_eq_mem, decide_eq_false_iff_not]

theorem candidateIds_ascending (M : Manifests) : (candidateIds M).Pairwise (· < ·) :=
  (keys_ascending M).filter _

theorem mem_retained_or_candidate : id ∈ retainedIds M ∨ id ∈ candidateIds M ↔ id ∈ M := by
  rw [mem_candidateIds_iff]
  constructor
  · rintro (h | h)
    · exact (mem_retainedIds_iff.mp h).1
    · exact h.1
  · intro h
    by_cases hret : id ∈ retainedIds M
    · exact .inl hret
    · exact .inr ⟨h, hret⟩

variable {store : FolderStore} {appId : Nat} {report : GcReport} {P : Platform}

variable {dir : AppDir}

theorem inspectGc_eq_ok (h : inspectGc P store appId dir = .ok report) :
    ∃ steamId64, store.account = some steamId64 ∧
      collectManifestObjects P steamId64 appId dir = .ok (held P steamId64 appId dir) ∧
      report.appId = appId ∧
      report.retainedManifests = retainedIds (held P steamId64 appId dir) ∧
      report.candidateManifests = candidateIds (held P steamId64 appId dir) := by
  simp only [inspectGc, bind_eq_ok, pure_eq_ok, manifestAccount_eq_ok_iff] at h
  obtain ⟨_, _, steamId64, hacc, M, hM, _, _, rfl⟩ := h
  obtain ⟨_, _, rfl⟩ := collectManifestObjects_eq_ok_iff.mp hM
  exact ⟨steamId64, hacc, hM, rfl, rfl, rfl⟩

/-- The retained manifests are all present, so what is verified is their blobs. -/
theorem verifyRetained_eq_ok_iff {ids : List String} (hids : ∀ id ∈ ids, id ∈ M) :
    verifyRetained P dir appId M ids = .ok () ↔ ∀ id ∈ ids, ∀ m, M[id]? = some m →
      verifyFiles P dir appId id m.files = .ok () := by
  induction ids with
  | nil => simp [verifyRetained]
  | cons id ids ih =>
    rw [List.forall_mem_cons] at hids
    obtain ⟨m, hm⟩ := mem_iff_exists_getElem?.mp hids.1
    simp only [verifyRetained, hm, bind_eq_ok, ih hids.2, List.forall_mem_cons,
      Option.some.injEq, forall_eq']
    constructor
    · rintro ⟨_, hverify, hrest⟩
      exact ⟨hverify, hrest⟩
    · rintro ⟨hverify, hrest⟩
      exact ⟨(), hverify, hrest⟩

variable {steamId64 : String}

/-- An inspection succeeds when the folder reads and the blobs of what it would retain
have their hashes. -/
theorem exists_inspectGc_iff (hacc : store.account = some steamId64) (happ : appId ≠ 0)
    (hM : M = held P steamId64 appId dir) :
    (∃ report, inspectGc P store appId dir = .ok report) ↔
      collectManifestObjects P steamId64 appId dir = .ok M ∧
        ∀ id ∈ retainedIds M, ∀ m, M[id]? = some m →
          verifyFiles P dir appId id m.files = .ok () := by
  have hretained : ∀ id ∈ retainedIds M, id ∈ M := fun id hid => (mem_retainedIds_iff.mp hid).1
  rw [← verifyRetained_eq_ok_iff hretained]
  have happ' : validateAppId appId = .ok () := if_neg happ
  have hacc' : store.manifestAccount = .ok steamId64 := manifestAccount_eq_ok_iff.mpr hacc
  simp only [inspectGc, bind_eq_ok, pure_eq_ok]
  constructor
  · rintro ⟨_, _, _, account, haccount, M', hcollect, _, hverify, _⟩
    rw [hacc'] at haccount
    cases haccount
    obtain rfl : M = M' := hM.trans (collectManifestObjects_eq_ok_iff.mp hcollect).2.2.symm
    exact ⟨hcollect, hverify⟩
  · rintro ⟨hcollect, hverify⟩
    exact ⟨_, (), happ', steamId64, hacc', M, hcollect, (), hverify, rfl⟩

end Report

/-! ## What is swept -/

section Sweep

variable {dir dir' : AppDir}

variable {paths : IdSet} {name : String} {moved : List (String × Node)}

/-- The walk over the names returns the names of the manifest directories. -/
theorem collectPathsLoop_eq_ok {entries : List Entry} {acc : IdSet}
    (h : collectPathsLoop entries acc = .ok paths) :
    (∀ name, name ∈ paths ↔ name ∈ acc ∨
      isNonManifestAppEntry name = false ∧ ∃ node, (.utf8 name, node) ∈ entries) ∧
    ∀ name ∈ paths, name ∈ acc ∨ validateManifestId name = .ok () := by
  induction entries generalizing acc with
  | nil =>
    cases h
    exact ⟨fun name => by simp, fun name hname => .inl hname⟩
  | cons entry entries ih =>
    obtain ⟨name, node⟩ := entry
    cases name with
    | opaqueBytes bytes => cases h
    | utf8 name =>
      by_cases hspecial : isNonManifestAppEntry name = true
      · -- passed over
        simp only [collectPathsLoop, hspecial, if_true] at h
        obtain ⟨hmem, hvalid⟩ := ih h
        refine ⟨fun name' => ?_, hvalid⟩
        rw [hmem]
        refine or_congr_right (and_congr_right fun hname' => ?_)
        have hne : name' ≠ name := by
          rintro rfl
          rw [hspecial] at hname'
          cases hname'
        simp [hne]
      · have hspecial' : isNonManifestAppEntry name = false := by simpa using hspecial
        simp only [collectPathsLoop, hspecial', Bool.false_eq_true, if_false,
          ite_throw_eq_ok] at h
        obtain ⟨_, h⟩ := h
        split at h
        next entries' hid =>
          rw [ite_throw_eq_ok] at h
          obtain ⟨hmem, hvalid⟩ := ih h.2
          constructor
          · intro name'
            rw [hmem, Std.ExtTreeSet.mem_insert, compare_eq_iff_eq]
            by_cases hname : name' = name
            · subst hname
              simp [hspecial']
            · simp [hname, Ne.symm hname]
          · intro name' hname'
            rcases hvalid name' hname' with hacc | hok
            · rw [Std.ExtTreeSet.mem_insert, compare_eq_iff_eq] at hacc
              rcases hacc with rfl | hacc
              · exact .inr hid
              · exact .inl hacc
            · exact .inr hok
        next => cases h

theorem mem_collectManifestPaths (h : collectManifestPaths dir = .ok paths) : name ∈ paths ↔
      isNonManifestAppEntry name = false ∧ ∃ node, (.utf8 name, node) ∈ dir.entries := by
  rw [(collectPathsLoop_eq_ok h).1 name]
  exact or_iff_right Std.ExtTreeSet.not_mem_empty

variable {id : String}

theorem uniqueItems_eq_ok {items : List String} {set : IdSet} (h : uniqueItems items = .ok set) :
    id ∈ set ↔ id ∈ items := by
  simp only [uniqueItems, ite_throw_eq_ok, pure_eq_ok] at h
  rw [← h.2, Std.ExtTreeSet.mem_ofList, List.contains_iff_mem]

variable {plan : GcSweepPlan}

/-- A plan is made only for the names of the report, and sweeps its candidates. -/
theorem prepareGcSweep_eq_ok (h : prepareGcSweep store report dir = .ok (some plan)) :
    validateAppId report.appId = .ok () ∧ plan.appId = report.appId ∧
      plan.root = store.appDir report.appId ∧
      collectManifestPaths dir = .ok plan.expectedManifests ∧
      (∀ id, id ∈ plan.expectedManifests ↔
        id ∈ report.retainedManifests ∨ id ∈ report.candidateManifests) ∧
      (∀ id, id ∈ plan.candidateManifests ↔ id ∈ report.candidateManifests) := by
  simp only [prepareGcSweep, bind_eq_ok, throw_bind, ite_throw_eq_ok] at h
  obtain ⟨_, retained, hret, candidates, hcand, _, _, happ, current, hcurrent, h⟩ := h
  split at h
  next => cases h
  next heq =>
    cases h
    rw [not_not] at heq
    refine ⟨happ, rfl, rfl, heq ▸ hcurrent, fun id => ?_, fun id => uniqueItems_eq_ok hcand⟩
    rw [Std.ExtTreeSet.mem_union_iff, uniqueItems_eq_ok hret, uniqueItems_eq_ok hcand]

theorem remove_eq_self (h : dir.find id = none) : dir.remove id = dir := by
  refine AppDir.ext (List.filter_eq_self.mpr fun entry hentry => ?_)
  rw [bne_iff_ne]
  intro heq
  exact find_eq_none_iff.mp h entry.2 (heq ▸ hentry)

theorem moveManifestToTrash_eq_ok {node : Option Node}
    (h : moveManifestToTrash dir appId id = .ok (dir', node)) : dir' = dir.remove id := by
  simp only [moveManifestToTrash, bind_eq_ok] at h
  obtain ⟨_, _, h⟩ := h
  split at h
  next hnone =>
    cases h
    exact (remove_eq_self hnone).symm
  next =>
    cases h
    rfl

/-- A loop that ran through moved every id away. -/
theorem sweepLoop_eq_ok {ids : List String} {sweep : Option GcSweep}
    (h : sweepLoop appId ids dir moved = (dir', .ok sweep)) : dir' = dir.removeAll ids := by
  induction ids generalizing dir moved with
  | nil =>
    cases h
    rfl
  | cons id ids ih =>
    rw [sweepLoop] at h
    split at h
    next dir₁ node hmove =>
      obtain rfl := moveManifestToTrash_eq_ok hmove
      exact ih h
    next dir₁ hmove =>
      obtain rfl := moveManifestToTrash_eq_ok hmove
      exact ih h
    next => cases h

theorem applyGcSweep_eq_ok {sweep : GcSweep}
    (h : applyGcSweep store dir plan = (dir', .ok (some sweep))) :
    collectManifestPaths dir = .ok plan.expectedManifests ∧
      dir' = dir.removeAll plan.candidateManifests.toList := by
  unfold applyGcSweep at h
  split at h
  next => cases h
  next =>
    split at h
    next => cases h
    next current hcurrent =>
      split at h
      next => cases h
      next heq =>
        rw [not_not] at heq
        exact ⟨heq ▸ hcurrent, sweepLoop_eq_ok h⟩

/-- Valid names are all moved. -/
theorem sweepLoop_of_valid {ids : List String} (hids : ∀ id ∈ ids, manifestDir appId id = .ok ()) :
    ∃ sweep, sweepLoop appId ids dir moved = (dir.removeAll ids, .ok (some sweep)) := by
  induction ids generalizing dir moved with
  | nil => exact ⟨_, rfl⟩
  | cons id ids ih =>
    rw [List.forall_mem_cons] at hids
    rw [sweepLoop]
    cases hfind : dir.find id with
    | none =>
      have hmove : moveManifestToTrash dir appId id = .ok (dir, none) := by
        simp only [moveManifestToTrash, bind_eq_ok, hfind]
        exact ⟨(), hids.1, rfl⟩
      obtain ⟨sweep, hsweep⟩ : ∃ sweep, sweepLoop appId ids dir moved =
          (dir.removeAll ids, .ok (some sweep)) := ih hids.2
      refine ⟨sweep, ?_⟩
      rw [hmove]
      dsimp only
      rw [hsweep, AppDir.removeAll, AppDir.removeAll, List.foldl_cons, remove_eq_self hfind]
    | some node =>
      have hmove : moveManifestToTrash dir appId id = .ok (dir.remove id, some node) := by
        simp only [moveManifestToTrash, bind_eq_ok, hfind]
        exact ⟨(), hids.1, rfl⟩
      rw [hmove]
      exact ih hids.2

/-- The names of a prepared sweep are valid. -/
theorem manifestDir_of_prepared (h : prepareGcSweep store report dir = .ok (some plan)) :
    ∀ id ∈ plan.candidateManifests.toList, manifestDir plan.appId id = .ok () := by
  obtain ⟨happ, heq, _, hpaths, hexpected, hcand⟩ := prepareGcSweep_eq_ok h
  intro id hid
  rw [Std.ExtTreeSet.mem_toList, hcand] at hid
  have hmem := (hexpected id).mpr (.inr hid)
  rw [manifestDir, heq, happ]
  exact ((collectPathsLoop_eq_ok hpaths).2 id hmem).resolve_left Std.ExtTreeSet.not_mem_empty

theorem afterMoves_of_prepared (h : prepareGcSweep store report dir = .ok (some plan)) (k : Nat) :
    plan.afterMoves dir k = dir.removeAll (plan.candidateManifests.toList.take k) := by
  have hvalid := manifestDir_of_prepared h
  have hmoved : ∃ sweep, sweepLoop plan.appId (plan.candidateManifests.toList.take k) dir [] =
      (dir.removeAll (plan.candidateManifests.toList.take k), .ok (some sweep)) :=
    sweepLoop_of_valid fun id hid => hvalid id (List.mem_of_mem_take hid)
  obtain ⟨sweep, hsweep⟩ := hmoved
  rw [GcSweepPlan.afterMoves, hsweep]

/-- A prepared sweep of a folder whose names did not change runs through. -/
theorem applyGcSweep_of_prepared (h : prepareGcSweep store report dir = .ok (some plan)) :
    ∃ sweep, applyGcSweep store dir plan =
      (dir.removeAll plan.candidateManifests.toList, .ok (some sweep)) := by
  obtain ⟨_, heq, hroot, hpaths, _, _⟩ := prepareGcSweep_eq_ok h
  unfold applyGcSweep
  rw [if_neg (by rw [not_not, hroot, heq]), hpaths]
  dsimp only
  rw [if_neg (not_not.mpr rfl)]
  exact sweepLoop_of_valid (manifestDir_of_prepared h)

/-- The candidates are moved in the order of the report. -/
theorem toList_candidates {ids : List String} (hasc : ids.Pairwise (· < ·))
    (hmem : ∀ id, id ∈ plan.candidateManifests ↔ id ∈ ids) :
    plan.candidateManifests.toList = ids := by
  refine eq_of_ascending ?_ hasc fun id => ?_
  · exact Std.ExtTreeSet.ordered_toList.imp fun h => compare_lt_iff_lt.mp h
  · rw [Std.ExtTreeSet.mem_toList, hmem]

/-! ## The folder without the candidates -/

theorem mem_removeAll_entries {ids : List String} {entry : Entry} :
    entry ∈ (dir.removeAll ids).entries ↔
      entry ∈ dir.entries ∧ ∀ id ∈ ids, entry.1 ≠ .utf8 id := by
  induction ids generalizing dir with
  | nil => simp [AppDir.removeAll]
  | cons id ids ih =>
    have hcons : dir.removeAll (id :: ids) = (dir.remove id).removeAll ids := rfl
    rw [hcons, ih, mem_remove_entries, List.forall_mem_cons, and_assoc]

theorem find_removeAll {ids : List String} :
    (dir.removeAll ids).find name = if name ∈ ids then none else dir.find name := by
  refine Option.ext fun node => ?_
  rw [find_eq_some_iff, mem_removeAll_entries]
  by_cases hname : name ∈ ids
  · simp only [hname, if_true]
    constructor
    · rintro ⟨_, hne⟩
      exact absurd rfl (hne name hname)
    · intro h
      cases h
  · simp only [hname, if_false, find_eq_some_iff]
    refine and_iff_left fun id hid heq => hname ?_
    cases heq
    exact hid

theorem held_removeAll {ids : List String} :
    (held P steamId64 appId (dir.removeAll ids))[id]? =
      if id ∈ ids then none else (held P steamId64 appId dir)[id]? := by
  refine Option.ext fun m => ?_
  rw [held_getElem?_iff]
  simp only [mem_removeAll_entries]
  by_cases hid : id ∈ ids
  · simp only [hid, if_true]
    constructor
    · rintro ⟨_, ⟨_, hne⟩, _⟩
      exact absurd rfl (hne id hid)
    · intro h
      cases h
  · have hne : ∀ id' ∈ ids, FileName.utf8 id ≠ .utf8 id' := by
      rintro id' hid' heq
      cases heq
      exact hid hid'
    simp only [hid, if_false, held_getElem?_iff]
    constructor
    · rintro ⟨node, ⟨hnode, _⟩, hrest⟩
      exact ⟨node, hnode, hrest⟩
    · rintro ⟨node, hnode, hrest⟩
      exact ⟨node, ⟨hnode, hne⟩, hrest⟩

end Sweep

end VaporForge.Local
