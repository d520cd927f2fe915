import VaporForge.Lib.Fallible
import VaporForge.Lib.Lineage
import VaporForge.Lib.Maps
import VaporForge.Local.Folder

/-!
# What a folder holds

`resolve_app` walks the folder with an accumulator, a limit and a dozen refusals.
What it is after is simpler: the map of all manifests that read, `held`. This file
proves

> the walk succeeds exactly when every entry reads and there are at most 4096 of
> them, and then it returns `held` (`collectManifestObjects_eq_ok_iff`),

so that everything above can speak of `held`, which is total, does not depend on
the order of the listing, and changes by one `insert` or `erase` when a manifest
comes or goes. The heads are the heads of a `Lineage` whose nodes are the ids.
-/

namespace VaporForge.Local

open VaporForge.CloudCore
open Lib

/-! ## What the reader accepts -/

variable {name : String} {node : Node} {M' : Manifests}

theorem readManifest_eq_ok_iff {P : Platform} {steamId64 : String} {appId : Nat} {m : SaveManifest}
    :
    readManifest P steamId64 appId name node = .ok m ↔
      ∃ entries bytes, node = .dir entries ∧ validateManifestId name = .ok () ∧
        validateManifestDirectory entries = .ok () ∧
        readBoundedFile (lookup entries "manifest.json") maxManifestBytes "manifest" =
          .ok bytes ∧
        P.sha256 bytes = name ∧ P.decodeManifest bytes = some m ∧
        validateManifest name steamId64 appId m = .ok () ∧
        validateManifestBlobs (lookup entries "blobs") m.files = .ok () := by
  unfold readManifest
  split
  next entries hid =>
    simp only [bind_eq_ok, throw_bind, ite_throw_eq_ok, not_not]
    constructor
    · rintro ⟨_, hdir, bytes, hbytes, hsha, h⟩
      split at h
      next => cases h
      next m' hdecode =>
        simp only [bind_eq_ok, pure_eq_ok] at h
        obtain ⟨_, hvalid, _, hblobs, rfl⟩ := h
        exact ⟨entries, bytes, rfl, hid, hdir, hbytes, hsha, hdecode, hvalid, hblobs⟩
    · rintro ⟨entries', bytes, heq, _, hdir, hbytes, hsha, hdecode, hvalid, hblobs⟩
      cases heq
      refine ⟨(), hdir, bytes, hbytes, hsha, ?_⟩
      simp only [hdecode, bind_eq_ok, pure_eq_ok]
      exact ⟨(), hvalid, (), hblobs, trivial⟩
  next hno =>
    constructor
    · intro h
      cases h
    · rintro ⟨entries, _, rfl, hid, _⟩
      exact absurd hid (hno entries rfl)

/-- The parts of `validate_manifest` that the lineage rests on. -/
theorem validateManifest_eq_ok {id steamId64 : String} {appId : Nat} {m : SaveManifest}
    (h : validateManifest id steamId64 appId m = .ok ()) :
    m.steamId64 = steamId64 ∧ m.revision ≠ 0 ∧ id ∉ m.parents := by
  simp only [validateManifest, bind_eq_ok, throw_bind, ite_throw_eq_ok] at h
  obtain ⟨hfields, _, _, parents, _, hparents, _⟩ := h
  push Not at hfields hparents
  obtain ⟨rfl, hself⟩ := hparents
  refine ⟨hfields.1, hfields.2.2.1, fun hmem => hself ?_⟩
  exact List.any_eq_true.mpr ⟨id, hmem, beq_self_eq_true id⟩

/-! ## The manifests that read -/

section Held

variable (P : Platform) (steamId64 : String) (appId : Nat)

/-- What one entry contributes: the id and manifest of an entry that reads. -/
def readEntry : Entry → Option (String × SaveManifest)
  | (.opaqueBytes _, _) => none
  | (.utf8 name, node) =>
    if isNonManifestAppEntry name then none
    else
      match readManifest P steamId64 appId name node with
      | .ok manifest => some (name, manifest)
      | .error _ => none

/-- The walk passes over the entry or reads it. -/
def Reads : Entry → Prop
  | (.opaqueBytes _, _) => False
  | (.utf8 name, node) =>
    isNonManifestAppEntry name = true ∨
      ∃ manifest, readManifest P steamId64 appId name node = .ok manifest

/-- Every manifest of the folder that reads, by id. -/
def held (dir : AppDir) : Manifests :=
  collect ∅ (dir.entries.filterMap (readEntry P steamId64 appId))

variable {P steamId64 appId}

variable {m : SaveManifest} {entry : Entry} {dir : AppDir}

variable {id : String} {entries : List Entry} {M : Manifests}

theorem readEntry_eq_some_iff :
    readEntry P steamId64 appId entry = some (id, m) ↔
      ∃ node, entry = (.utf8 id, node) ∧ isNonManifestAppEntry id = false ∧
        readManifest P steamId64 appId id node = .ok m := by
  obtain ⟨name, node⟩ := entry
  cases name with
  | opaqueBytes bytes => simp [readEntry]
  | utf8 name =>
    simp only [readEntry]
    split
    next hspecial =>
      constructor
      · intro h
        cases h
      · rintro ⟨node', heq, hnot, _⟩
        cases heq
        rw [hspecial] at hnot
        cases hnot
    next hspecial =>
      split
      next m' hm' =>
        constructor
        · intro h
          cases h
          exact ⟨node, rfl, by simpa using hspecial, hm'⟩
        · rintro ⟨node', heq, _, hm⟩
          cases heq
          rw [hm'] at hm
          cases hm
          rfl
      next e he =>
        constructor
        · intro h
          cases h
        · rintro ⟨node', heq, _, hm⟩
          cases heq
          rw [he] at hm
          cases hm

theorem nodup_readEntry (hnd : (entries.map Prod.fst).Nodup) :
    ((entries.filterMap (readEntry P steamId64 appId)).map Prod.fst).Nodup := by
  induction entries with
  | nil => exact List.nodup_nil
  | cons entry entries ih =>
    rw [List.map_cons, List.nodup_cons] at hnd
    rw [List.filterMap_cons]
    split
    next => exact ih hnd.2
    next e he =>
      obtain ⟨id, m⟩ := e
      obtain ⟨node, rfl, _, _⟩ := readEntry_eq_some_iff.mp he
      rw [List.map_cons, List.nodup_cons]
      refine ⟨fun hmem => ?_, ih hnd.2⟩
      -- a second entry of this id would carry the same file name
      obtain ⟨⟨id', m'⟩, hmem', rfl⟩ := List.mem_map.mp hmem
      obtain ⟨entry', hentry', hread⟩ := List.mem_filterMap.mp hmem'
      obtain ⟨node', rfl, _, _⟩ := readEntry_eq_some_iff.mp hread
      exact hnd.1 (List.mem_map.mpr ⟨_, hentry', rfl⟩)

theorem held_getElem?_iff :
    (held P steamId64 appId dir)[id]? = some m ↔
      ∃ node, (.utf8 id, node) ∈ dir.entries ∧ isNonManifestAppEntry id = false ∧
        readManifest P steamId64 appId id node = .ok m := by
  have hnew : ∀ e ∈ dir.entries.filterMap (readEntry P steamId64 appId),
      e.1 ∉ (∅ : Manifests) := fun e _ => Std.ExtTreeMap.not_mem_empty
  rw [held, getElem?_collect (nodup_readEntry dir.nodup) hnew]
  constructor
  · rintro (hmem | hnone)
    · obtain ⟨entry, hentry, hread⟩ := List.mem_filterMap.mp hmem
      obtain ⟨node, rfl, hspecial, hm⟩ := readEntry_eq_some_iff.mp hread
      exact ⟨node, hentry, hspecial, hm⟩
    · simp at hnone
  · rintro ⟨node, hentry, hspecial, hm⟩
    exact .inl (List.mem_filterMap.mpr
      ⟨_, hentry, readEntry_eq_some_iff.mpr ⟨node, rfl, hspecial, hm⟩⟩)

/-! ## The walk returns them -/

/-- The loop, from any accumulator that holds none of the names still to come. -/
theorem collectLoop_eq_ok_iff {acc : Manifests} (hnd : (entries.map Prod.fst).Nodup)
    (hacc : acc.size ≤ maxManifestObjects)
    (hnew : ∀ e ∈ entries.filterMap (readEntry P steamId64 appId), e.1 ∉ acc) :
    collectLoop P steamId64 appId entries acc = .ok M ↔
      (∀ entry ∈ entries, Reads P steamId64 appId entry) ∧ M.size ≤ maxManifestObjects ∧
        M = collect acc (entries.filterMap (readEntry P steamId64 appId)) := by
  induction entries generalizing acc with
  | nil =>
    simp only [collectLoop, pure_eq_ok, List.filterMap_nil, collect_nil]
    constructor
    · rintro rfl
      exact ⟨fun entry h => absurd h List.not_mem_nil, hacc, rfl⟩
    · rintro ⟨_, _, rfl⟩
      rfl
  | cons entry entries ih =>
    obtain ⟨name, node⟩ := entry
    have hcons := hnd
    rw [List.map_cons, List.nodup_cons] at hnd
    cases name with
    | opaqueBytes bytes =>
      simp [collectLoop, Reads]
    | utf8 name =>
      by_cases hspecial : isNonManifestAppEntry name = true
      · -- `sessions`, `stats` and `playtime` are passed over
        have hskip : readEntry P steamId64 appId (.utf8 name, node) = none := by
          simp [readEntry, hspecial]
        rw [List.filterMap_cons_none hskip] at hnew ⊢
        simp only [collectLoop, hspecial, if_true, List.forall_mem_cons]
        rw [ih hnd.2 hacc hnew]
        simp [Reads, hspecial]
      · cases hread : readManifest P steamId64 appId name node with
        | error e =>
          have hno : ¬ Reads P steamId64 appId (.utf8 name, node) := by
            simp [Reads, hspecial, hread]
          simp [collectLoop, hspecial, hread, hno]
        | ok m =>
          have hspecial' : isNonManifestAppEntry name = false := by simpa using hspecial
          have hsome : readEntry P steamId64 appId (.utf8 name, node) = some (name, m) :=
            readEntry_eq_some_iff.mpr ⟨node, rfl, hspecial', hread⟩
          rw [List.filterMap_cons_some hsome] at hnew ⊢
          have hnot : name ∉ acc := hnew (name, m) List.mem_cons_self
          have hall : (∀ e ∈ (FileName.utf8 name, node) :: entries, Reads P steamId64 appId e) ↔
              ∀ e ∈ entries, Reads P steamId64 appId e := by
            simp [Reads, hread]
          have hnd' : (((name, m) :: entries.filterMap (readEntry P steamId64 appId)).map
              Prod.fst).Nodup := by
            rw [← List.filterMap_cons_some hsome]
            exact nodup_readEntry hcons
          have hsize := size_collect hnd' hnew
          rw [List.length_cons] at hsize
          rw [hall]
          by_cases hfull : acc.size ≥ maxManifestObjects
          · -- one more manifest than the limit allows
            simp only [collectLoop, hspecial', hfull, if_true, throw_eq_ok, Bool.false_eq_true,
              if_false, false_iff]
            rintro ⟨_, hM, rfl⟩
            omega
          · have hinsert : (acc.insert name m).size ≤ maxManifestObjects := by
              rw [Std.ExtTreeMap.size_insert]
              split <;> omega
            simp only [collectLoop, hspecial', hfull, if_false, Bool.false_eq_true, hread, hnot]
            exact ih hnd.2 hinsert (not_mem_insert_of_nodup hnd' hnew)

theorem collectManifestObjects_eq_ok_iff :
    collectManifestObjects P steamId64 appId dir = .ok M ↔
      (∀ entry ∈ dir.entries, Reads P steamId64 appId entry) ∧
        M.size ≤ maxManifestObjects ∧ M = held P steamId64 appId dir :=
  collectLoop_eq_ok_iff dir.nodup (by simp) fun _ _ => Std.ExtTreeMap.not_mem_empty

theorem resolveApp_eq_ok_iff {store : FolderStore} {resolved : ResolvedApp} :
    resolveApp P store appId dir = .ok resolved ↔
      appId ≠ 0 ∧ ∃ account, store.account = some account ∧
        ∃ M, collectManifestObjects P account appId dir = .ok M ∧ resolved = .of M := by
  have haccount : ∀ account, store.manifestAccount = .ok account ↔
      store.account = some account := by
    intro account
    unfold FolderStore.manifestAccount
    cases store.account <;> simp
  simp only [resolveApp, validateAppId, bind_eq_ok, ite_throw_eq_ok, pure_eq_ok, haccount]
  constructor
  · rintro ⟨_, ⟨hid, _⟩, account, hacc, M, hM, rfl⟩
    exact ⟨hid, account, hacc, M, hM, rfl⟩
  · rintro ⟨hid, account, hacc, M, hM, rfl⟩
    exact ⟨(), ⟨hid, trivial⟩, account, hacc, M, hM, rfl⟩

/-! ## Coming and going -/

theorem find_eq_some_iff : dir.find name = some node ↔ (.utf8 name, node) ∈ dir.entries := by
  have hnd := dir.nodup
  unfold AppDir.find lookup
  generalize dir.entries = entries at hnd
  induction entries with
  | nil => simp
  | cons entry entries ih =>
    rw [List.map_cons, List.nodup_cons] at hnd
    rw [List.find?_cons, List.mem_cons]
    by_cases hname : entry.1 = .utf8 name
    · obtain ⟨name', node'⟩ := entry
      cases hname
      simp only [BEq.rfl, Option.map_some, Option.some.injEq]
      constructor
      · rintro rfl
        exact .inl rfl
      · rintro (heq | hmem)
        · cases heq
          rfl
        · exact absurd (List.mem_map.mpr ⟨_, hmem, rfl⟩) hnd.1
    · have hne : (entry.1 == FileName.utf8 name) = false := by simpa using hname
      rw [hne]
      refine (ih hnd.2).trans (or_iff_right fun heq => hname ?_).symm
      rw [← heq]

theorem find_eq_none_iff : dir.find name = none ↔ ∀ node, (.utf8 name, node) ∉ dir.entries := by
  rw [Option.eq_none_iff_forall_ne_some]
  exact forall_congr' fun node => not_congr find_eq_some_iff

theorem mem_put_entries :
    entry ∈ (dir.put name node).entries ↔
      entry = (.utf8 name, node) ∨ entry ∈ dir.entries ∧ entry.1 ≠ .utf8 name := by
  simp [AppDir.put, AppDir.remove]

theorem find_put {name' : String} :
    (dir.put name node).find name' = if name' = name then some node else dir.find name' := by
  refine Option.ext fun node' => ?_
  rw [find_eq_some_iff, mem_put_entries]
  by_cases hname : name' = name
  · subst hname
    simp [eq_comm]
  · simp [hname, find_eq_some_iff]

theorem mem_remove_entries :
    entry ∈ (dir.remove name).entries ↔ entry ∈ dir.entries ∧ entry.1 ≠ .utf8 name := by
  simp [AppDir.remove]

/-- In a folder that reads, the names that are not passed over are the ids held. -/
theorem mem_held_iff_of_reads (h : ∀ entry ∈ dir.entries, Reads P steamId64 appId entry) :
    id ∈ held P steamId64 appId dir ↔
      isNonManifestAppEntry id = false ∧ ∃ node, (.utf8 id, node) ∈ dir.entries := by
  rw [mem_iff_exists_getElem?]
  constructor
  · rintro ⟨m, hm⟩
    obtain ⟨node, hnode, hname, _⟩ := held_getElem?_iff.mp hm
    exact ⟨hname, node, hnode⟩
  · rintro ⟨hname, node, hnode⟩
    rcases h _ hnode with hspecial | ⟨m, hm⟩
    · rw [hname] at hspecial
      cases hspecial
    · exact ⟨m, held_getElem?_iff.mpr ⟨node, hnode, hname, hm⟩⟩

theorem reads_put (h : ∀ entry ∈ dir.entries, Reads P steamId64 appId entry)
    (hread : readManifest P steamId64 appId name node = .ok m) :
    ∀ entry ∈ (dir.put name node).entries, Reads P steamId64 appId entry := by
  intro entry hentry
  rcases mem_put_entries.mp hentry with rfl | ⟨hold, _⟩
  · exact .inr ⟨m, hread⟩
  · exact h entry hold

theorem held_put (hspecial : isNonManifestAppEntry name = false)
    (hread : readManifest P steamId64 appId name node = .ok m) :
    held P steamId64 appId (dir.put name node) =
      (held P steamId64 appId dir).insert name m := by
  refine Std.ExtTreeMap.ext_getElem? fun id => Option.ext fun m' => ?_
  rw [held_getElem?_iff, Std.ExtTreeMap.getElem?_insert]
  by_cases hid : name = id
  · subst hid
    simp only [mem_put_entries, Std.ReflCmp.compare_self, if_true, Option.some.injEq]
    constructor
    · rintro ⟨node', hnode', _, hread'⟩
      rcases hnode' with heq | ⟨_, hne⟩
      · cases heq
        rw [hread] at hread'
        exact Except.ok.inj hread'
      · exact absurd rfl hne
    · rintro rfl
      exact ⟨node, .inl rfl, hspecial, hread⟩
  · have hne : compare name id ≠ .eq := fun heq => hid (compare_eq_iff_eq.mp heq)
    simp only [mem_put_entries, hne, if_false, held_getElem?_iff]
    simp [Ne.symm hid]

theorem held_remove (dir : AppDir) (name : String) :
    held P steamId64 appId (dir.remove name) = (held P steamId64 appId dir).erase name := by
  refine Std.ExtTreeMap.ext_getElem? fun id => Option.ext fun m' => ?_
  rw [held_getElem?_iff, Std.ExtTreeMap.getElem?_erase]
  by_cases hid : name = id
  · subst hid
    simp [mem_remove_entries]
  · have hne : compare name id ≠ .eq := fun heq => hid (compare_eq_iff_eq.mp heq)
    simp only [mem_remove_entries, hne, if_false, held_getElem?_iff]
    simp [Ne.symm hid]

end Held

/-! ## The lineage of the ids -/

/-- Manifest `c` names `p` as a parent. -/
def Names (M : Manifests) (c p : String) : Prop := ∃ m, M[c]? = some m ∧ p ∈ m.parents

/-- The ids of a set of manifests. -/
def ids (M : Manifests) : Set String := {id | id ∈ M}

theorem finite_ids (M : Manifests) : (ids M).Finite :=
  M.keys.finite_toSet.subset fun _ hid => Std.ExtTreeMap.mem_keys.mpr hid

theorem mem_referenced_iff {M : Manifests} {id : String} :
    id ∈ referenced M ↔ ∃ c, Names M c id := by
  simp only [referenced, List.mem_flatMap, Names]
  constructor
  · rintro ⟨⟨c, m⟩, hcm, hid⟩
    exact ⟨c, m, Std.ExtTreeMap.mem_toList_iff_getElem?_eq_some.mp hcm, hid⟩
  · rintro ⟨c, m, hcm, hid⟩
    exact ⟨(c, m), Std.ExtTreeMap.mem_toList_iff_getElem?_eq_some.mpr hcm, hid⟩

theorem mem_headIds_iff {M : Manifests} {id : String} :
    id ∈ headIds M ↔ id ∈ Lineage.Heads (Names M) (ids M) := by
  simp only [headIds, List.mem_filter, Std.ExtTreeMap.mem_keys, Bool.not_eq_true',
    List.contains_eq_mem, decide_eq_false_iff_not, mem_referenced_iff, not_exists]
  constructor
  · rintro ⟨hid, hnone⟩
    exact ⟨hid, fun c _ => hnone c⟩
  · rintro ⟨hid, hnone⟩
    refine ⟨hid, fun c hc => hnone c ?_ hc⟩
    obtain ⟨m, hm, _⟩ := hc
    exact mem_iff_exists_getElem?.mpr ⟨m, hm⟩

theorem headIds_ascending (M : Manifests) : (headIds M).Pairwise (· < ·) :=
  (keys_ascending M).filter _

theorem headIds_eq_iff {M : Manifests} :
    headIds M = headIds M' ↔
      Lineage.Heads (Names M) (ids M) = Lineage.Heads (Names M') (ids M') := by
  constructor
  · intro h
    ext id
    rw [← mem_headIds_iff, ← mem_headIds_iff, h]
  · intro h
    refine eq_of_ascending (headIds_ascending M) (headIds_ascending M') fun id => ?_
    rw [mem_headIds_iff, mem_headIds_iff, h]

/-! ## Folders that grow -/

/-- Every manifest of `M` is still there in `M'`, the same. -/
def Extends (M M' : Manifests) : Prop :=
  ∀ (id : String) (m : SaveManifest), M[id]? = some m → M'[id]? = some m

theorem Extends.refl (M : Manifests) : Extends M M := fun _ _ h => h

theorem Extends.trans {M₁ M₂ M₃ : Manifests} (h₁ : Extends M₁ M₂) (h₂ : Extends M₂ M₃) :
    Extends M₁ M₃ := fun id m h => h₂ id m (h₁ id m h)

theorem extends_insert {M : Manifests} {id : String} (hid : id ∉ M) (m : SaveManifest) :
    Extends M (M.insert id m) := by
  intro id' m' h
  rw [Std.ExtTreeMap.getElem?_insert, if_neg, h]
  intro heq
  obtain rfl : id = id' := compare_eq_iff_eq.mp heq
  exact hid (mem_iff_exists_getElem?.mpr ⟨m', h⟩)

variable {c : String}

theorem Extends.names {M : Manifests} (h : Extends M M') (hc : c ∈ M) {p : String} :
    Names M' c p ↔ Names M c p := by
  obtain ⟨m, hm⟩ := mem_iff_exists_getElem?.mp hc
  constructor
  · rintro ⟨m', hm', hp⟩
    rw [h c m hm] at hm'
    cases hm'
    exact ⟨m, hm, hp⟩
  · rintro ⟨m', hm', hp⟩
    exact ⟨m', h c m' hm', hp⟩

theorem Extends.size_le {M : Manifests} (h : Extends M M') : M.size ≤ M'.size := by
  rw [← Std.ExtTreeMap.length_keys, ← Std.ExtTreeMap.length_keys]
  refine (List.subperm_of_subset ((keys_ascending M).imp ne_of_lt) fun id hid => ?_).length_le
  rw [Std.ExtTreeMap.mem_keys] at hid ⊢
  obtain ⟨m, hm⟩ := mem_iff_exists_getElem?.mp hid
  exact mem_iff_exists_getElem?.mpr ⟨m, h id m hm⟩

/-- No manifest is reached from itself by following parents that are present. -/
def Acyclic (M : Manifests) : Prop := ∃ rank, Lineage.Ranked (Names M) (ids M) rank

theorem Acyclic.mono {M : Manifests} (h : Extends M M') (hac : Acyclic M') : Acyclic M := by
  obtain ⟨rank, hrank⟩ := hac
  have hsub : ∀ id ∈ ids M, id ∈ ids M' := by
    intro id hid
    obtain ⟨m, hm⟩ := mem_iff_exists_getElem?.mp hid
    exact mem_iff_exists_getElem?.mpr ⟨m, h id m hm⟩
  exact ⟨rank, fun c hc p hp hcp =>
    hrank c (hsub c hc) p (hsub p hp) ((h.names hc).mpr hcp)⟩

theorem acyclic_of_rank {M : Manifests} (rank : String → Nat)
    (h : ∀ e ∈ M.toList, ∀ p ∈ e.2.parents, rank p < rank e.1) : Acyclic M := by
  refine ⟨rank, fun c _ p _ ⟨m, hm, hp⟩ => ?_⟩
  exact h (c, m) (Std.ExtTreeMap.mem_toList_iff_getElem?_eq_some.mpr hm) p hp

section Insert

variable {M : Manifests} {id : String} {m : SaveManifest}

theorem ids_insert : ids (M.insert id m) = insert id (ids M) := by
  ext x
  rw [ids, Set.mem_ofPred_eq, Std.ExtTreeMap.mem_insert, compare_eq_iff_eq, Set.mem_insert_iff,
    eq_comm]
  rfl

/-- What a manifest added over the heads names: the heads. -/
theorem names_insert_iff (hid : id ∉ M) (hparents : m.parents = headIds M) (p : String) :
    Names (M.insert id m) id p ↔
      p ∈ Lineage.Heads (Names (M.insert id m)) (ids M) := by
  have hext := extends_insert hid m
  have hheads : Lineage.Heads (Names (M.insert id m)) (ids M) =
      Lineage.Heads (Names M) (ids M) :=
    Lineage.heads_congr fun c hc p => hext.names hc
  rw [hheads, ← mem_headIds_iff, ← hparents]
  simp [Names]

/-- A manifest added over the heads becomes the only head, unless one names it. -/
theorem headIds_insert_of_fresh (hid : id ∉ M) (hparents : m.parents = headIds M)
    (hfresh : ∀ c ∈ ids M, ¬ Names (M.insert id m) c id) : headIds (M.insert id m) = [id] := by
  have hover := names_insert_iff hid hparents
  have hself : ¬ Names (M.insert id m) id id := fun h => hid ((hover id).mp h).1
  have hsole := Lineage.heads_insert (fun p _ => hover p) hfresh hself
  refine eq_of_ascending (headIds_ascending _) (List.pairwise_singleton _ _) fun x => ?_
  rw [mem_headIds_iff, ids_insert, hsole, List.mem_singleton, Set.mem_singleton_iff]

/-- Following parents never leads back, so no manifest names one added later. -/
theorem headIds_insert (hid : id ∉ M) (hparents : m.parents = headIds M)
    (hac : Acyclic (M.insert id m)) : headIds (M.insert id m) = [id] := by
  obtain ⟨rank, hrank⟩ := hac
  rw [ids_insert] at hrank
  exact headIds_insert_of_fresh hid hparents (Lineage.not_names_of_ranked (finite_ids M) hrank
    fun p hp => (names_insert_iff hid hparents p).mpr hp)

end Insert

/-- The parents of a manifest that is present are not the heads any more. -/
theorem headIds_ne_parents {M : Manifests} (hac : Acyclic M) {m : SaveManifest}
    (hc : M[c]? = some m) : headIds M ≠ m.parents := by
  intro heq
  obtain ⟨rank, hrank⟩ := hac
  have hmem : c ∈ ids M := mem_iff_exists_getElem?.mpr ⟨m, hc⟩
  cases hparents : m.parents with
  | nil =>
    have hnone : Lineage.Heads (Names M) (ids M) = ∅ := by
      ext x
      rw [← mem_headIds_iff, heq, hparents]
      simp
    rw [Lineage.eq_empty_of_heads_eq_empty (finite_ids M) hrank hnone] at hmem
    exact hmem
  | cons p rest =>
    have hp : p ∈ headIds M := by
      rw [heq, hparents]
      exact List.mem_cons_self
    exact (mem_headIds_iff.mp hp).2 c hmem ⟨m, hc, by rw [hparents]; exact List.mem_cons_self⟩

/-! ## The greatest revision -/

theorem maxRevision_le_iff {M : Manifests} {n : Nat} :
    maxRevision M ≤ n ↔ ∀ (id : String) (m : SaveManifest), M[id]? = some m → m.revision ≤ n := by
  have hfold : ∀ (l : List (String × SaveManifest)) (r : Nat),
      l.foldl (fun revision entry => max revision entry.2.revision) r ≤ n ↔
        r ≤ n ∧ ∀ entry ∈ l, entry.2.revision ≤ n := by
    intro l
    induction l with
    | nil => simp
    | cons entry l ih =>
      intro r
      rw [List.foldl_cons, ih, List.forall_mem_cons, Nat.max_le, and_assoc]
  rw [maxRevision, hfold]
  constructor
  · rintro ⟨_, hall⟩ id m hm
    exact hall (id, m) (Std.ExtTreeMap.mem_toList_iff_getElem?_eq_some.mpr hm)
  · intro hall
    exact ⟨Nat.zero_le n, fun ⟨id, m⟩ hmem =>
      hall id m (Std.ExtTreeMap.mem_toList_iff_getElem?_eq_some.mp hmem)⟩

theorem revision_le_maxRevision {M : Manifests} {id : String} {m : SaveManifest}
    (hm : M[id]? = some m) : m.revision ≤ maxRevision M :=
  maxRevision_le_iff.mp le_rfl id m hm

end VaporForge.Local
