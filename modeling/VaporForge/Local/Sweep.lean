import VaporForge.Local.ChangeNumber
import VaporForge.Local.Gc

/-!
# What a sweep may and may not break

The candidates are computed on one state of the folder and moved out of a later one.
Comparing names is enough, because a name is a hash of the manifest:

> a sweep that succeeds changes neither the heads nor their parents nor the greatest
> revision, and an operation that could be committed before can be committed after
> (`sweep_keeps_live`).

It is not enough for the moments in between. The moves go in ascending order of ids,
which says nothing about age. When a candidate goes before a candidate it
replaced, the older one has lost the only manifest that named it and is a head again:

> the heads stay the same at every point exactly when every candidate is named by a
> manifest that stays or has a greater id (`sweep_prefix_heads_iff`).
-/

namespace VaporForge.Local

open VaporForge.CloudCore
open Lib

/-! ## Manifests taken away -/

section Without

variable {M M' : Manifests} {gone : List String}

/-- `M'` is `M` without the ids of a list. -/
def Without (M : Manifests) (gone : List String) (M' : Manifests) : Prop :=
  ∀ id : String, M'[id]? = if id ∈ gone then none else M[id]?

theorem Without.extends (h : Without M gone M') : Extends M' M := by
  intro id m hm
  rw [h id] at hm
  split at hm
  · cases hm
  · exact hm

theorem Without.ids (h : Without M gone M') : ids M' = ids M \ {id | id ∈ gone} := by
  ext id
  have hiff : id ∈ M' ↔ id ∈ M ∧ id ∉ gone := by
    rw [mem_iff_exists_getElem?, mem_iff_exists_getElem?, h id]
    by_cases hid : id ∈ gone
    · simp [hid]
    · simp [hid]
  exact hiff

theorem Without.heads (h : Without M gone M') :
    Lineage.Heads (Names M') (Local.ids M') =
      Lineage.Heads (Names M) (Local.ids M \ {id | id ∈ gone}) := by
  rw [← h.ids]
  exact Lineage.heads_congr fun c hc p => (h.extends.names hc).symm

theorem not_mem_candidateIds_of_head {id : String} (hid : id ∈ headIds M) :
    id ∉ candidateIds M := fun hcand =>
  (mem_candidateIds_iff.mp hcand).2
    (mem_retainedIds_iff.mpr ⟨(mem_headIds_iff.mp hid).1, .inl hid⟩)

variable {p : String}

theorem not_mem_candidateIds_of_named {id : String} (hid : id ∈ headIds M) (hp : Names M id p) :
    p ∉ candidateIds M := fun hcand =>
  (mem_candidateIds_iff.mp hcand).2
    (mem_retainedIds_iff.mpr ⟨(mem_candidateIds_iff.mp hcand).1, .inr ⟨id, hid, hp⟩⟩)

/-- A manifest that stays and is no head is named by a head. -/
theorem exists_head_naming (hp : p ∈ M) (hstay : p ∉ candidateIds M) (hnot : p ∉ headIds M) :
    ∃ c ∈ headIds M, Names M c p := by
  have hret : p ∈ retainedIds M := by
    by_contra hno
    exact hstay (mem_candidateIds_iff.mpr ⟨hp, hno⟩)
  exact (mem_retainedIds_iff.mp hret).2.resolve_left hnot

theorem Without.headIds (h : Without M (candidateIds M) M') : headIds M' = headIds M := by
  rw [headIds_eq_iff, h.heads]
  refine (Lineage.heads_eq_iff Set.sdiff_subset fun id hid => ?_).mpr fun p hp hnot => ?_
  · exact ⟨hid.1, not_mem_candidateIds_of_head (mem_headIds_iff.mpr hid)⟩
  · rw [← mem_headIds_iff] at hnot
    obtain ⟨c, hc, hcp⟩ := exists_head_naming hp.1 hp.2 hnot
    exact ⟨c, ⟨(mem_headIds_iff.mp hc).1, not_mem_candidateIds_of_head hc⟩, hcp⟩

theorem Without.getElem?_of_not_mem (h : Without M gone M') {id : String}
    (hid : id ∉ gone) : M'[id]? = M[id]? := by
  rw [h id, if_neg hid]

theorem Without.maxRevision (h : Without M (candidateIds M) M')
    (hrank : Lineage.Ranked (Names M) (Local.ids M) (revisionAt M)) :
    maxRevision M' = maxRevision M := by
  refine le_antisymm (maxRevision_le_iff.mpr fun id m hm => ?_)
    (maxRevision_le_iff.mpr fun id m hm => ?_)
  · exact revision_le_maxRevision (h.extends id m hm)
  · -- a head at or above the manifest stays
    have hkept : ∀ head ∈ Lineage.Heads (Names M) (Local.ids M), ∀ m',
        M[head]? = some m' → m'.revision ≤ Local.maxRevision M' := by
      intro head hhead m' hm'
      rw [← mem_headIds_iff] at hhead
      have hget := h.getElem?_of_not_mem (not_mem_candidateIds_of_head hhead)
      exact revision_le_maxRevision (hget ▸ hm')
    have hmem : id ∈ Local.ids M := mem_iff_exists_getElem?.mpr ⟨m, hm⟩
    rcases Lineage.mem_heads_or_below (finite_ids M) hrank hmem with hhead | ⟨head, hhead, hlt⟩
    · exact hkept id hhead m hm
    · obtain ⟨m', hm'⟩ := mem_iff_exists_getElem?.mp hhead.1
      rw [revisionAt_of_getElem? hm, revisionAt_of_getElem? hm'] at hlt
      exact hlt.le.trans (hkept head hhead m' hm')

theorem Without.current (h : Without M (candidateIds M) M') :
    (ResolvedApp.of M').current = (ResolvedApp.of M).current := by
  have hheads : (ResolvedApp.of M').heads = (ResolvedApp.of M).heads := h.headIds
  unfold ResolvedApp.current
  rw [hheads]
  split
  next => rfl
  next id hone =>
    have hid : id ∈ Local.headIds M := by
      have : (ResolvedApp.of M).heads = Local.headIds M := rfl
      rw [← this, hone]
      exact List.mem_singleton_self id
    have hget : (ResolvedApp.of M').manifests[id]? = (ResolvedApp.of M).manifests[id]? :=
      h.getElem?_of_not_mem (not_mem_candidateIds_of_head hid)
    rw [hget]
  next => rfl

end Without

/-! ## From the report to the sweep -/

section Between

variable {D : Type} {P : Platform} {F : Fleet D} {w : World D}

variable {d : D}

theorem act_reads [DecidableEq D] (hs : w.Sound P F)
    (h : ∀ entry ∈ (w.device d).dir.entries, Reads P F.steamId64 F.appId entry) (a : FleetAction D) :
    ∀ entry ∈ ((w.act P F a).device d).dir.entries,
      Reads P F.steamId64 F.appId entry := by
  by_cases hd : d = a.device
  swap
  · rw [act_device_of_ne hd]
    exact h
  subst hd
  cases a with
  | call d action =>
    rw [call_device, FleetAction.device, if_pos rfl]
    rcases act_dir (fun op hop => (hs.operations d op hop).1) action with
      hdir | ⟨op, _, m, hpub⟩
    · rw [hdir]
      exact h
    · obtain ⟨node, steamId64, hacc, _, hread, hput⟩ := hpub.put
      rw [F.account d] at hacc
      cases hacc
      rw [hput]
      exact reads_put h hread
  | arrive d i =>
    simp only [World.act, FleetAction.device]
    split
    next => exact h
    next name node hitem =>
      obtain ⟨m, _, _, hread, _⟩ := hs.items _ (List.mem_of_getElem? hitem)
      simp only [World.setDevice, Function.update_self]
      exact reads_put h hread
  | remove d id =>
    simp only [World.act, World.setDevice, FleetAction.device, Function.update_self]
    exact fun entry hentry => h entry (mem_remove_entries.mp hentry).1

theorem run_reads [DecidableEq D] (hs : w.Sound P F)
    (h : ∀ entry ∈ (w.device d).dir.entries, Reads P F.steamId64 F.appId entry)
    (actions : List (FleetAction D)) :
    ∀ entry ∈ ((w.run P F actions).device d).dir.entries,
      Reads P F.steamId64 F.appId entry := by
  induction actions generalizing w with
  | nil => exact h
  | cons a actions ih => exact ih (act_sound hs a) (act_reads hs h a)

/-- Names are hashes: folders of the same names hold the same manifests. -/
theorem held_eq_of_mem_iff {w' : World D} (hs : w.Sound P F) (hs' : w'.Sound P F)
    (hsub : ∀ item ∈ w.published, item ∈ w'.published) (hcf : w'.CollisionFree P F)
    (hmem : ∀ id, id ∈ F.held P (w.device d).dir ↔ id ∈ F.held P (w'.device d).dir) :
    F.held P (w.device d).dir = F.held P (w'.device d).dir := by
  refine Std.ExtTreeMap.ext_getElem? fun id => ?_
  by_cases hid : id ∈ F.held P (w.device d).dir
  · obtain ⟨m, hm⟩ := mem_iff_exists_getElem?.mp hid
    obtain ⟨m', hm'⟩ := mem_iff_exists_getElem?.mp ((hmem id).mp hid)
    obtain ⟨hpub, hid₁⟩ := hs.folders d id m hm
    obtain ⟨hpub', hid₂⟩ := hs'.folders d id m' hm'
    rw [hm, hm', hcf m m' (hpub.mono hsub) hpub' (hid₁.trans hid₂.symm)]
  · rw [Std.ExtTreeMap.getElem?_eq_none hid,
      Std.ExtTreeMap.getElem?_eq_none fun h => hid ((hmem id).mpr h)]

/-- A sweep that succeeded on what was inspected removed the candidates of the folder
as it stood: what the folder held was still what had been inspected. -/
theorem swept [DecidableEq D] {w₁ w₂ : World D} (hs : w.Sound P F)
    {toPrepare toApply : List (FleetAction D)} (hw₁ : w₁ = w.run P F toPrepare)
    (hw₂ : w₂ = w₁.run P F toApply) {report : GcReport} {plan : GcSweepPlan} {dir' : AppDir}
    {sweep : GcSweep} (hinspect : inspectGc P (F.store d) F.appId (w.device d).dir = .ok report)
    (hprepare : prepareGcSweep (F.store d) report (w₁.device d).dir = .ok (some plan))
    (happly : applyGcSweep (F.store d) (w₂.device d).dir plan = (dir', .ok (some sweep)))
    (hcf : w₂.CollisionFree P F) :
    dir' = (w₂.device d).dir.removeAll (candidateIds (F.held P (w₂.device d).dir)) := by
  have hs₁ : w₁.Sound P F := hw₁ ▸ run_sound hs toPrepare
  have hs₂ : w₂.Sound P F := hw₂ ▸ run_sound hs₁ toApply
  obtain ⟨steamId64, hacc, hcollect, _, hretained, hcandidates⟩ := inspectGc_eq_ok hinspect
  rw [F.account d] at hacc
  cases hacc
  have hreads₁ := run_reads hs (collectManifestObjects_eq_ok_iff.mp hcollect).1 toPrepare
  rw [← hw₁] at hreads₁
  have hreads₂ := run_reads hs₁ hreads₁ toApply
  rw [← hw₂] at hreads₂
  obtain ⟨_, _, _, _, hexpected, hplan⟩ := prepareGcSweep_eq_ok hprepare
  obtain ⟨hpaths, hdir'⟩ := applyGcSweep_eq_ok happly
  have hsub : ∀ item ∈ w.published, item ∈ w₂.published := fun item hitem =>
    hw₂ ▸ run_published w₁ toApply item (hw₁ ▸ run_published w toPrepare item hitem)
  have hmem : ∀ id, id ∈ F.held P (w.device d).dir ↔ id ∈ F.held P (w₂.device d).dir := by
    intro id
    rw [Fleet.held, Fleet.held, mem_held_iff_of_reads hreads₂, ← mem_collectManifestPaths hpaths,
      hexpected, hretained, hcandidates, mem_retained_or_candidate]
  have hsame := held_eq_of_mem_iff hs hs₂ hsub hcf hmem
  rw [hdir', toList_candidates (candidateIds_ascending (F.held P (w₂.device d).dir)) fun id => ?_]
  rw [hplan, hcandidates, ← hsame]
  rfl

end Between

/-! ## A sweep keeps what is live -/

section Live

variable {D : Type}

/-- What must survive a sweep from `dev.dir` to `dir'`: the heads with everything in
their directories, their parents, the greatest revision, and every chance to commit. -/
structure LiveKept (P : Platform) (F : Fleet D) (d : D) (dev : Device) (dir' : AppDir) :
    Prop where
  heads : headIds (F.held P dir') = headIds (F.held P dev.dir)
  head : ∀ id ∈ headIds (F.held P dev.dir), dir'.find id = dev.dir.find id ∧
    (F.held P dir')[id]? = (F.held P dev.dir)[id]?
  parents : ∀ id ∈ headIds (F.held P dev.dir), ∀ p, Names (F.held P dev.dir) id p →
    dir'.find p = dev.dir.find p ∧ (F.held P dir')[p]? = (F.held P dev.dir)[p]?
  maxRevision : maxRevision (F.held P dir') = maxRevision (F.held P dev.dir)
  commits : ∀ op ∈ dev.operations, ∀ now staged deleted identity n,
    (commitOperation P now (F.store d) dev.dir op staged deleted identity).result = .ok n →
    (commitOperation P now (F.store d) dir' op staged deleted identity).result = .ok n

variable {P : Platform} {F : Fleet D}

variable {appId : Nat} {dir : AppDir} {steamId64 : String}

/-- A folder without its candidates resolves whenever the folder does. -/
theorem resolveApp_removeAll {store : FolderStore} (hacc : store.account = some steamId64)
    (happ : appId ≠ 0)
    (hreads : collectManifestObjects P steamId64 appId dir = .ok (held P steamId64 appId dir))
    (gone : List String) :
    resolveApp P store appId (dir.removeAll gone) =
      .ok (.of (held P steamId64 appId (dir.removeAll gone))) := by
  obtain ⟨hall, hsize, _⟩ := collectManifestObjects_eq_ok_iff.mp hreads
  refine resolveApp_eq_ok_iff.mpr ⟨happ, steamId64, hacc, _, ?_, rfl⟩
  refine collectManifestObjects_eq_ok_iff.mpr ⟨fun entry hentry => ?_, ?_, rfl⟩
  · exact hall entry (mem_removeAll_entries.mp hentry).1
  · have hwithout : Without (held P steamId64 appId dir) gone
        (held P steamId64 appId (dir.removeAll gone)) := fun id => held_removeAll
    exact hwithout.extends.size_le.trans hsize

/-- **Garbage collection never touches live data.** Inspected at one moment, prepared
at a later and applied at a still later one, with any calls, arrivals and deletions on
all devices in between. -/
theorem sweep_keeps_live [DecidableEq D] (P : Platform) (F : Fleet D) (d : D)
    (start w₀ w₁ w₂ : World D) (hstart : start.Fresh P F)
    (history toPrepare toApply : List (FleetAction D)) (hw₀ : w₀ = start.run P F history)
    (hw₁ : w₁ = w₀.run P F toPrepare) (hw₂ : w₂ = w₁.run P F toApply)
    (hcf : w₂.CollisionFree P F) (report : GcReport) (plan : GcSweepPlan) (sweep : GcSweep)
    (dir' : AppDir)
    (hinspect : inspectGc P (F.store d) F.appId (w₀.device d).dir = .ok report)
    (hprepare : prepareGcSweep (F.store d) report (w₁.device d).dir = .ok (some plan))
    (happly : applyGcSweep (F.store d) (w₂.device d).dir plan = (dir', .ok (some sweep))) :
    LiveKept P F d (w₂.device d) dir' := by
  have hs₀ : w₀.Sound P F := hw₀ ▸ run_sound hstart.sound history
  have hs₂ : w₂.Sound P F := hw₂ ▸ run_sound (hw₁ ▸ run_sound hs₀ toPrepare) toApply
  obtain rfl := swept hs₀ hw₁ hw₂ hinspect hprepare happly hcf
  have hwithout : Without (F.held P (w₂.device d).dir) (candidateIds (F.held P (w₂.device d).dir))
      (F.held P ((w₂.device d).dir.removeAll (candidateIds (F.held P (w₂.device d).dir)))) :=
    fun id => held_removeAll
  have hkept : ∀ id ∉ candidateIds (F.held P (w₂.device d).dir),
      ((w₂.device d).dir.removeAll (candidateIds (F.held P (w₂.device d).dir))).find id =
        (w₂.device d).dir.find id := by
    intro id hid
    rw [find_removeAll, if_neg hid]
  have hmax := hwithout.maxRevision (hs₂.ranked hcf d)
  refine ⟨hwithout.headIds, fun id hid => ?_, fun id hid p hp => ?_, hmax,
    fun op hop now staged deleted identity n hok => ?_⟩
  · have hnot := not_mem_candidateIds_of_head hid
    exact ⟨hkept id hnot, hwithout.getElem?_of_not_mem hnot⟩
  · have hnot := not_mem_candidateIds_of_named hid hp
    exact ⟨hkept p hnot, hwithout.getElem?_of_not_mem hnot⟩
  · have happ := (hs₂.operations d op hop).1
    rcases commitOperation_cases P now (F.store d) (w₂.device d).dir op staged deleted identity
      with ⟨e, herr, _⟩ | ⟨steamId64, files, hplan, _⟩
    · rw [hok] at herr
      cases herr
    obtain rfl : steamId64 = F.steamId64 :=
      Option.some.inj (hplan.account.symm.trans (F.account d))
    have hreads := hplan.reads
    have hne := hplan.appId
    rw [happ] at hreads hne
    refine commitOperation_result_of_same (M := F.held P (w₂.device d).dir) ?_ ?_
      hwithout.headIds hmax hwithout.current (fun id => ?_) hok
    · rw [happ]
      exact resolveApp_eq_ok_iff.mpr ⟨hne, F.steamId64, F.account d, _, hreads, rfl⟩
    · rw [happ]
      exact resolveApp_removeAll (F.account d) hne hreads _
    · rw [find_removeAll]
      split
      · exact .inr rfl
      · exact .inl rfl

end Live

/-- Two more uploads of the deck, and a third one begun. -/
def deckUploads : List (FleetAction Bool) := [
  .call false (.begin [secondId] none 0),
  .call false (.stage 1 "save.dat" (utf8Bytes "three") thirdRow.metadata),
  .call false (.commit 1 [thirdRow.staged] [] deck 3000),
  .call false (.begin [thirdId] none 0),
  .call false (.stage 2 "save.dat" (utf8Bytes "four") fourthRow.metadata),
  .call false (.commit 2 [fourthRow.staged] [] deck 4000),
  .call false (.begin [fourthId] none 0)]

/-- Four versions, each over the one before. -/
def chain : World Bool :=
  emptyWorld.run fourVersions.platform twoDevices (deckUpload ++ desktopUpload ++ deckUploads)

def chainReport : GcReport where
  appId := 480
  manifestScope := "76561198000000001/480"
  retainedManifests := [fourthId, thirdId]
  candidateManifests := [secondId, firstId]

-- one evaluation of the run for everything below
theorem chain_evaluates :
    inspectGc fourVersions.platform cloudStore 480 (chain.device false).dir = .ok chainReport ∧
    (prepareGcSweep cloudStore chainReport (chain.device false).dir).toOption.join.isSome ∧
    headIds (cloudStore.held fourVersions.platform 480 (chain.device false).dir) = [fourthId] ∧
    headIds (cloudStore.held fourVersions.platform 480
      ((chain.device false).dir.removeAll [secondId])) = [firstId, fourthId] ∧
    chain.published.map Prod.fst = [firstId, secondId, thirdId, fourthId] := by
  decide +kernel

theorem chain_prepared :
    ∃ plan, prepareGcSweep cloudStore chainReport (chain.device false).dir = .ok (some plan) := by
  have hsome := chain_evaluates.2.1
  generalize prepareGcSweep cloudStore chainReport (chain.device false).dir = prepared at hsome ⊢
  rcases prepared with _ | _ | plan
  · cases hsome
  · cases hsome
  · exact ⟨plan, rfl⟩

/-- While the deck prepares, the third version reaches the desktop. -/
theorem sweep_keeps_live_four_versions : ∃ dir' : AppDir, dir'.find firstId = none ∧
    LiveKept fourVersions.platform twoDevices false
      ((chain.run fourVersions.platform twoDevices [.arrive true 2]).device false) dir' := by
  obtain ⟨hinspect, _, _, _, hnames⟩ := chain_evaluates
  obtain ⟨plan, hprepare⟩ := chain_prepared
  obtain ⟨sweep, happly⟩ := applyGcSweep_of_prepared hprepare
  have hdevice : (chain.run fourVersions.platform twoDevices [.arrive true 2]).device false =
      chain.device false := run_device_of_ne (by decide)
  have hpublished : (chain.run fourVersions.platform twoDevices [.arrive true 2]).published =
      chain.published := arrive_published chain true 2
  have hrun : ∀ w : World Bool, w = w.run fourVersions.platform twoDevices [] := fun _ => rfl
  refine ⟨(chain.device false).dir.removeAll plan.candidateManifests.toList, ?_,
    sweep_keeps_live fourVersions.platform twoDevices false emptyWorld chain
    (chain.run fourVersions.platform twoDevices [.arrive true 2]) _ emptyWorld_fresh
    (deckUpload ++ desktopUpload ++ deckUploads) [.arrive true 2] [] rfl rfl (hrun _)
    (collisionFree_of_nodup ?_) chainReport plan sweep _ hinspect ?_ ?_⟩
  · obtain ⟨_, _, _, _, _, hplan⟩ := prepareGcSweep_eq_ok hprepare
    rw [find_removeAll, if_pos]
    rw [Std.ExtTreeSet.mem_toList, hplan]
    exact List.mem_cons_of_mem _ (List.mem_singleton_self firstId)
  · rw [hpublished, hnames]
    decide +kernel
  · rw [hdevice]
    exact hprepare
  · rw [hdevice]
    exact happly

/-! ## The moments in between -/

theorem names_irrefl {P : Platform} (id : String) : ¬ Names (held P steamId64 appId dir) id id := by
  rintro ⟨m, hm, hself⟩
  obtain ⟨node, _, _, hread⟩ := held_getElem?_iff.mp hm
  obtain ⟨_, _, _, _, _, _, _, _, hvalid, _⟩ := readManifest_eq_ok_iff.mp hread
  exact (validateManifest_eq_ok hvalid).2.2 hself

/-- The heads survive every prefix of the moves exactly when every candidate is a parent
of a manifest that stays, or of one that is moved after it. -/
theorem headIds_take_iff {P : Platform} {M : Manifests} (hM : M = held P steamId64 appId dir) :
    (∀ k, k ≤ (candidateIds M).length →
      headIds (held P steamId64 appId (dir.removeAll ((candidateIds M).take k))) = headIds M) ↔
    ∀ p ∈ candidateIds M, ∃ c ∈ ids M, Names M c p ∧ (c ∉ candidateIds M ∨ p < c) := by
  have hsub : ∀ p ∈ candidateIds M, p ∈ ids M := fun p hp => (mem_candidateIds_iff.mp hp).1
  have hheads : ∀ p ∈ candidateIds M, p ∉ Lineage.Heads (Names M) (ids M) := fun p hp hhead =>
    not_mem_candidateIds_of_head (mem_headIds_iff.mpr hhead) hp
  have hstay : ∀ p ∈ ids M, p ∉ candidateIds M → p ∉ Lineage.Heads (Names M) (ids M) →
      ∃ c ∈ ids M, c ∉ candidateIds M ∧ Names M c p := by
    intro p hp hstay hnot
    rw [← mem_headIds_iff] at hnot
    obtain ⟨c, hc, hcp⟩ := exists_head_naming hp hstay hnot
    exact ⟨c, (mem_headIds_iff.mp hc).1, not_mem_candidateIds_of_head hc, hcp⟩
  rw [← Lineage.heads_take_iff (hM ▸ names_irrefl) (candidateIds_ascending M) hsub hheads hstay]
  refine forall₂_congr fun k hk => ?_
  have hwithout : Without M ((candidateIds M).take k)
      (held P steamId64 appId (dir.removeAll ((candidateIds M).take k))) := by
    intro id
    rw [held_removeAll, hM]
  rw [headIds_eq_iff, hwithout.heads]

/-- **When a sweep is safe at every intermediate point.** The heads are unchanged after
each number of moves if and only if every candidate is a parent of a manifest that is
retained or has a greater id. -/
theorem sweep_prefix_heads_iff (P : Platform) (store : FolderStore) (appId : Nat) (dir : AppDir)
    (report : GcReport) (plan : GcSweepPlan)
    (hinspect : inspectGc P store appId dir = .ok report)
    (hprepare : prepareGcSweep store report dir = .ok (some plan)) :
    (∀ k, k ≤ plan.candidateManifests.toList.length →
      headIds (store.held P appId (plan.afterMoves dir k)) =
        headIds (store.held P appId dir)) ↔
    ∀ p ∈ report.candidateManifests, ∃ (c : String) (m : SaveManifest),
      (store.held P appId dir)[c]? = some m ∧ p ∈ m.parents ∧
        (c ∈ report.retainedManifests ∨ p < c) := by
  obtain ⟨steamId64, hacc, _, _, hretained, hcandidates⟩ := inspectGc_eq_ok hinspect
  obtain ⟨_, _, _, _, _, hplan⟩ := prepareGcSweep_eq_ok hprepare
  have hmoves : plan.candidateManifests.toList = candidateIds (held P steamId64 appId dir) :=
    toList_candidates (candidateIds_ascending _) fun id => by rw [hplan, hcandidates]
  simp only [afterMoves_of_prepared hprepare, held_of_account hacc, hmoves]
  rw [headIds_take_iff rfl, hcandidates, hretained]
  refine forall₂_congr fun p _ => exists_congr fun c => ?_
  constructor
  · rintro ⟨hc, ⟨m, hm, hp⟩, hor⟩
    refine ⟨m, hm, hp, hor.imp_left fun hstay => ?_⟩
    exact (mem_retained_or_candidate.mpr hc).resolve_right hstay
  · rintro ⟨m, hm, hp, hor⟩
    refine ⟨mem_iff_exists_getElem?.mpr ⟨m, hm⟩, ⟨m, hm, hp⟩, hor.imp_left fun hret hcand => ?_⟩
    exact (mem_candidateIds_iff.mp hcand).2 hret

/-- After the first move of the sweep of four versions, the oldest is a head again. -/
theorem sweep_revives_superseded : ∃ plan,
    inspectGc fourVersions.platform cloudStore 480 (chain.device false).dir = .ok chainReport ∧
    prepareGcSweep cloudStore chainReport (chain.device false).dir = .ok (some plan) ∧
    headIds (cloudStore.held fourVersions.platform 480 (chain.device false).dir) = [fourthId] ∧
    headIds (cloudStore.held fourVersions.platform 480 (plan.afterMoves (chain.device false).dir 1)) =
      [firstId, fourthId] := by
  obtain ⟨hinspect, _, hbefore, hafter, _⟩ := chain_evaluates
  obtain ⟨plan, hprepare⟩ := chain_prepared
  refine ⟨plan, hinspect, hprepare, hbefore, ?_⟩
  obtain ⟨_, _, _, _, _, hplan⟩ := prepareGcSweep_eq_ok hprepare
  have hmoves : plan.candidateManifests.toList = [secondId, firstId] :=
    toList_candidates (by decide +kernel) hplan
  rw [afterMoves_of_prepared hprepare, hmoves]
  exact hafter

/-- The condition fails for `firstId`: only `secondId`, which is smaller, names it. -/
theorem sweep_prefix_heads_iff_four_versions : ∃ plan,
    prepareGcSweep cloudStore chainReport (chain.device false).dir = .ok (some plan) ∧
    ((∀ k, k ≤ plan.candidateManifests.toList.length →
      headIds (cloudStore.held fourVersions.platform 480 (plan.afterMoves (chain.device false).dir k)) =
        headIds (cloudStore.held fourVersions.platform 480 (chain.device false).dir)) ↔
    ∀ p ∈ [secondId, firstId], ∃ (c : String) (m : SaveManifest),
      (cloudStore.held fourVersions.platform 480 (chain.device false).dir)[c]? = some m ∧ p ∈ m.parents ∧
        (c ∈ [fourthId, thirdId] ∨ p < c)) := by
  obtain ⟨plan, hprepare⟩ := chain_prepared
  exact ⟨plan, hprepare, sweep_prefix_heads_iff fourVersions.platform cloudStore 480 (chain.device false).dir
    chainReport plan chain_evaluates.1 hprepare⟩

end VaporForge.Local
