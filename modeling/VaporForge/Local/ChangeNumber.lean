import VaporForge.Local.Fleet
import VaporForge.Local.Recorded

/-!
# Change numbers never go backwards

Steam compares one number: the revision of the head a device sees. Devices publish
concurrently, manifests arrive in any order and parents may arrive after their
children. Still, on every device:

> the number of an unconflicted view never falls, and it names one version: views
> with the same number have the same head (`change_numbers_never_fall`).

A new manifest's revision is above every revision present where it is published,
so revisions rank every folder. A sole head then outranks all else, in
particular the heads that were seen there before.
-/

namespace VaporForge.Local

open VaporForge.CloudCore
open Lib

variable {D : Type} {P : Platform} {F : Fleet D} {w : World D}

/-! ## Views -/

variable {dir : AppDir} {m : SaveManifest} {n : Nat}

variable {d : D} {id : String}

theorem view_eq_ok {v : StoreView} (h : view P (F.store d) F.appId dir = .ok v) :
    v = (ResolvedApp.of (F.held P dir)).view := by
  simp only [view, bind_eq_ok, pure_eq_ok, resolveApp_eq_ok_iff] at h
  obtain ⟨_, ⟨_, steamId64, hacc, M, hM, rfl⟩, rfl⟩ := h
  rw [F.account d] at hacc
  cases hacc
  obtain ⟨_, _, rfl⟩ := collectManifestObjects_eq_ok_iff.mp hM
  rfl

/-- A sole head and its manifest. -/
theorem getElem?_of_headIds {M : Manifests} (h : headIds M = [id]) : ∃ m, M[id]? = some m := by
  have hid : id ∈ headIds M := by
    rw [h]
    exact List.mem_singleton_self id
  exact mem_iff_exists_getElem?.mp (mem_headIds_iff.mp hid).1

theorem view_of_headIds_eq {M : Manifests} (hheads : headIds M = [id]) (hm : M[id]? = some m) :
    (ResolvedApp.of M).view.heads = [manifestCandidate id m] ∧
      (ResolvedApp.of M).view.currentChangeNumber = some m.revision := by
  have h₁ : (ResolvedApp.of M).heads = [id] := hheads
  have h₂ : (ResolvedApp.of M).manifests[id]? = some m := hm
  simp only [ResolvedApp.view, ResolvedApp.changeNumber, h₁, h₂]
  refine ⟨?_, rfl⟩
  rw [List.filterMap_cons_some (by rw [h₂]; rfl)]
  rfl

/-- Every head of a view is a head of the folder. -/
theorem view_headIds (M : Manifests) : (ResolvedApp.of M).view.headIds = headIds M := by
  have hall : ∀ l : List String, (∀ id ∈ l, id ∈ M) →
      (l.filterMap fun id => M[id]?.map (manifestCandidate id)).map (·.id) = l := by
    intro l
    induction l with
    | nil => exact fun _ => rfl
    | cons id l ih =>
      intro hl
      rw [List.forall_mem_cons] at hl
      obtain ⟨m, hm⟩ := mem_iff_exists_getElem?.mp hl.1
      rw [List.filterMap_cons_some (by rw [hm]; rfl), List.map_cons, ih hl.2]
      rfl
  exact hall (headIds M) fun id hid => (mem_headIds_iff.mp hid).1

theorem changeNumber_eq_some {M : Manifests}
    (h : (ResolvedApp.of M).view.currentChangeNumber = some n) :
    (headIds M = [] ∧ n = 0) ∨
      ∃ (id : String) (m : SaveManifest), headIds M = [id] ∧ M[id]? = some m ∧
        n = m.revision := by
  have hheads : (ResolvedApp.of M).heads = headIds M := rfl
  simp only [ResolvedApp.view, ResolvedApp.changeNumber, hheads] at h
  split at h
  next hnil => exact .inl ⟨hnil, (Option.some.inj h).symm⟩
  next id hone =>
    obtain ⟨m, hm⟩ := getElem?_of_headIds hone
    have hget : (ResolvedApp.of M).manifests[id]? = some m := hm
    rw [hget] at h
    exact .inr ⟨id, m, hone, hm, (Option.some.inj h).symm⟩
  next => cases h

/-! ## Folders ranked by revision -/

section Ranked

variable {M M' : Manifests}

/-- The sole head is the manifest of greatest revision. -/
theorem revision_le_of_headIds (hrank : Lineage.Ranked (Names M) (ids M) (revisionAt M))
    (hheads : headIds M = [id]) (hm : M[id]? = some m) :
    ∀ (id' : String) (m' : SaveManifest), M[id']? = some m' →
      id' = id ∨ m'.revision < m.revision := by
  intro id' m' hm'
  have hsole : Lineage.Heads (Names M) (ids M) = {id} := by
    ext x
    rw [← mem_headIds_iff, hheads, List.mem_singleton, Set.mem_singleton_iff]
  have hmem : id' ∈ ids M := mem_iff_exists_getElem?.mpr ⟨m', hm'⟩
  rcases Lineage.eq_or_rank_lt_of_heads_eq (finite_ids M) hrank hsole hmem with heq | hlt
  · exact .inl heq
  · rw [revisionAt_of_getElem? hm, revisionAt_of_getElem? hm'] at hlt
    exact .inr hlt

theorem eq_empty_of_headIds_eq_nil
    (hrank : Lineage.Ranked (Names M) (ids M) (revisionAt M)) (hheads : headIds M = []) :
    ids M = ∅ := by
  refine Lineage.eq_empty_of_heads_eq_empty (finite_ids M) hrank ?_
  ext x
  rw [← mem_headIds_iff, hheads]
  simp

/-- A folder that only grew shows no smaller number, and the same number only for
the same head. -/
theorem changeNumber_le (hext : Extends M M')
    (hrank' : Lineage.Ranked (Names M') (ids M') (revisionAt M'))
    (hpos : ∀ (id : String) (m : SaveManifest), M'[id]? = some m → m.revision ≠ 0) {n' : Nat}
    (h : (ResolvedApp.of M).view.currentChangeNumber = some n)
    (h' : (ResolvedApp.of M').view.currentChangeNumber = some n') :
    n ≤ n' ∧ (n = n' →
      (ResolvedApp.of M).view.heads = (ResolvedApp.of M').view.heads) := by
  rcases changeNumber_eq_some h with ⟨hnil, rfl⟩ | ⟨id, m, hone, hm, rfl⟩
  · refine ⟨Nat.zero_le n', ?_⟩
    rintro rfl
    rcases changeNumber_eq_some h' with ⟨hnil', _⟩ | ⟨id', m', _, hm', hzero⟩
    · have h₁ : (ResolvedApp.of M).heads = [] := hnil
      have h₂ : (ResolvedApp.of M').heads = [] := hnil'
      simp only [ResolvedApp.view, h₁, h₂, List.filterMap_nil]
    · exact absurd hzero.symm (hpos id' m' hm')
  · have hthere := hext id m hm
    rcases changeNumber_eq_some h' with ⟨hnil', _⟩ | ⟨id', m', hone', hm', rfl⟩
    · -- the old head is still there, so the folder is not empty
      have hmem : id ∈ ids M' := mem_iff_exists_getElem?.mpr ⟨m, hthere⟩
      rw [eq_empty_of_headIds_eq_nil hrank' hnil'] at hmem
      exact absurd hmem (Set.notMem_empty id)
    · rcases revision_le_of_headIds hrank' hone' hm' id m hthere with rfl | hlt
      · rw [hthere] at hm'
        cases hm'
        refine ⟨le_rfl, fun _ => ?_⟩
        rw [(view_of_headIds_eq hone hm).1, (view_of_headIds_eq hone' hthere).1]
      · exact ⟨hlt.le, fun heq => by omega⟩

end Ranked

/-! ## Runs -/

/-- Nothing that a device keeps is replaced by something else. -/
theorem act_keeps [DecidableEq D] {a : FleetAction D} (ha : a.Keeps) (hs : w.Sound P F)
    (hcf : w.CollisionFree P F) (d : D) :
    Extends (F.held P (w.device d).dir) (F.held P ((w.act P F a).device d).dir) := by
  by_cases hd : d = a.device
  swap
  · rw [act_device_of_ne hd]
    exact Extends.refl _
  subst hd
  cases a with
  | call d action =>
    rw [call_device, FleetAction.device, if_pos rfl, ← fleet_held d, ← fleet_held d]
    exact act_extends (fun op hop => (hs.operations d op hop).1) action
  | arrive d i =>
    simp only [World.act, FleetAction.device]
    split
    next => exact Extends.refl _
    next name node hitem =>
      obtain ⟨m, hpub, hid, hheld⟩ := hs.held_put (List.mem_of_getElem? hitem) (w.device d).dir
      simp only [World.setDevice, Function.update_self]
      rw [hheld]
      intro id₁ m₁ hm₁
      rw [Std.ExtTreeMap.getElem?_insert]
      split
      next heq =>
        -- the directory arrives under a name that is taken: by the same manifest
        obtain ⟨hpub₁, hid₁⟩ := hs.folders d id₁ m₁ hm₁
        have hsame : P.manifestId m₁ = P.manifestId m := by
          rw [hid₁, hid]
          exact (compare_eq_iff_eq.mp heq).symm
        rw [hcf m₁ m hpub₁ hpub hsame]
      next => exact hm₁
  | remove d id => exact ha.elim

theorem run_keeps [DecidableEq D] {actions : List (FleetAction D)}
    (hkeeps : ∀ a ∈ actions, a.Keeps) (hs : w.Sound P F)
    (hcf : (w.run P F actions).CollisionFree P F) (d : D) :
    Extends (F.held P (w.device d).dir) (F.held P ((w.run P F actions).device d).dir) := by
  induction actions generalizing w with
  | nil => exact Extends.refl _
  | cons a actions ih =>
    rw [List.forall_mem_cons] at hkeeps
    have hcf' : w.CollisionFree P F := hcf.mono (run_published w (a :: actions))
    exact (act_keeps hkeeps.1 hs hcf' d).trans (ih hkeeps.2 (act_sound hs a) hcf)

theorem revision_ne_zero (hm : (F.held P dir)[id]? = some m) : m.revision ≠ 0 := by
  obtain ⟨node, _, _, hread⟩ := held_getElem?_iff.mp hm
  obtain ⟨_, _, _, _, _, _, _, _, hvalid, _⟩ := readManifest_eq_ok_iff.mp hread
  exact (validateManifest_eq_ok hvalid).2.1

/-- What change numbers promise between an earlier and a later world. -/
structure NeverFalls (P : Platform) (F : Fleet D) (w₁ w₂ : World D) : Prop where
  parents : ∀ m, w₂.Published P F m → ∀ p ∈ m.parents,
    ∃ m', w₂.Published P F m' ∧ P.manifestId m' = p ∧ m'.revision < m.revision
  soleHead : ∀ d v head, view P (F.store d) F.appId (w₂.device d).dir = .ok v →
    v.heads = [head] → v.currentChangeNumber = some head.revision ∧
      head.revision = v.maxRevision ∧
      ∀ (id : String) (m : SaveManifest), (F.held P (w₂.device d).dir)[id]? = some m →
        m.revision ≤ head.revision
  changeNumber : ∀ d v₁ v₂ n₁ n₂, view P (F.store d) F.appId (w₁.device d).dir = .ok v₁ →
    view P (F.store d) F.appId (w₂.device d).dir = .ok v₂ →
    v₁.currentChangeNumber = some n₁ → v₂.currentChangeNumber = some n₂ →
    n₁ ≤ n₂ ∧ (n₁ = n₂ → v₁.heads = v₂.heads)

/-- **Change numbers never go backwards**, on any device, between any two moments
with no deletion in between. -/
theorem change_numbers_never_fall [DecidableEq D] (P : Platform) (F : Fleet D)
    (start : World D) (hstart : start.Fresh P F) (earlier later : List (FleetAction D))
    (hkeeps : ∀ a ∈ later, a.Keeps)
    (hcf : ((start.run P F earlier).run P F later).CollisionFree P F) :
    NeverFalls P F (start.run P F earlier) ((start.run P F earlier).run P F later) := by
  have hs₁ := run_sound hstart.sound earlier
  have hs₂ := run_sound hs₁ later
  refine ⟨hs₂.parents, fun d v head hv hhead => ?_, fun d v₁ v₂ n₁ n₂ hv₁ hv₂ hn₁ hn₂ => ?_⟩
  · obtain rfl := view_eq_ok hv
    have hids := view_headIds (F.held P (((start.run P F earlier).run P F later).device d).dir)
    rw [StoreView.headIds, hhead, List.map_singleton] at hids
    obtain ⟨m, hm⟩ := getElem?_of_headIds hids.symm
    obtain ⟨hone, hnumber⟩ := view_of_headIds_eq hids.symm hm
    rw [hone] at hhead
    have hrevision : m.revision = head.revision :=
      congrArg ManifestCandidate.revision (List.singleton_inj.mp hhead)
    rw [← hrevision]
    have hle : ∀ (id : String) (m' : SaveManifest),
        (F.held P (((start.run P F earlier).run P F later).device d).dir)[id]? = some m' →
          m'.revision ≤ m.revision := by
      intro id m' hm'
      rcases revision_le_of_headIds (hs₂.ranked hcf d) hids.symm hm id m' hm' with rfl | hlt
      · rw [hm'] at hm
        cases hm
        exact le_rfl
      · exact hlt.le
    exact ⟨hnumber, le_antisymm (revision_le_maxRevision hm) (maxRevision_le_iff.mpr hle), hle⟩
  · obtain rfl := view_eq_ok hv₁
    obtain rfl := view_eq_ok hv₂
    exact changeNumber_le (run_keeps hkeeps hs₁ hcf d) (hs₂.ranked hcf d)
      (fun id m => revision_ne_zero) hn₁ hn₂

theorem collisionFree_of_nodup (h : (w.published.map Prod.fst).Nodup) :
    w.CollisionFree P F := by
  rintro m m' ⟨node, hnode, _, hread⟩ ⟨node', hnode', _, hread'⟩ hid
  rw [← hid] at hnode' hread'
  -- one name, one directory, one manifest
  have hsame : (P.manifestId m, node) = (P.manifestId m, node') :=
    List.inj_on_of_nodup_map h hnode hnode' rfl
  cases hsame
  rw [hread] at hread'
  exact Except.ok.inj hread'

/-- Two devices of one account: `false` is the deck, `true` the desktop. -/
def twoDevices : Fleet Bool where
  steamId64 := "76561198000000001"
  appId := 480
  store := fun _ => cloudStore
  account := fun _ => rfl

def emptyWorld : World Bool := ⟨fun _ => ⟨.empty, []⟩, []⟩

def deckUpload : List (FleetAction Bool) := [
  .call false (.begin [] none 0),
  .call false (.stage 0 "save.dat" (utf8Bytes "one") firstRow.metadata),
  .call false (.commit 0 [firstRow.staged] [] deck 1001)]

/-- The deck's version arrives at the desktop, which uploads over it; the deck
receives the result. -/
def desktopUpload : List (FleetAction Bool) := [
  .arrive true 0,
  .call true (.begin [firstId] none 0),
  .call true (.stage 0 "save.dat" (utf8Bytes "two") secondRow.metadata),
  .call true (.commit 0 [secondRow.staged] [] desktop 2000),
  .arrive false 1]

theorem emptyWorld_fresh : emptyWorld.Fresh fourVersions.platform twoDevices :=
  ⟨rfl, fun _ => ⟨rfl, rfl⟩⟩

theorem change_numbers_never_fall_two_devices :
    NeverFalls fourVersions.platform twoDevices
      (emptyWorld.run fourVersions.platform twoDevices deckUpload)
      ((emptyWorld.run fourVersions.platform twoDevices deckUpload).run
        fourVersions.platform twoDevices desktopUpload) := by
  refine change_numbers_never_fall _ _ _ emptyWorld_fresh _ _ ?_ ?_
  · intro a ha
    simp only [desktopUpload, List.mem_cons, List.not_mem_nil, or_false] at ha
    rcases ha with rfl | rfl | rfl | rfl | rfl <;> trivial
  · have hnames : ((emptyWorld.run fourVersions.platform twoDevices deckUpload).run
        fourVersions.platform twoDevices desktopUpload).published.map Prod.fst =
        [firstId, secondId] := by
      decide +kernel
    exact collisionFree_of_nodup (by rw [hnames]; decide +kernel)

/-! ## Convergence -/

section Exchange

variable [DecidableEq D] {exchange : List (FleetAction D)}
  (harrives : ∀ a ∈ exchange, ∃ d i, a = .arrive d i)

include harrives

theorem exchange_published : (w.run P F exchange).published = w.published := by
  induction exchange generalizing w with
  | nil => rfl
  | cons a exchange ih =>
    rw [List.forall_mem_cons] at harrives
    obtain ⟨⟨d, i, rfl⟩, hrest⟩ := harrives
    exact (ih hrest).trans (arrive_published (P := P) (F := F) w d i)

/-- A device that everything arrived at holds exactly what was published. -/
theorem held_exchanged (hs : w.Sound P F) (hcf : w.CollisionFree P F)
    (hall : ∀ i < w.published.length, .arrive d i ∈ exchange) (id : String) (m : SaveManifest) :
    (F.held P ((w.run P F exchange).device d).dir)[id]? = some m ↔
      w.Published P F m ∧ P.manifestId m = id := by
  have hsame : (w.run P F exchange).published = w.published := exchange_published harrives
  constructor
  · intro hm
    obtain ⟨⟨node, hnode, hread⟩, hid⟩ := (run_sound hs exchange).folders d id m hm
    exact ⟨⟨node, hsame ▸ hnode, hread⟩, hid⟩
  · rintro ⟨hpub, rfl⟩
    have ⟨node, hnode, _⟩ := hpub
    obtain ⟨i, hi, hitem⟩ := List.getElem_of_mem hnode
    obtain ⟨before, after, rfl⟩ := List.append_of_mem (hall i hi)
    rw [List.forall_mem_append, List.forall_mem_cons] at harrives
    have hrun : w.run P F (before ++ .arrive d i :: after) =
        ((w.run P F before).act P F (.arrive d i)).run P F after := List.foldl_append
    rw [hrun] at hsame ⊢
    have hv : (w.run P F before).published = w.published := exchange_published harrives.1
    have hvs : (w.run P F before).Sound P F := run_sound hs before
    generalize w.run P F before = v at *
    obtain ⟨m', hpub', hid', hheld⟩ := hvs.held_put (hv ▸ hnode) (v.device d).dir
    have hget : v.published[i]? = some (P.manifestId m, node) := by
      rw [hv, List.getElem?_eq_getElem hi, hitem]
    refine run_keeps (fun a ha => ?_) (act_sound hvs _) (hcf.mono fun _ h => hsame ▸ h) d _ _ ?_
    · obtain ⟨_, _, rfl⟩ := harrives.2.2 a ha
      trivial
    · simp only [World.act, hget, World.setDevice, Function.update_self]
      rw [hheld, Std.ExtTreeMap.getElem?_insert_self]
      obtain ⟨node', hnode', hread'⟩ := hpub'
      rw [hcf m' m ⟨node', hv ▸ hnode', hread'⟩ hpub hid']

end Exchange

/-- However the folders of the devices came about: when everything that was published has
arrived at two devices, in whatever order, they hold the same versions and show the same. -/
theorem exchange_converges [DecidableEq D] (P : Platform) (F : Fleet D) (start : World D)
    (hstart : start.Fresh P F) (actions exchange : List (FleetAction D))
    (harrives : ∀ a ∈ exchange, ∃ d i, a = .arrive d i)
    (hcf : (start.run P F actions).CollisionFree P F) (d d' : D)
    (hall : ∀ i < (start.run P F actions).published.length,
      .arrive d i ∈ exchange ∧ .arrive d' i ∈ exchange) :
    let w := (start.run P F actions).run P F exchange
    F.held P (w.device d).dir = F.held P (w.device d').dir ∧
      ∀ v v', view P (F.store d) F.appId (w.device d).dir = .ok v →
        view P (F.store d') F.appId (w.device d').dir = .ok v' → v = v' := by
  have hs := run_sound hstart.sound actions
  have hheld : F.held P (((start.run P F actions).run P F exchange).device d).dir =
      F.held P (((start.run P F actions).run P F exchange).device d').dir := by
    refine Std.ExtTreeMap.ext_getElem? fun id => Option.ext fun m => ?_
    rw [held_exchanged harrives hs hcf fun i hi => (hall i hi).1,
      held_exchanged harrives hs hcf fun i hi => (hall i hi).2]
  refine ⟨hheld, fun v v' hv hv' => ?_⟩
  rw [view_eq_ok hv, view_eq_ok hv', hheld]

/-- The deck's version has arrived at both. -/
theorem exchange_converges_two_devices :
    let w := (emptyWorld.run fourVersions.platform twoDevices deckUpload).run
      fourVersions.platform twoDevices [.arrive true 0, .arrive false 0]
    twoDevices.held fourVersions.platform (w.device true).dir =
      twoDevices.held fourVersions.platform (w.device false).dir := by
  have hnames : (emptyWorld.run fourVersions.platform twoDevices deckUpload).published.map
      Prod.fst = [firstId] := by
    decide +kernel
  refine (exchange_converges _ _ _ emptyWorld_fresh deckUpload _ ?_
    (collisionFree_of_nodup ?_) true false ?_).1
  · simp
  · rw [hnames]
    exact List.nodup_singleton _
  · intro i hi
    rw [← List.length_map (f := Prod.fst), hnames, List.length_singleton, Nat.lt_one_iff] at hi
    simp [hi]

end VaporForge.Local
