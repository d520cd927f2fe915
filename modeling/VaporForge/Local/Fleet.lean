import VaporForge.Local.Device

/-!
# Many devices, one app

The devices of an account share nothing but what a file synchroniser carries
between their folders: directories one of them published, whole, in any order and
after any delay, and deletions. A `World` is every device's folder and open
operations, and the list of all directories ever published, from which anything may
arrive anywhere at any time.

The invariant `World.Sound` records where manifests come from:

> every manifest in a folder was published by some device, and every published
> manifest was published over parents of smaller revision.

It holds through deletions too. With ids free of collisions it makes the revision a
rank of every folder (`World.Sound.ranked`), so no folder has a cycle.
-/

namespace VaporForge.Local

open VaporForge.CloudCore
open Lib

variable {D : Type}

/-- The devices of one account that share an app. -/
structure Fleet (D : Type) where
  steamId64 : String
  appId : Nat
  store : D → FolderStore
  account : ∀ d, (store d).account = some steamId64

structure World (D : Type) where
  device : D → Device
  /-- Every directory any device ever published, by name. -/
  published : List (String × Node)

inductive FleetAction (D : Type) where
  /-- A call on one device. -/
  | call (d : D) (action : Action)
  /-- A directory that was published somewhere arrives. -/
  | arrive (d : D) (item : Nat)
  /-- A manifest goes, by a sweep or because a deletion arrives. -/
  | remove (d : D) (id : String)

/-- The device an action is about. -/
def FleetAction.device : FleetAction D → D
  | .call d _ => d
  | .arrive d _ => d
  | .remove d _ => d

def FleetAction.Keeps : FleetAction D → Prop
  | .remove _ _ => False
  | _ => True

/-- The entries of `after` whose name was free in `before`. -/
def created (before after : AppDir) : List (String × Node) :=
  after.entries.filterMap fun entry =>
    match entry.1 with
    | .utf8 name => if (before.find name).isNone then some (name, entry.2) else none
    | .opaqueBytes _ => none

section Run

variable [DecidableEq D] (P : Platform) (F : Fleet D)

def World.setDevice (w : World D) (d : D) (dev : Device) : World D :=
  { w with device := Function.update w.device d dev }

def World.act (w : World D) : FleetAction D → World D
  | .call d action =>
    let dev := (w.device d).act P (F.store d) F.appId action
    { w.setDevice d dev with
      published := w.published ++ created (w.device d).dir dev.dir }
  | .arrive d item =>
    match w.published[item]? with
    | none => w
    | some (name, node) =>
      w.setDevice d { w.device d with dir := (w.device d).dir.put name node }
  | .remove d id => w.setDevice d { w.device d with dir := (w.device d).dir.remove id }

def World.run (w : World D) (actions : List (FleetAction D)) : World D :=
  actions.foldl (World.act P F) w

end Run

section Spec

variable (P : Platform) (F : Fleet D)

/-- What a folder of the fleet holds. -/
def Fleet.held (dir : AppDir) : Manifests := Local.held P F.steamId64 F.appId dir

/-- Manifest `m` was published, under its id. -/
def World.Published (w : World D) (m : SaveManifest) : Prop :=
  ∃ node, (P.manifestId m, node) ∈ w.published ∧
    isNonManifestAppEntry (P.manifestId m) = false ∧
    readManifest P F.steamId64 F.appId (P.manifestId m) node = .ok m

/-- No two published manifests have the same SHA-256. -/
def World.CollisionFree (w : World D) : Prop :=
  ∀ m m', w.Published P F m → w.Published P F m' → P.manifestId m = P.manifestId m' → m = m'

/-- Nothing has been published and nothing is open. -/
def World.Fresh (w : World D) : Prop :=
  w.published = [] ∧ ∀ d, (w.device d).operations = [] ∧ F.held P (w.device d).dir = ∅

structure World.Sound (w : World D) : Prop where
  /-- Whatever can arrive is a manifest that was published. -/
  items : ∀ item ∈ w.published, ∃ m, w.Published P F m ∧ P.manifestId m = item.1 ∧
    readManifest P F.steamId64 F.appId item.1 item.2 = .ok m ∧
    isNonManifestAppEntry item.1 = false
  folders : ∀ (d : D) (id : String) (m : SaveManifest),
    (F.held P (w.device d).dir)[id]? = some m → w.Published P F m ∧ P.manifestId m = id
  parents : ∀ m, w.Published P F m → ∀ p ∈ m.parents,
    ∃ m', w.Published P F m' ∧ P.manifestId m' = p ∧ m'.revision < m.revision
  operations : ∀ d, ∀ op ∈ (w.device d).operations,
    op.appId = F.appId ∧ op.parents = op.expectedHeads

end Spec

/-! ## Where manifests come from -/

section Sound

variable {P : Platform} {F : Fleet D} {w w' : World D}

variable {item : String × Node} {m : SaveManifest} {d : D}

theorem mem_created_iff {before after : AppDir} :
    item ∈ created before after ↔
      (.utf8 item.1, item.2) ∈ after.entries ∧ before.find item.1 = none := by
  simp only [created, List.mem_filterMap]
  constructor
  · rintro ⟨⟨name, node⟩, hmem, h⟩
    cases name with
    | opaqueBytes bytes => cases h
    | utf8 name =>
      simp only [Option.isNone_iff_eq_none, Option.ite_none_right_eq_some] at h
      obtain ⟨hnone, heq⟩ := h
      cases heq
      exact ⟨hmem, hnone⟩
  · rintro ⟨hmem, hnone⟩
    exact ⟨_, hmem, by simp [hnone]⟩

theorem created_self (dir : AppDir) : created dir dir = [] := by
  refine List.eq_nil_iff_forall_not_mem.mpr fun item hitem => ?_
  obtain ⟨hmem, hnone⟩ := mem_created_iff.mp hitem
  exact find_eq_none_iff.mp hnone item.2 hmem

theorem mem_created_put {dir : AppDir} {name : String} {node : Node} (hfresh : dir.find name = none)
    : item ∈ created dir (dir.put name node) ↔ item = (name, node) := by
  rw [mem_created_iff, mem_put_entries]
  constructor
  · rintro ⟨heq | ⟨hold, _⟩, hnone⟩
    · cases heq
      rfl
    · exact absurd hold (find_eq_none_iff.mp hnone item.2)
  · rintro rfl
    exact ⟨.inl rfl, hfresh⟩

theorem fleet_held (d : D) (dir : AppDir) :
    (F.store d).held P F.appId dir = F.held P dir := held_of_account (F.account d) dir

theorem World.Published.mono (hsub : ∀ item ∈ w.published, item ∈ w'.published)
    (h : w.Published P F m) : w'.Published P F m := by
  obtain ⟨node, hnode, hread⟩ := h
  exact ⟨node, hsub _ hnode, hread⟩

/-- What may arrive reads as a published manifest. -/
theorem World.Sound.held_put (hs : w.Sound P F) (hitem : item ∈ w.published) (dir : AppDir) :
    ∃ m, w.Published P F m ∧ P.manifestId m = item.1 ∧
      F.held P (dir.put item.1 item.2) = (F.held P dir).insert item.1 m := by
  obtain ⟨m, hpub, hid, hread, hname⟩ := hs.items item hitem
  exact ⟨m, hpub, hid, Local.held_put hname hread⟩

/-- A manifest published over the heads of a sound world has only parents that were
published, with smaller revisions. -/
theorem PublishesOver.parents_published (hs : w.Sound P F) {dir' : AppDir} {op : OperationTerms}
    (h : PublishesOver P (F.store d) F.appId (w.device d).dir dir' op m)
    (hop : op.parents = op.expectedHeads) : ∀ p ∈ m.parents,
      ∃ m', w.Published P F m' ∧ P.manifestId m' = p ∧ m'.revision < m.revision := by
  intro p hp
  have hheads := h.heads
  have hrevision := h.revision
  rw [fleet_held] at hheads hrevision
  rw [h.parents, hop, ← hheads] at hp
  obtain ⟨m', hm'⟩ := mem_iff_exists_getElem?.mp (mem_headIds_iff.mp hp).1
  obtain ⟨hpub, hid⟩ := hs.folders d p m' hm'
  have hle := revision_le_maxRevision hm'
  exact ⟨m', hpub, hid, by omega⟩

/-- A world that grew by manifests published over parents of the old one is sound. -/
theorem World.Sound.grow (hs : w.Sound P F)
    (hsub : ∀ item ∈ w.published, item ∈ w'.published)
    (hnew : ∀ item ∈ w'.published, item ∈ w.published ∨ ∃ m, P.manifestId m = item.1 ∧
      isNonManifestAppEntry item.1 = false ∧
      readManifest P F.steamId64 F.appId item.1 item.2 = .ok m ∧
      ∀ p ∈ m.parents, ∃ m', w.Published P F m' ∧ P.manifestId m' = p ∧
        m'.revision < m.revision)
    (hfolders : ∀ (d : D) (id : String) (m : SaveManifest),
      (F.held P (w'.device d).dir)[id]? = some m → w'.Published P F m ∧ P.manifestId m = id)
    (hops : ∀ d, ∀ op ∈ (w'.device d).operations,
      op.appId = F.appId ∧ op.parents = op.expectedHeads) : w'.Sound P F := by
  refine ⟨fun item hitem => ?_, hfolders, fun m hm p hp => ?_, hops⟩
  · rcases hnew item hitem with hold | ⟨m, hid, hname, hread, _⟩
    · obtain ⟨m, hpub, hrest⟩ := hs.items item hold
      exact ⟨m, hpub.mono hsub, hrest⟩
    · exact ⟨m, ⟨item.2, hid ▸ hitem, hid ▸ hname, hid ▸ hread⟩, hid, hread, hname⟩
  · have hparents : ∃ m', w.Published P F m' ∧ P.manifestId m' = p ∧
        m'.revision < m.revision := by
      obtain ⟨node, hnode, hname, hread⟩ := hm
      rcases hnew _ hnode with hold | ⟨m₁, _, _, hread₁, hparents⟩
      · exact hs.parents m ⟨node, hold, hname, hread⟩ p hp
      · -- the new item reads as one manifest only
        rw [hread] at hread₁
        cases hread₁
        exact hparents p hp
    obtain ⟨m', hpub, hrest⟩ := hparents
    exact ⟨m', hpub.mono hsub, hrest⟩

variable [DecidableEq D]

/-- Changing one folder, to one whose manifests were all published, keeps the world
sound. -/
theorem World.Sound.setDir (hs : w.Sound P F) (d : D) {dir : AppDir}
    (hdir : ∀ (id : String) (m : SaveManifest), (F.held P dir)[id]? = some m →
      w.Published P F m ∧ P.manifestId m = id) :
    (w.setDevice d { w.device d with dir := dir }).Sound P F := by
  refine ⟨hs.items, fun d' id m hm => ?_, hs.parents, fun d' op hop => ?_⟩
  · by_cases hd : d' = d
    · subst hd
      simp only [World.setDevice, Function.update_self] at hm
      exact hdir id m hm
    · simp only [World.setDevice, Function.update_of_ne hd] at hm
      exact hs.folders d' id m hm
  · by_cases hd : d' = d
    · subst hd
      simp only [World.setDevice, Function.update_self] at hop
      exact hs.operations d' op hop
    · simp only [World.setDevice, Function.update_of_ne hd] at hop
      exact hs.operations d' op hop

theorem arrive_sound (hs : w.Sound P F) (d : D) (item : Nat) :
    (w.act P F (.arrive d item)).Sound P F := by
  simp only [World.act]
  split
  next => exact hs
  next name node hitem =>
    obtain ⟨m, hpub, hid, hheld⟩ := hs.held_put (List.mem_of_getElem? hitem) (w.device d).dir
    refine hs.setDir d fun id m' hm' => ?_
    rw [hheld, Std.ExtTreeMap.getElem?_insert] at hm'
    split at hm'
    next heq =>
      cases hm'
      exact ⟨hpub, hid.trans (compare_eq_iff_eq.mp heq)⟩
    next => exact hs.folders d id m' hm'

theorem remove_sound (hs : w.Sound P F) (d : D) (id : String) :
    (w.act P F (.remove d id)).Sound P F := by
  refine hs.setDir d fun id' m hm => ?_
  rw [Fleet.held, held_remove, Std.ExtTreeMap.getElem?_erase] at hm
  split at hm
  · cases hm
  · exact hs.folders d id' m hm

theorem call_device (d d' : D) (a : Action) :
    (w.act P F (.call d a)).device d' =
      if d' = d then (w.device d).act P (F.store d) F.appId a else w.device d' := by
  simp only [World.act, World.setDevice, Function.update_apply]

theorem act_device_of_ne {a : FleetAction D} (h : d ≠ a.device) :
    (w.act P F a).device d = w.device d := by
  cases a with
  | call d' action =>
    rw [call_device]
    exact if_neg h
  | arrive d' i =>
    simp only [World.act]
    split
    next => rfl
    next => exact Function.update_of_ne h _ _
  | remove d' id => exact Function.update_of_ne h _ _

theorem run_device_of_ne {actions : List (FleetAction D)} (h : ∀ a ∈ actions, d ≠ a.device) :
    (w.run P F actions).device d = w.device d := by
  induction actions generalizing w with
  | nil => rfl
  | cons a actions ih =>
    rw [List.forall_mem_cons] at h
    exact (ih h.2).trans (act_device_of_ne h.1)

theorem call_sound (hs : w.Sound P F) (d : D) (a : Action) :
    (w.act P F (.call d a)).Sound P F := by
  have happ : ∀ op ∈ (w.device d).operations, op.appId = F.appId :=
    fun op hop => (hs.operations d op hop).1
  have hsub : ∀ item ∈ w.published, item ∈ (w.act P F (.call d a)).published :=
    fun item hitem => List.mem_append_left _ hitem
  have hops : ∀ d', ∀ op ∈ ((w.act P F (.call d a)).device d').operations,
      op.appId = F.appId ∧ op.parents = op.expectedHeads := by
    intro d' op hop
    rw [call_device] at hop
    split at hop
    next =>
      rcases act_operations hop with ⟨op₀, hop₀, hterms⟩ | ⟨_, _, _, _, hbegun⟩
      · rw [hterms]
        exact hs.operations d op₀ hop₀
      · exact ⟨hbegun.appId, hbegun.parents⟩
    next => exact hs.operations d' op hop
  rcases act_dir happ a with hdir | ⟨op, hop, m, hpub⟩
  · -- the folder stays, so nothing was created
    refine hs.grow hsub (fun item hitem => ?_) (fun d' id m hm => ?_) hops
    · rcases List.mem_append.mp hitem with hold | hnew
      · exact .inl hold
      · rw [hdir, created_self] at hnew
        exact absurd hnew List.not_mem_nil
    · have hm' : (F.held P (w.device d').dir)[id]? = some m := by
        rw [call_device] at hm
        split at hm
        next heq => rw [heq, ← hdir]; exact hm
        next => exact hm
      obtain ⟨hpub, hid⟩ := hs.folders d' id m hm'
      exact ⟨hpub.mono hsub, hid⟩
  · obtain ⟨node, steamId64, hacc, hname, hread, hput⟩ := hpub.put
    rw [F.account d] at hacc
    cases hacc
    have hnew : (P.manifestId m, node) ∈ (w.act P F (.call d a)).published := by
      refine List.mem_append_right _ ?_
      rw [hput]
      exact (mem_created_put hpub.fresh).mpr rfl
    refine hs.grow hsub (fun item hitem => ?_) (fun d' id m' hm' => ?_) hops
    · rcases List.mem_append.mp hitem with hold | hitem
      · exact .inl hold
      · rw [hput, mem_created_put hpub.fresh] at hitem
        subst hitem
        exact .inr ⟨m, rfl, hname, hread,
          hpub.parents_published hs (hs.operations d op hop).2⟩
    · rw [call_device] at hm'
      split at hm'
      next =>
        rw [← fleet_held d, hpub.held, Std.ExtTreeMap.getElem?_insert] at hm'
        split at hm'
        next heq =>
          cases hm'
          exact ⟨⟨node, hnew, hname, hread⟩, compare_eq_iff_eq.mp heq⟩
        next =>
          rw [fleet_held] at hm'
          obtain ⟨hpub', hid⟩ := hs.folders d id m' hm'
          exact ⟨hpub'.mono hsub, hid⟩
      next =>
        obtain ⟨hpub', hid⟩ := hs.folders d' id m' hm'
        exact ⟨hpub'.mono hsub, hid⟩

theorem act_sound (hs : w.Sound P F) (a : FleetAction D) : (w.act P F a).Sound P F := by
  cases a with
  | call d action => exact call_sound hs d action
  | arrive d item => exact arrive_sound hs d item
  | remove d id => exact remove_sound hs d id

theorem run_sound (hs : w.Sound P F) (actions : List (FleetAction D)) :
    (w.run P F actions).Sound P F := by
  induction actions generalizing w with
  | nil => exact hs
  | cons a actions ih => exact ih (act_sound hs a)

omit [DecidableEq D] in
theorem World.Fresh.sound (h : w.Fresh P F) : w.Sound P F := by
  have hno : ∀ m, ¬ w.Published P F m := by
    rintro m ⟨node, hnode, _⟩
    rw [h.1] at hnode
    exact List.not_mem_nil hnode
  refine ⟨fun item hitem => ?_, fun d id m hm => ?_, fun m hm => absurd hm (hno m),
    fun d op hop => ?_⟩
  · rw [h.1] at hitem
    exact absurd hitem List.not_mem_nil
  · rw [(h.2 d).2] at hm
    simp at hm
  · rw [(h.2 d).1] at hop
    exact absurd hop List.not_mem_nil

/-! ## Published for ever -/

/-- An arrival publishes nothing. -/
theorem arrive_published (w : World D) (d : D) (i : Nat) :
    (w.run P F [.arrive d i]).published = w.published := by
  simp only [World.run, List.foldl_cons, List.foldl_nil, World.act]
  split
  · rfl
  · rfl

theorem act_published (w : World D) (a : FleetAction D) :
    ∀ item ∈ w.published, item ∈ (w.act P F a).published := by
  intro item hitem
  cases a with
  | call d action => exact List.mem_append_left _ hitem
  | arrive d i =>
    simp only [World.act]
    split
    · exact hitem
    · exact hitem
  | remove d id => exact hitem

theorem run_published (w : World D) (actions : List (FleetAction D)) :
    ∀ item ∈ w.published, item ∈ (w.run P F actions).published := by
  induction actions generalizing w with
  | nil => exact fun item hitem => hitem
  | cons a actions ih =>
    exact fun item hitem => ih (w.act P F a) item (act_published w a item hitem)

omit [DecidableEq D] in
theorem World.CollisionFree.mono (hsub : ∀ item ∈ w.published, item ∈ w'.published)
    (h : w'.CollisionFree P F) : w.CollisionFree P F :=
  fun m m' hm hm' hid => h m m' (hm.mono hsub) (hm'.mono hsub) hid

/-! ## Revisions rank every folder -/

/-- The revision of a manifest that is present. -/
def revisionAt (M : Manifests) (id : String) : Nat := (M[id]?.map (·.revision)).getD 0

theorem revisionAt_of_getElem? {M : Manifests} {id : String} (hm : M[id]? = some m) :
    revisionAt M id = m.revision := by
  rw [revisionAt, hm]
  rfl

omit [DecidableEq D] in
theorem World.Sound.ranked (hs : w.Sound P F) (hcf : w.CollisionFree P F) (d : D) :
    Lineage.Ranked (Names (F.held P (w.device d).dir)) (ids (F.held P (w.device d).dir))
      (revisionAt (F.held P (w.device d).dir)) := by
  rintro c _ p hp ⟨m, hm, hcp⟩
  obtain ⟨m', hm'⟩ := mem_iff_exists_getElem?.mp hp
  obtain ⟨hpub, _⟩ := hs.folders d c m hm
  obtain ⟨hpub', hid'⟩ := hs.folders d p m' hm'
  obtain ⟨m'', hpub'', hid'', hlt⟩ := hs.parents m hpub p hcp
  -- the parent that was published over is the manifest found under that id
  obtain rfl : m' = m'' := hcf m' m'' hpub' hpub'' (hid'.trans hid''.symm)
  rw [revisionAt_of_getElem? hm, revisionAt_of_getElem? hm']
  exact hlt

end Sound

end VaporForge.Local
