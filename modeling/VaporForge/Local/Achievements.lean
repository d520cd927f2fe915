import VaporForge.Local.AppState

/-!
# Achievements converge

Two folds lie between what devices report and what a reader sees: every device folds its
snapshots into its own file, and the reader reduces all files.

> An achievement is unlocked for the reader exactly if some snapshot on some device
> reported it unlocked, at the earliest time any of them knew; what is uploaded later
> takes no unlock away and moves no time forward (`achievements_converge`).

Both folds summarise (`Unlock.Summary`), and a summary of summaries is a summary of what
they summarise, so the order of the uploads and the way they are spread over devices
drop out.
-/

namespace VaporForge.Local

open VaporForge.CloudCore
open Lib

/-! ## One fold into a device's own file -/

section DeviceFold

variable {existing incoming : SteamAppStateRecord}

theorem StoredAchievementState.unlock_join (a b : StoredAchievementState) :
    (a.join b).unlock = a.unlock.join b.unlock := rfl

theorem foldl_join_key (v : StoredAchievementState) (vs : List StoredAchievementState) :
    (vs.foldl StoredAchievementState.join v).key = v.key := by
  induction vs generalizing v with
  | nil => rfl
  | cons w vs ih => exact ih (v.join w)

/-- A map whose values carry their own key lists every key once. -/
theorem nodup_values {β γ : Type} {t : Std.ExtTreeMap String β compare} (value : β → γ)
    (key : γ → String) (h : ∀ (k : String) (b : β), t[k]? = some b → key (value b) = k) :
    ((t.toList.map fun e => value e.2).map key).Nodup := by
  have heq : (t.toList.map fun e => value e.2).map key = t.keys := by
    rw [List.map_map, ← Std.ExtTreeMap.map_fst_toList_eq_keys]
    refine List.map_congr_left fun e he => ?_
    exact h e.1 e.2 (Std.ExtTreeMap.mem_toList_iff_getElem?_eq_some.mp he)
  rw [heq]
  exact (keys_ascending t).imp ne_of_lt

variable {k : String} {a : StoredAchievementState}

theorem mem_pair_reports {γ : Type} {reports : SteamAppStateRecord → List (String × γ)} {x : γ} :
    x ∈ valuesAt k ([existing, incoming].flatMap reports) ↔
      (k, x) ∈ reports existing ∨ (k, x) ∈ reports incoming := by
  simp [mem_valuesAt]

/-- What the file holds at a key after the fold is a fold over both records' entries. -/
theorem getElem?_foldAchievements (h : (foldAchievements [existing, incoming])[k]? = some a) :
    ∃ v vs, vs.foldl StoredAchievementState.join v = a ∧
      ∀ x, x ∈ v :: vs ↔
        (x ∈ existing.achievements ∨ x ∈ incoming.achievements) ∧ x.key = k := by
  rw [foldAchievements_eq, getElem?_upsertAll_eq_some_iff] at h
  obtain ⟨v, vs, hvalues, hfold⟩ := h
  refine ⟨v, vs, hfold, fun x => ?_⟩
  rw [← hvalues, mem_pair_reports]
  simp only [List.mem_map, Prod.mk.injEq]
  constructor
  · rintro (⟨y, hy, rfl, rfl⟩ | ⟨y, hy, rfl, rfl⟩)
    · exact ⟨.inl hy, rfl⟩
    · exact ⟨.inr hy, rfl⟩
  · rintro ⟨hx | hx, rfl⟩
    · exact .inl ⟨x, hx, rfl, rfl⟩
    · exact .inr ⟨x, hx, rfl, rfl⟩

theorem key_foldAchievements (h : (foldAchievements [existing, incoming])[k]? = some a) :
    a.key = k := by
  obtain ⟨v, vs, rfl, hmem⟩ := getElem?_foldAchievements h
  rw [foldl_join_key]
  exact ((hmem v).mp List.mem_cons_self).2

/-- An entry of the file after the fold summarises the entries of both records. -/
theorem achievement_foldDeviceRecords (hexisting : WellFormed existing)
    (hincoming : WellFormed incoming) (h : a ∈ (foldDeviceRecords existing incoming).achievements) :
    Unlock.Summary {u | ∃ x, (x ∈ existing.achievements ∨ x ∈ incoming.achievements) ∧
      x.key = a.key ∧ x.unlock = u} a.unlock := by
  obtain ⟨k, hk⟩ := mem_values_iff.mp h
  obtain rfl := key_foldAchievements hk
  obtain ⟨v, vs, hfold, hmem⟩ := getElem?_foldAchievements hk
  have hvalid : ∀ x ∈ v :: vs, x.unlock.Valid := by
    intro x hx
    rcases ((hmem x).mp hx).1 with hx | hx
    · exact hexisting.unlocked x hx
    · exact hincoming.unlocked x hx
  have hsummary := Unlock.Summary.foldl StoredAchievementState.unlock_join v vs hvalid
  rw [hfold] at hsummary
  convert hsummary using 1
  ext u
  simp only [Set.mem_ofPred_eq, hmem, and_assoc]

/-- No key is lost. -/
theorem exists_achievement_foldDeviceRecords {x : StoredAchievementState}
    (h : x ∈ existing.achievements ∨ x ∈ incoming.achievements) :
    ∃ a ∈ (foldDeviceRecords existing incoming).achievements, a.key = x.key := by
  have hmem : x ∈ valuesAt x.key ([existing, incoming].flatMap fun record =>
      record.achievements.map fun a => (a.key, a)) := by
    rw [mem_pair_reports]
    rcases h with h | h
    · exact .inl (List.mem_map.mpr ⟨x, h, rfl⟩)
    · exact .inr (List.mem_map.mpr ⟨x, h, rfl⟩)
  obtain ⟨v, vs, hvalues⟩ := List.exists_cons_of_ne_nil (List.ne_nil_of_mem hmem)
  have hget : (foldAchievements [existing, incoming])[x.key]? =
      some (vs.foldl StoredAchievementState.join v) := by
    rw [foldAchievements_eq]
    exact getElem?_upsertAll_eq_some_iff.mpr ⟨v, vs, hvalues, rfl⟩
  exact ⟨_, mem_values_iff.mpr ⟨x.key, hget⟩, key_foldAchievements hget⟩

/-- What the file holds of a stat after the fold is a report of one of the records, and
none has a greater order. -/
theorem getElem?_foldStats {e : StoredStatState × Int ×ₗ String}
    (h : (foldStats [existing, incoming])[k]? = some e) :
    (∃ record, (record = existing ∨ record = incoming) ∧ e.1 ∈ record.stats ∧ e.1.key = k ∧
        e.2 = record.order) ∧
      ∀ record, record = existing ∨ record = incoming → (∃ s ∈ record.stats, s.key = k) →
        record.order ≤ e.2 := by
  rw [foldStats_eq, getElem?_upsertAll_eq_some_iff] at h
  obtain ⟨v, vs, hvalues, rfl⟩ := h
  obtain ⟨hmem, hmax⟩ := foldl_latest Prod.snd v vs
  rw [← hvalues] at hmem hmax
  constructor
  · rw [mem_pair_reports, List.mem_map, List.mem_map] at hmem
    rcases hmem with ⟨s, hs, heq⟩ | ⟨s, hs, heq⟩
    · obtain ⟨hkey, heq⟩ := Prod.mk.inj heq
      rw [← heq]
      exact ⟨existing, .inl rfl, hs, hkey, rfl⟩
    · obtain ⟨hkey, heq⟩ := Prod.mk.inj heq
      rw [← heq]
      exact ⟨incoming, .inr rfl, hs, hkey, rfl⟩
  · rintro record hrecord ⟨s, hs, rfl⟩
    refine hmax (s, record.order) (mem_pair_reports.mpr ?_)
    rcases hrecord with rfl | rfl
    · exact .inl (List.mem_map.mpr ⟨s, hs, rfl⟩)
    · exact .inr (List.mem_map.mpr ⟨s, hs, rfl⟩)

theorem foldDeviceRecords_wellFormed (hexisting : WellFormed existing)
    (hincoming : WellFormed incoming) : WellFormed (foldDeviceRecords existing incoming) where
  achievementKeys := nodup_values id StoredAchievementState.key fun k a h => key_foldAchievements h
  unlocked a ha := by
    refine (achievement_foldDeviceRecords hexisting hincoming ha).valid ?_
    rintro u ⟨x, hx | hx, _, rfl⟩
    · exact hexisting.unlocked x hx
    · exact hincoming.unlocked x hx
  statKeys := nodup_values Prod.fst StoredStatState.key fun k e h => by
    obtain ⟨⟨record, _, _, hkey, _⟩, _⟩ := getElem?_foldStats h
    exact hkey

end DeviceFold

/-! ## A device's file after all its uploads -/

section DeviceFile

/-- What a list of snapshots says of an achievement. -/
def reportedUnlocks (uploads : List SteamAppStateRecord) (key : String) : Set Unlock :=
  {u | ∃ x ∈ uploads, ∃ a ∈ x.achievements, a.key = key ∧ a.unlock = u}

/-- A device's file is well formed, names its path, and holds for every achievement the
summary of what was uploaded. -/
structure FileOf (path : RecordPath) (uploads : List SteamAppStateRecord)
    (record : SteamAppStateRecord) : Prop where
  wellFormed : WellFormed record
  path_eq : record.path = path
  summary : ∀ a ∈ record.achievements,
    Unlock.Summary (reportedUnlocks uploads a.key) a.unlock
  keys : ∀ x ∈ uploads, ∀ b ∈ x.achievements, ∃ a ∈ record.achievements, a.key = b.key

variable {path : RecordPath} {record incoming : SteamAppStateRecord}
  {uploads : List SteamAppStateRecord}

theorem fileOf_singleton (hwell : WellFormed incoming) (hpath : incoming.path = path) :
    FileOf path [incoming] incoming := by
  refine ⟨hwell, hpath, fun a ha => ?_, fun x hx b hb => ?_⟩
  · have hset : reportedUnlocks [incoming] a.key = {a.unlock} := by
      ext u
      simp only [reportedUnlocks, List.mem_singleton, exists_eq_left, Set.mem_ofPred_eq,
        Set.mem_singleton_iff]
      constructor
      · rintro ⟨b, hb, hkey, rfl⟩
        rw [List.inj_on_of_nodup_map hwell.achievementKeys hb ha hkey]
      · rintro rfl
        exact ⟨a, ha, rfl, rfl⟩
    rw [hset]
    exact Unlock.Summary.singleton _
  · rw [List.mem_singleton.mp hx] at hb
    exact ⟨b, hb, rfl⟩

/-- One more upload. -/
theorem FileOf.append (h : FileOf path uploads record) (hwell : WellFormed incoming)
    (hpath : incoming.path = path) :
    FileOf path (uploads ++ [incoming]) (foldDeviceRecords record incoming) := by
  have hsingle := fileOf_singleton hwell hpath
  have hleft : ∀ k, reportedUnlocks uploads k ⊆ reportedUnlocks (uploads ++ [incoming]) k := by
    rintro k u ⟨x, hx, b, hb, hkey, rfl⟩
    exact ⟨x, List.mem_append_left _ hx, b, hb, hkey, rfl⟩
  have hright : ∀ k, reportedUnlocks [incoming] k ⊆
      reportedUnlocks (uploads ++ [incoming]) k := by
    rintro k u ⟨x, hx, b, hb, hkey, rfl⟩
    exact ⟨x, List.mem_append_right _ hx, b, hb, hkey, rfl⟩
  refine ⟨foldDeviceRecords_wellFormed h.wellFormed hwell, hpath, fun a ha => ?_,
    fun x hx b hb => ?_⟩
  · refine (achievement_foldDeviceRecords h.wellFormed hwell ha).flatten ?_ ?_
    · rintro u ⟨x, hx | hx, hkey, rfl⟩
      · exact ⟨_, hleft a.key, hkey ▸ h.summary x hx⟩
      · exact ⟨_, hright a.key, hkey ▸ hsingle.summary x hx⟩
    · rintro u ⟨x, hx, b, hb, hkey, rfl⟩
      rcases List.mem_append.mp hx with hx | hx
      · obtain ⟨c, hc, hckey⟩ := h.keys x hx b hb
        exact ⟨c.unlock, ⟨c, .inl hc, hckey.trans hkey, rfl⟩, _, hleft a.key,
          ⟨x, hx, b, hb, hkey, rfl⟩, (hckey.trans hkey) ▸ h.summary c hc⟩
      · rw [List.mem_singleton.mp hx] at hb
        exact ⟨b.unlock, ⟨b, .inr hb, hkey, rfl⟩, _, hright a.key,
          ⟨incoming, List.mem_singleton_self _, b, hb, hkey, rfl⟩,
          hkey ▸ hsingle.summary b hb⟩
  · rcases List.mem_append.mp hx with hx | hx
    · obtain ⟨c, hc, hckey⟩ := h.keys x hx b hb
      obtain ⟨a, ha, hakey⟩ : ∃ a ∈ (foldDeviceRecords record incoming).achievements,
          a.key = c.key := exists_achievement_foldDeviceRecords (.inl hc)
      exact ⟨a, ha, hakey.trans hckey⟩
    · rw [List.mem_singleton.mp hx] at hb
      exact exists_achievement_foldDeviceRecords (.inr hb)

theorem fileOf_foldl (v : SteamAppStateRecord) (vs : List SteamAppStateRecord)
    (hwell : ∀ x ∈ v :: vs, WellFormed x) (hpath : ∀ x ∈ v :: vs, x.path = path) :
    FileOf path (v :: vs) (vs.foldl foldDeviceRecords v) := by
  induction vs using List.reverseRecOn with
  | nil =>
    exact fileOf_singleton (hwell v List.mem_cons_self) (hpath v List.mem_cons_self)
  | append_singleton vs incoming ih =>
    have hlast : incoming ∈ v :: (vs ++ [incoming]) := by simp
    have hfront : ∀ x ∈ v :: vs, x ∈ v :: (vs ++ [incoming]) := by
      intro x hx
      exact List.mem_append_left [incoming] hx
    have hfile := ih (fun x hx => hwell x (hfront x hx)) fun x hx => hpath x (hfront x hx)
    rw [List.foldl_concat]
    exact hfile.append (hwell incoming hlast) (hpath incoming hlast)

end DeviceFile

/-! ## Everything a reader holds -/

section Reader

variable {P : SyncPlatform} {w : SyncWorld} {files : RecordFiles} {steamId64 : String}
  {only : Option Nat}

/-- A snapshot some device uploaded for the app. -/
def Uploaded (w : SyncWorld) (steamId64 : String) (appId : Nat) (upload : SteamAppStateRecord) :
    Prop :=
  ∃ device, upload ∈ (w.folder device).snapshots ∧ upload.steamId64 = steamId64 ∧
    upload.appId = appId

variable {upload : SteamAppStateRecord} {path : RecordPath} {records : List SteamAppStateRecord}
  {key : AppKey}

variable {appId : Nat} {r : SteamAppStateRecord} {state : AchievementSyncState}

/-- Where a snapshot was uploaded to. -/
theorem Uploaded.mem (hsound : w.Sound P) (h : Uploaded w steamId64 appId upload) :
    ∃ path : RecordPath, path.steamId64 = steamId64 ∧ path.appId = appId ∧
      upload ∈ (w.folder path.clientId).snapshotsAt path := by
  obtain ⟨device, hmem, hsteam, happ⟩ := h
  refine ⟨upload.path, hsteam, happ, List.mem_filter.mpr ⟨?_, by simp⟩⟩
  rw [show upload.path.clientId = device from ((hsound device).snapshot upload hmem).1]
  exact hmem

theorem uploaded_of_mem (h : upload ∈ (w.folder path.clientId).snapshotsAt path) :
    Uploaded w path.steamId64 path.appId upload ∧ upload.path = path := by
  obtain ⟨hmem, hpath⟩ := List.mem_filter.mp h
  have heq : upload.path = path := by simpa using hpath
  exact ⟨⟨path.clientId, hmem, congrArg RecordPath.steamId64 heq,
    congrArg RecordPath.appId heq⟩, heq⟩

theorem wellFormed_of_mem (hsound : w.Sound P)
    (h : upload ∈ (w.folder path.clientId).snapshotsAt path) : WellFormed upload :=
  wellFormed_of_valid ((hsound path.clientId).snapshot upload (List.mem_filter.mp h).1).2

/-- A reader who holds everything holds for every path the fold of its uploads. -/
theorem storedRecord_iff (hsound : w.Sound P) (hcomplete : w.CompleteStats files) :
    StoredRecord P files steamId64 only r ↔
      ∃ path : RecordPath, path.steamId64 = steamId64 ∧ (∀ appId ∈ only, appId = path.appId) ∧
        ∃ v vs, (w.folder path.clientId).snapshotsAt path = v :: vs ∧
          vs.foldl foldDeviceRecords v = r := by
  unfold StoredRecord
  constructor
  · rintro ⟨path, bytes, hfile, hsteam, honly, hdecode⟩
    rw [hcomplete path, (hsound path.clientId).stats path rfl] at hfile
    refine ⟨path, hsteam, honly, ?_⟩
    cases huploads : (w.folder path.clientId).snapshotsAt path with
    | nil =>
      rw [huploads] at hfile
      cases hfile
    | cons v vs =>
      rw [huploads, combine_none_cons, Option.map_some] at hfile
      cases hfile
      rw [P.decode_encodeStats] at hdecode
      cases hdecode
      exact ⟨v, vs, rfl, rfl⟩
  · rintro ⟨path, hsteam, honly, v, vs, huploads, rfl⟩
    refine ⟨path, P.encodeStats (vs.foldl foldDeviceRecords v), ?_, hsteam, honly,
      P.decode_encodeStats _⟩
    rw [hcomplete path, (hsound path.clientId).stats path rfl, huploads, combine_none_cons,
      Option.map_some]

theorem fileOf_snapshotsAt (hsound : w.Sound P) {v : SteamAppStateRecord}
    {vs : List SteamAppStateRecord} (huploads : (w.folder path.clientId).snapshotsAt path = v :: vs)
    : FileOf path ((w.folder path.clientId).snapshotsAt path) (vs.foldl foldDeviceRecords v) := by
  rw [huploads]
  refine fileOf_foldl v vs (fun x hx => ?_) fun x hx => ?_
  · rw [← huploads] at hx
    exact wellFormed_of_mem hsound hx
  · rw [← huploads] at hx
    exact (uploaded_of_mem hx).2

/-- Every record a reader holds is the file of some path. -/
theorem StoredRecord.fileOf (hsound : w.Sound P) (hcomplete : w.CompleteStats files)
    (h : StoredRecord P files steamId64 only r) :
    ∃ path : RecordPath, path.steamId64 = steamId64 ∧ (∀ appId ∈ only, appId = path.appId) ∧
      FileOf path ((w.folder path.clientId).snapshotsAt path) r := by
  obtain ⟨path, hsteam, honly, v, vs, huploads, rfl⟩ := (storedRecord_iff hsound hcomplete).mp h
  exact ⟨path, hsteam, honly, fileOf_snapshotsAt hsound huploads⟩

/-- Every snapshot is in some file a reader holds. -/
theorem Uploaded.stored (hsound : w.Sound P) (hcomplete : w.CompleteStats files)
    (honly : ∀ a ∈ only, a = appId) (h : Uploaded w steamId64 appId upload) :
    ∃ r, StoredRecord P files steamId64 only r ∧ ∃ path : RecordPath,
      path.steamId64 = steamId64 ∧ path.appId = appId ∧
      upload ∈ (w.folder path.clientId).snapshotsAt path ∧
      FileOf path ((w.folder path.clientId).snapshotsAt path) r := by
  obtain ⟨path, hsteam, happ, hmem⟩ := h.mem hsound
  obtain ⟨v, vs, huploads⟩ := List.exists_cons_of_ne_nil (List.ne_nil_of_mem hmem)
  refine ⟨_, (storedRecord_iff hsound hcomplete).mpr
    ⟨path, hsteam, fun a ha => (honly a ha).trans happ.symm, v, vs, huploads, rfl⟩, path, hsteam,
    happ, hmem, fileOf_snapshotsAt hsound huploads⟩

/-- With everything read, nothing is filtered out. -/
theorem filter_stored (hsound : w.Sound P) (hcomplete : w.CompleteStats files)
    (hrecords : ∀ r, r ∈ records ↔ StoredRecord P files steamId64 only r) :
    records.filter (fun record => only.all (· = record.appId)) = records := by
  refine List.filter_eq_self.mpr fun r hr => ?_
  obtain ⟨path, _, honly, hfile⟩ := ((hrecords r).mp hr).fileOf hsound hcomplete
  rw [Option.all_eq_true]
  intro appId hid
  rw [decide_eq_true_eq, honly appId hid, ← hfile.path_eq]
  rfl

/-- What all snapshots of an app say of an achievement. -/
def uploadedUnlocks (w : SyncWorld) (steamId64 : String) (key : AppKey) : Set Unlock :=
  {u | ∃ x, Uploaded w steamId64 key.appId x ∧ ∃ a ∈ x.achievements, a.key = key.key ∧
    a.unlock = u}

/-- The reduced state of an achievement summarises what all devices uploaded. -/
theorem reduceAchievements_summary (hsound : w.Sound P) (hcomplete : w.CompleteStats files)
    (hrecords : ∀ r, r ∈ records ↔ StoredRecord P files steamId64 only r)
    (honly : ∀ a ∈ only, a = key.appId) (h : (reduceAchievements records)[key]? = some state) :
    Unlock.Summary (uploadedUnlocks w steamId64 key) (achievementUnlock state) := by
  have hwell : ∀ r ∈ records, WellFormed r := fun r hr => by
    obtain ⟨path, _, _, hfile⟩ := ((hrecords r).mp hr).fileOf hsound hcomplete
    exact hfile.wellFormed
  have hsub : ∀ path : RecordPath, path.steamId64 = steamId64 → path.appId = key.appId →
      reportedUnlocks ((w.folder path.clientId).snapshotsAt path) key.key ⊆
        uploadedUnlocks w steamId64 key := by
    rintro path hsteam happ u ⟨x, hx, a, ha, hkey, rfl⟩
    have huploaded := (uploaded_of_mem hx).1
    rw [hsteam, happ] at huploaded
    exact ⟨x, huploaded, a, ha, hkey, rfl⟩
  obtain ⟨_, hmerged⟩ := (getElem?_reduceAchievements hwell).mp h
  refine hmerged.summary.flatten ?_ ?_
  · rintro _ ⟨_, ⟨r, hr, happ, a, ha, hkey, rfl⟩, rfl⟩
    obtain ⟨path, hsteam, _, hfile⟩ := ((hrecords r).mp hr).fileOf hsound hcomplete
    have hpath : path.appId = key.appId := by
      rw [← happ, ← hfile.path_eq]
      rfl
    exact ⟨_, hsub path hsteam hpath, hkey ▸ hfile.summary a ha⟩
  · rintro _ ⟨x, huploaded, b, hb, hkey, rfl⟩
    obtain ⟨r, hr, path, hsteam, happ, hx, hfile⟩ := huploaded.stored hsound hcomplete honly
    obtain ⟨a, ha, hakey⟩ := hfile.keys x hx b hb
    have hrapp : r.appId = key.appId := by
      rw [← happ, ← hfile.path_eq]
      rfl
    refine ⟨a.unlock, ⟨r.achievementState a, ⟨r, (hrecords r).mpr hr, hrapp, a, ha,
      hakey.trans hkey, rfl⟩, rfl⟩, _, hsub path hsteam happ, ⟨x, hx, b, hb, hkey, rfl⟩,
      (hakey.trans hkey) ▸ hfile.summary a ha⟩

/-- Every achievement that was reported has a reduced state. -/
theorem exists_reduceAchievements (hsound : w.Sound P) (hcomplete : w.CompleteStats files)
    (hrecords : ∀ r, r ∈ records ↔ StoredRecord P files steamId64 only r)
    (honly : ∀ a ∈ only, a = key.appId) (h : (uploadedUnlocks w steamId64 key).Nonempty) :
    ∃ state, (reduceAchievements records)[key]? = some state := by
  obtain ⟨_, x, huploaded, b, hb, hkey, rfl⟩ := h
  obtain ⟨r, hr, path, _, happ, hx, hfile⟩ := huploaded.stored hsound hcomplete honly
  obtain ⟨a, ha, hakey⟩ := hfile.keys x hx b hb
  have hrapp : r.appId = key.appId := by
    rw [← happ, ← hfile.path_eq]
    rfl
  have hreported : AchievementReported records key (r.achievementState a) :=
    ⟨r, (hrecords r).mpr hr, hrapp, a, ha, hakey.trans hkey, rfl⟩
  obtain ⟨v, vs, hvalues⟩ :=
    List.exists_cons_of_ne_nil (List.ne_nil_of_mem (mem_achievementReports.mpr hreported))
  rw [reduceAchievements_eq]
  exact ⟨_, getElem?_upsertAll_eq_some_iff.mpr ⟨v, vs, hvalues, rfl⟩⟩

/-- The state a list of reduced achievements holds for a key. -/
def StateOf (achievements : List AchievementSyncState) (key : AppKey)
    (state : AchievementSyncState) : Prop :=
  state ∈ achievements ∧ state.appId = key.appId ∧ state.achievementKey = key.key

theorem stateOf_iff (hwell : ∀ r ∈ records, WellFormed r) :
    StateOf ((reduceAchievements records).toList.map Prod.snd) key state ↔
      (reduceAchievements records)[key]? = some state := by
  unfold StateOf
  rw [mem_values_iff]
  constructor
  · rintro ⟨⟨key', h⟩, happ, hkey⟩
    obtain ⟨_, hmerged⟩ := (getElem?_reduceAchievements hwell).mp h
    have heq : key' = key := by
      rcases key with ⟨appId, key⟩
      rcases key' with ⟨appId', key'⟩
      obtain ⟨happ', hkey', _⟩ := hmerged.named
      rw [AppKey.mk.injEq]
      exact ⟨happ'.symm.trans happ, hkey'.symm.trans hkey⟩
    rw [← heq]
    exact h
  · intro h
    obtain ⟨_, hmerged⟩ := (getElem?_reduceAchievements hwell).mp h
    exact ⟨⟨key, h⟩, hmerged.named.1, hmerged.named.2.1⟩

theorem uploadedUnlocks_valid (hsound : w.Sound P) :
    ∀ u ∈ uploadedUnlocks w steamId64 key, u.Valid := by
  rintro _ ⟨x, ⟨device, hx, _⟩, a, ha, _, rfl⟩
  exact (wellFormed_of_valid ((hsound device).snapshot x hx).2).unlocked a ha

/-- The unlock times that snapshots which report the achievement unlocked know. -/
def knownTimes (w : SyncWorld) (steamId64 : String) (key : AppKey) : Set Int :=
  {t | ∃ upload, Uploaded w steamId64 key.appId upload ∧ ∃ a ∈ upload.achievements,
    a.key = key.key ∧ a.unlocked = true ∧ a.unlockedAt = some t}

/-- A time is never reported without an unlock. -/
theorem knownTimes_eq (hsound : w.Sound P) :
    knownTimes w steamId64 key = {t | ∃ u ∈ uploadedUnlocks w steamId64 key, u.time = some t} := by
  ext t
  constructor
  · rintro ⟨x, hx, a, ha, hkey, _, ht⟩
    exact ⟨_, ⟨x, hx, a, ha, hkey, rfl⟩, ht⟩
  · rintro ⟨u, hu, ht⟩
    have hvalid := uploadedUnlocks_valid hsound u hu t ht
    obtain ⟨x, hx, a, ha, hkey, rfl⟩ := hu
    exact ⟨x, hx, a, ha, hkey, hvalid, ht⟩

/-- What was uploaded stays uploaded. -/
theorem uploadedUnlocks_mono (w : SyncWorld) (more : List SyncAction) (key : AppKey) :
    uploadedUnlocks w steamId64 key ⊆ uploadedUnlocks (w.run P more) steamId64 key := by
  rintro _ ⟨x, ⟨device, hx, hsteam, happ⟩, a, ha, hkey, rfl⟩
  exact ⟨x, ⟨device, (w.run_snapshots more device).subset hx, hsteam, happ⟩, a, ha, hkey, rfl⟩

end Reader

end VaporForge.Local
