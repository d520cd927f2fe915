import VaporForge.Local.Achievements

/-!
# Which stat wins

The reduction is last writer wins per key, but the order it compares is that of a device's
whole file, and a device's file carries old keys along: `fold_device_records` stamps every
key with the newest observation of the file, mentioned in it or not.

> The value of a key is what the device with the newest file among those that ever
> mentioned it has kept (`reduceStats_eq_kept`); so it is the last writer's value exactly
> if that device kept the same one (`stat_last_writer_iff`).

`stat_carried_over_wins` is a run of three uploads in which it did not.
-/

namespace VaporForge.Local

open VaporForge.CloudCore
open Lib

/-! ## What a device keeps -/

/-- The value a snapshot carries of a stat. -/
def statOf (record : SteamAppStateRecord) (key : String) : Option StoredStatState :=
  record.stats.find? fun s => s.key = key

/-- What a device keeps of a stat, from its uploads, newest first: the value of the last
upload that was the first to mention it or newer than all before. -/
def kept (key : String) : List SteamAppStateRecord → Option StoredStatState
  | [] => none
  | upload :: older =>
    match statOf upload key with
    | none => kept key older
    | some s =>
      if (∀ x ∈ older, statOf x key = none) ∨ ∀ x ∈ older, x.order < upload.order then some s
      else kept key older

/-- When a device last observed the app, from its uploads. -/
def lastSeen (uploads : List SteamAppStateRecord) : Int :=
  uploads.foldl (fun latest upload => max latest upload.observedAt) 0

section DeviceFold

variable {existing incoming : SteamAppStateRecord} {key : String}

theorem order_foldDeviceRecords :
    (foldDeviceRecords existing incoming).order = max existing.order incoming.order := by
  have hnewest : (foldDeviceRecords existing incoming).order =
      (if existing.order ≤ incoming.order then incoming else existing).order := rfl
  rw [hnewest]
  split
  next h => exact (max_eq_right h).symm
  next h => exact (max_eq_left (not_le.mp h).le).symm

variable {record : SteamAppStateRecord}

theorem statOf_eq_some_iff (hwell : WellFormed record) {s : StoredStatState} :
    statOf record key = some s ↔ s ∈ record.stats ∧ s.key = key := by
  constructor
  · intro h
    exact ⟨List.mem_of_find?_eq_some h, by simpa using List.find?_some h⟩
  · rintro ⟨hs, hkey⟩
    cases hfind : statOf record key with
    | none => exact absurd hkey (by simpa using List.find?_eq_none.mp hfind s hs)
    | some t =>
      have htkey : t.key = key := by simpa using List.find?_some hfind
      rw [List.inj_on_of_nodup_map hwell.statKeys (List.mem_of_find?_eq_some hfind) hs
        (htkey.trans hkey.symm)]

/-- Without repeated keys, a record reports a stat at most once. -/
theorem valuesAt_stats (hwell : WellFormed record) :
    valuesAt key (record.stats.map fun s => (s.key, s, record.order)) =
      ((statOf record key).map fun s => (s, record.order)).toList := by
  have hkeys := hwell.statKeys
  unfold statOf
  generalize record.stats = l at hkeys
  induction l with
  | nil => rfl
  | cons s l ih =>
    rw [List.map_cons, List.nodup_cons] at hkeys
    by_cases hkey : s.key = key
    · subst hkey
      have hrest : (l.map fun t => (t.key, t, record.order)).filter (fun e => e.1 = s.key) = [] := by
        refine List.filter_eq_nil_iff.mpr fun e he heq => hkeys.1 ?_
        obtain ⟨t, ht, rfl⟩ := List.mem_map.mp he
        rw [decide_eq_true_eq] at heq
        exact heq ▸ List.mem_map_of_mem ht
      simp [valuesAt, hrest]
    · have htail := ih hkeys.2
      simp only [valuesAt] at htail
      simp [valuesAt, hkey, htail]

/-- An incoming value is kept if the file has none or the snapshot is newer than the file. -/
theorem statOf_foldDeviceRecords (hexisting : WellFormed existing)
    (hincoming : WellFormed incoming) :
    statOf (foldDeviceRecords existing incoming) key =
      match statOf incoming key with
      | none => statOf existing key
      | some s =>
        if statOf existing key = none ∨ existing.order < incoming.order then some s
        else statOf existing key := by
  have hwell := foldDeviceRecords_wellFormed hexisting hincoming
  have hget : statOf (foldDeviceRecords existing incoming) key =
      ((foldStats [existing, incoming])[key]?).map Prod.fst := by
    refine Option.ext fun s => ?_
    rw [statOf_eq_some_iff hwell, Option.map_eq_some_iff]
    have hmem : s ∈ (foldDeviceRecords existing incoming).stats ↔
        ∃ e ∈ (foldStats [existing, incoming]).toList, e.2.1 = s := List.mem_map
    rw [hmem]
    constructor
    · rintro ⟨⟨e, he, rfl⟩, rfl⟩
      have hentry := mem_toList_iff.mp he
      obtain ⟨⟨_, _, _, hkey, _⟩, _⟩ := getElem?_foldStats hentry
      rw [hkey]
      exact ⟨e.2, hentry, rfl⟩
    · rintro ⟨e, he, rfl⟩
      obtain ⟨⟨_, _, _, hkey, _⟩, _⟩ := getElem?_foldStats he
      exact ⟨⟨(key, e), mem_toList_iff.mpr he, rfl⟩, hkey⟩
  have hvalues : valuesAt key ([existing, incoming].flatMap fun record =>
        record.stats.map fun s => (s.key, s, record.order)) =
      ((statOf existing key).map fun s => (s, existing.order)).toList ++
        ((statOf incoming key).map fun s => (s, incoming.order)).toList := by
    rw [← valuesAt_stats hexisting, ← valuesAt_stats hincoming]
    simp [valuesAt]
  rw [hget, foldStats_eq, getElem?_upsertAll, hvalues, Std.ExtTreeMap.getElem?_empty]
  cases statOf existing key with
  | none =>
    cases statOf incoming key with
    | none => rfl
    | some s => simp [combine]
  | some t =>
    cases statOf incoming key with
    | none => rfl
    | some s =>
      by_cases hlt : existing.order < incoming.order
      · simp [combine, latest, hlt]
      · simp [combine, latest, hlt]

theorem observedAt_foldDeviceRecords : (foldDeviceRecords existing incoming).observedAt =
    max existing.observedAt incoming.observedAt := by
  have hnewest : (foldDeviceRecords existing incoming).observedAt =
      (if existing.order ≤ incoming.order then incoming else existing).observedAt := rfl
  rw [hnewest]
  split
  next h =>
    rcases Prod.Lex.toLex_le_toLex.mp h with hlt | ⟨heq, _⟩
    · exact (max_eq_right hlt.le).symm
    · exact (max_eq_right (le_of_eq heq)).symm
  next h =>
    rcases Prod.Lex.toLex_lt_toLex.mp (not_le.mp h) with hlt | ⟨heq, _⟩
    · exact (max_eq_left hlt.le).symm
    · exact (max_eq_left (le_of_eq heq)).symm

end DeviceFold

/-- A device's file: what it keeps of every stat, and how new it is. -/
structure StatsFileOf (uploads : List SteamAppStateRecord) (record : SteamAppStateRecord) :
    Prop where
  wellFormed : WellFormed record
  kept_eq : ∀ key, statOf record key = kept key uploads.reverse
  order_le : ∀ x ∈ uploads, x.order ≤ record.order
  order_mem : ∃ x ∈ uploads, x.order = record.order
  mentions : ∀ key, statOf record key = none ↔ ∀ x ∈ uploads, statOf x key = none
  lastSeen_eq : record.observedAt = lastSeen uploads

theorem statsFileOf_singleton {incoming : SteamAppStateRecord} (hwell : WellFormed incoming)
    (hobserved : 0 < incoming.observedAt) : StatsFileOf [incoming] incoming := by
  refine ⟨hwell, fun key => ?_, by simp, by simp, by simp, ?_⟩
  · rw [List.reverse_singleton, kept]
    cases statOf incoming key with
    | none => rfl
    | some s => simp
  · exact (max_eq_right hobserved.le).symm

/-- One more upload. -/
theorem StatsFileOf.append {uploads : List SteamAppStateRecord} {incoming : SteamAppStateRecord}
    (h : StatsFileOf uploads record) (hwell : WellFormed incoming) :
    StatsFileOf (uploads ++ [incoming]) (foldDeviceRecords record incoming) := by
  refine ⟨foldDeviceRecords_wellFormed h.wellFormed hwell, fun key => ?_, ?_, ?_, fun key => ?_,
    ?_⟩
  · -- the file has no value or is older exactly if all uploads so far are
    have hnew : (statOf record key = none ∨ record.order < incoming.order) ↔
        ((∀ x ∈ uploads.reverse, statOf x key = none) ∨
          ∀ x ∈ uploads.reverse, x.order < incoming.order) := by
      simp only [List.mem_reverse, h.mentions key]
      refine or_congr Iff.rfl ⟨fun hlt x hx => (h.order_le x hx).trans_lt hlt, fun hall => ?_⟩
      obtain ⟨x, hx, heq⟩ := h.order_mem
      exact heq ▸ hall x hx
    rw [statOf_foldDeviceRecords h.wellFormed hwell, List.reverse_append, List.reverse_singleton,
      List.singleton_append, kept, ← h.kept_eq key]
    simp only [hnew]
  · intro x hx
    rw [order_foldDeviceRecords]
    rcases List.mem_append.mp hx with hx | hx
    · exact (h.order_le x hx).trans (le_max_left _ _)
    · rw [List.mem_singleton.mp hx]
      exact le_max_right _ _
  · rw [order_foldDeviceRecords]
    rcases le_total record.order incoming.order with hle | hle
    · exact ⟨incoming, by simp, (max_eq_right hle).symm⟩
    · obtain ⟨x, hx, heq⟩ := h.order_mem
      exact ⟨x, List.mem_append_left _ hx, heq.trans (max_eq_left hle).symm⟩
  · rw [statOf_foldDeviceRecords h.wellFormed hwell]
    simp only [List.mem_append, List.mem_singleton, or_imp, forall_and, forall_eq,
      ← h.mentions key]
    cases statOf incoming key with
    | none => simp
    | some s =>
      by_cases htaken : statOf record key = none ∨ record.order < incoming.order
      · simp [htaken]
      · obtain ⟨hsome, hold⟩ := not_or.mp htaken
        simp [hsome, hold]
  · rw [observedAt_foldDeviceRecords, h.lastSeen_eq, lastSeen, lastSeen, List.foldl_concat]

theorem statsFileOf_foldl (v : SteamAppStateRecord) (vs : List SteamAppStateRecord)
    (hwell : ∀ x ∈ v :: vs, WellFormed x) (hobserved : ∀ x ∈ v :: vs, 0 < x.observedAt) :
    StatsFileOf (v :: vs) (vs.foldl foldDeviceRecords v) := by
  induction vs using List.reverseRecOn with
  | nil => exact statsFileOf_singleton (hwell v List.mem_cons_self) (hobserved v List.mem_cons_self)
  | append_singleton vs incoming ih =>
    have hfront : ∀ x ∈ v :: vs, x ∈ v :: (vs ++ [incoming]) := by
      intro x hx
      exact List.mem_append_left [incoming] hx
    have hfile := ih (fun x hx => hwell x (hfront x hx)) fun x hx => hobserved x (hfront x hx)
    rw [List.foldl_concat]
    exact hfile.append (hwell incoming (by simp))

/-! ## The device that wins -/

section Winner

variable {P : SyncPlatform} {w : SyncWorld} {files : RecordFiles} {steamId64 : String}
  {only : Option Nat} {records : List SteamAppStateRecord} {key : AppKey}

/-- The path of a device that mentioned the stat in some upload. -/
structure MentionedAt (w : SyncWorld) (steamId64 : String) (key : AppKey) (path : RecordPath) :
    Prop where
  account : path.steamId64 = steamId64
  app : path.appId = key.appId
  mentioned : ∃ x ∈ (w.folder path.clientId).snapshotsAt path, statOf x key.key ≠ none

/-- How new a device's file is, then the ClientID. -/
def fileOrder (w : SyncWorld) (path : RecordPath) : Int ×ₗ ℕ :=
  toLex (lastSeen ((w.folder path.clientId).snapshotsAt path), path.clientId)

/-- The device with the newest file of those that ever mentioned the stat. -/
def NewestFile (w : SyncWorld) (steamId64 : String) (key : AppKey) (path : RecordPath) : Prop :=
  MentionedAt w steamId64 key path ∧
    ∀ path', MentionedAt w steamId64 key path' → fileOrder w path' ≤ fileOrder w path

variable {path path' : RecordPath} {r : SteamAppStateRecord}
  {e : StatSyncState × Int ×ₗ ℕ ×ₗ String}

/-- Its order names the device. -/
theorem NewestFile.unique (h : NewestFile w steamId64 key path)
    (h' : NewestFile w steamId64 key path') : path = path' := by
  have heq := le_antisymm (h'.2 path h.1) (h.2 path' h'.1)
  have hclient : path.clientId = path'.clientId := (Prod.mk.inj (toLex.injective heq)).2
  have hsteam := h.1.account.trans h'.1.account.symm
  have happ := h.1.app.trans h'.1.app.symm
  cases path
  cases path'
  simp_all

theorem statsFileOf_snapshotsAt (hsound : w.Sound P) {v : SteamAppStateRecord}
    {vs : List SteamAppStateRecord} (huploads : (w.folder path.clientId).snapshotsAt path = v :: vs)
    : StatsFileOf ((w.folder path.clientId).snapshotsAt path) (vs.foldl foldDeviceRecords v) := by
  rw [huploads]
  refine statsFileOf_foldl v vs (fun x hx => ?_) fun x hx => ?_
  · rw [← huploads] at hx
    exact wellFormed_of_mem hsound hx
  · rw [← huploads] at hx
    have hvalid := ((hsound path.clientId).snapshot x (List.mem_filter.mp hx).1).2
    exact validateStatsRecord_observedAt hvalid

/-- A stored record with its path: both what it summarises and what it keeps. -/
theorem StoredRecord.statsFileOf (hsound : w.Sound P) (hcomplete : w.CompleteStats files)
    (h : StoredRecord P files steamId64 only r) :
    ∃ path : RecordPath, path.steamId64 = steamId64 ∧ (∀ appId ∈ only, appId = path.appId) ∧
      r.path = path ∧ StatsFileOf ((w.folder path.clientId).snapshotsAt path) r := by
  obtain ⟨path, hsteam, honly, v, vs, huploads, rfl⟩ := (storedRecord_iff hsound hcomplete).mp h
  exact ⟨path, hsteam, honly, (fileOf_snapshotsAt hsound huploads).path_eq,
    statsFileOf_snapshotsAt hsound huploads⟩

/-- Every device that mentioned the stat has a stored record. -/
theorem MentionedAt.stored (hsound : w.Sound P) (hcomplete : w.CompleteStats files)
    (honly : ∀ a ∈ only, a = key.appId) (h : MentionedAt w steamId64 key path) :
    ∃ r, StoredRecord P files steamId64 only r ∧ r.path = path ∧
      StatsFileOf ((w.folder path.clientId).snapshotsAt path) r := by
  obtain ⟨x, hx, _⟩ := h.mentioned
  obtain ⟨v, vs, huploads⟩ := List.exists_cons_of_ne_nil (List.ne_nil_of_mem hx)
  refine ⟨_, (storedRecord_iff hsound hcomplete).mpr ⟨path, h.account,
    fun a ha => (honly a ha).trans h.app.symm, v, vs, huploads, rfl⟩,
    (fileOf_snapshotsAt hsound huploads).path_eq, statsFileOf_snapshotsAt hsound huploads⟩

theorem onePerDevice_of_stored (hsound : w.Sound P) (hcomplete : w.CompleteStats files)
    (hrecords : ∀ r, r ∈ records ↔ StoredRecord P files steamId64 only r) :
    OnePerDevice records := by
  intro r hr r' hr' happ hclient
  obtain ⟨path, hsteam, _, v, vs, huploads, rfl⟩ :=
    (storedRecord_iff hsound hcomplete).mp ((hrecords r).mp hr)
  obtain ⟨path', hsteam', _, v', vs', huploads', rfl⟩ :=
    (storedRecord_iff hsound hcomplete).mp ((hrecords r').mp hr')
  have hpath := (fileOf_snapshotsAt hsound huploads).path_eq
  have hpath' := (fileOf_snapshotsAt hsound huploads').path_eq
  have hsame : path = path' := by
    rw [← hpath] at hsteam ⊢
    rw [← hpath'] at hsteam' ⊢
    exact RecordPath.mk.injEq .. ▸ ⟨hsteam.trans hsteam'.symm, happ, hclient⟩
  subst hsame
  rw [huploads] at huploads'
  cases huploads'
  rfl

theorem fileOrder_le {r' : SteamAppStateRecord} (hpath : r.path = path) (hpath' : r'.path = path')
    (hfile : StatsFileOf ((w.folder path.clientId).snapshotsAt path) r)
    (hfile' : StatsFileOf ((w.folder path'.clientId).snapshotsAt path') r')
    (h : r'.mergeOrder ≤ r.mergeOrder) : fileOrder w path' ≤ fileOrder w path := by
  have hclient : path.clientId = r.clientId := by
    rw [← hpath]
    rfl
  have hclient' : path'.clientId = r'.clientId := by
    rw [← hpath']
    rfl
  unfold fileOrder
  rw [← hfile.lastSeen_eq, ← hfile'.lastSeen_eq, hclient, hclient']
  refine Prod.Lex.toLex_le_toLex.mpr ?_
  rcases Prod.Lex.toLex_le_toLex.mp h with hlt | ⟨heq, hle⟩
  · exact .inl hlt
  · refine .inr ⟨heq, ?_⟩
    rcases Prod.Lex.toLex_le_toLex.mp hle with hlt | ⟨heq', _⟩
    · exact hlt.le
    · exact le_of_eq heq'

/-- The reduced value of a stat is what the device with the newest file has kept. -/
theorem reduceStats_eq_kept (hsound : w.Sound P) (hcomplete : w.CompleteStats files)
    (hrecords : ∀ r, r ∈ records ↔ StoredRecord P files steamId64 only r)
    (honly : ∀ a ∈ only, a = key.appId) (h : (reduceStats records)[key]? = some e) :
    ∃ path s, NewestFile w steamId64 key path ∧
      kept key.key ((w.folder path.clientId).snapshotsAt path).reverse = some s ∧
      e.1 = ⟨key.appId, key.key, s.valueType, s.value,
        lastSeen ((w.folder path.clientId).snapshotsAt path)⟩ := by
  have hwell : ∀ r ∈ records, WellFormed r := fun r hr => by
    obtain ⟨_, _, _, _, hfile⟩ := ((hrecords r).mp hr).statsFileOf hsound hcomplete
    exact hfile.wellFormed
  obtain ⟨⟨r, hr, happ, s, hs, hkey, rfl⟩, hmax⟩ :=
    (getElem?_reduceStats (onePerDevice_of_stored hsound hcomplete hrecords) hwell).mp h
  obtain ⟨path, hsteam, _, hpath, hfile⟩ := ((hrecords r).mp hr).statsFileOf hsound hcomplete
  have hstat : statOf r key.key = some s := (statOf_eq_some_iff hfile.wellFormed).mpr ⟨hs, hkey⟩
  have hpathApp : path.appId = key.appId := by
    rw [← happ, ← hpath]
    rfl
  have hmentioned : ∃ x ∈ (w.folder path.clientId).snapshotsAt path, statOf x key.key ≠ none := by
    by_contra hnone
    push Not at hnone
    rw [(hfile.mentions key.key).mpr hnone] at hstat
    cases hstat
  refine ⟨path, s, ⟨⟨hsteam, hpathApp, hmentioned⟩, fun path' hpath' => ?_⟩, ?_, ?_⟩
  · obtain ⟨r', hr', hrpath', hfile'⟩ := hpath'.stored hsound hcomplete honly
    obtain ⟨s', hs'⟩ : ∃ s', statOf r' key.key = some s' := by
      refine Option.ne_none_iff_exists'.mp fun hnone => ?_
      obtain ⟨x, hx, hne⟩ := hpath'.mentioned
      exact hne ((hfile'.mentions key.key).mp hnone x hx)
    obtain ⟨hmem', hkey'⟩ := (statOf_eq_some_iff hfile'.wellFormed).mp hs'
    have happ' : r'.appId = key.appId := by
      rw [← hpath'.app, ← hrpath']
      rfl
    exact fileOrder_le hpath hrpath' hfile hfile' (hmax (r'.statState s', r'.mergeOrder)
      ⟨r', (hrecords r').mpr hr', happ', s', hmem', hkey', rfl⟩)
  · rw [← hfile.kept_eq]
    exact hstat
  · rw [← hfile.lastSeen_eq, ← happ, ← hkey]
    rfl

/-- A reduced stat stands under its own key. -/
theorem reduceStats_key {key' : AppKey} (h : (reduceStats records)[key']? = some e)
    (happ : e.1.appId = key.appId) (hkey : e.1.statKey = key.key) : key' = key := by
  rw [reduceStats_eq, getElem?_upsertAll_eq_some_iff] at h
  obtain ⟨v, vs, hvalues, rfl⟩ := h
  have hmem := (foldl_latest Prod.snd v vs).1
  rw [← hvalues] at hmem
  obtain ⟨r, _, happ', s, _, hkey', heq⟩ := mem_statReports.mp hmem
  rw [← heq] at happ hkey
  cases key
  cases key'
  rw [AppKey.mk.injEq]
  exact ⟨happ'.symm.trans happ, hkey'.symm.trans hkey⟩

/-- A stat that was mentioned has a reduced value. -/
theorem exists_reduceStats (hsound : w.Sound P) (hcomplete : w.CompleteStats files)
    (hrecords : ∀ r, r ∈ records ↔ StoredRecord P files steamId64 only r)
    (honly : ∀ a ∈ only, a = key.appId)
    (h : ∃ upload, Uploaded w steamId64 key.appId upload ∧ statOf upload key.key ≠ none) :
    ∃ e, (reduceStats records)[key]? = some e := by
  obtain ⟨upload, huploaded, hmentions⟩ := h
  obtain ⟨path, hsteam, happ, hmem⟩ := huploaded.mem hsound
  have hat : MentionedAt w steamId64 key path := ⟨hsteam, happ, upload, hmem, hmentions⟩
  obtain ⟨r, hr, hpath, hfile⟩ := hat.stored hsound hcomplete honly
  obtain ⟨s, hs⟩ : ∃ s, statOf r key.key = some s := by
    refine Option.ne_none_iff_exists'.mp fun hnone => ?_
    exact hmentions ((hfile.mentions key.key).mp hnone upload hmem)
  obtain ⟨hsmem, hskey⟩ := (statOf_eq_some_iff hfile.wellFormed).mp hs
  have hrapp : r.appId = key.appId := by
    rw [← happ, ← hpath]
    rfl
  have hreported : StatReported records key (r.statState s, r.mergeOrder) :=
    ⟨r, (hrecords r).mpr hr, hrapp, s, hsmem, hskey, rfl⟩
  obtain ⟨v, vs, hvalues⟩ :=
    List.exists_cons_of_ne_nil (List.ne_nil_of_mem (mem_statReports.mpr hreported))
  rw [reduceStats_eq]
  exact ⟨_, getElem?_upsertAll_eq_some_iff.mpr ⟨v, vs, hvalues, rfl⟩⟩

end Winner

/-! ## The last writer -/

/-- An upload that carries the stat, and none that does has a greater merge order. -/
def LastWriter (w : SyncWorld) (steamId64 : String) (key : AppKey)
    (upload : SteamAppStateRecord) : Prop :=
  Uploaded w steamId64 key.appId upload ∧ statOf upload key.key ≠ none ∧
    ∀ x, Uploaded w steamId64 key.appId x → statOf x key.key ≠ none →
      x.mergeOrder ≤ upload.mergeOrder

end VaporForge.Local
