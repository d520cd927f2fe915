import VaporForge.Local.SyncRecord

/-!
# Uploading into the shared folder

`upload_steam_app_snapshot` and `upload_playtime` fold what a device observed into the one
file it owns. Every device works on its own copy of the folder; a file synchroniser
carries the copies around, one file at a time and in any order.

> After every run, a device's own file is the fold of exactly what it uploaded, oldest
> first (`SyncWorld.Sound`).

A copy never feeds back: an upload reads and writes nothing but the uploader's own file,
and the synchroniser never writes a file over its owner's (`getElem?_receive`). So a reader
who holds every owner's file holds the fold of all uploads (`SyncWorld.CompleteStats`).
-/

namespace VaporForge.Local

open VaporForge.CloudCore
open Lib

/-! ## Folding into one's own file -/

/-- The match on two optional times that both achievement folds contain. -/
def earliest : Option Int → Option Int → Option Int := Option.merge min

/-- `max_option`. -/
def maxOption : Option Int → Option Int → Option Int := Option.merge max

/-- What the fold does to a key that is there already. -/
def StoredAchievementState.join (current achievement : StoredAchievementState) :
    StoredAchievementState :=
  let unlocked := current.unlocked || achievement.unlocked
  { current with
    unlocked := unlocked
    unlockedAt := if unlocked then earliest current.unlockedAt achievement.unlockedAt else none }

/-- When a record was observed, for two records of one device. -/
def SteamAppStateRecord.order (record : SteamAppStateRecord) : Int ×ₗ String :=
  toLex (record.observedAt, record.commitId)

/-- `insert_latest`, and the same step of `fold_device_records`. -/
def insertLatest {K V O : Type} [LinearOrder K] [LinearOrder O]
    (states : Std.ExtTreeMap K (V × O) compare) (key : K) (state : V) (order : O) :
    Std.ExtTreeMap K (V × O) compare :=
  if states[key]?.all fun current => current.2 < order then states.insert key (state, order)
  else states

def foldAchievements (records : List SteamAppStateRecord) :
    Std.ExtTreeMap String StoredAchievementState compare :=
  records.foldl (fun achievements record =>
    record.achievements.foldl (fun achievements achievement =>
      upsert StoredAchievementState.join achievements achievement.key achievement) achievements) ∅

def foldStats (records : List SteamAppStateRecord) :
    Std.ExtTreeMap String (StoredStatState × Int ×ₗ String) compare :=
  records.foldl (fun stats record =>
    record.stats.foldl (fun stats stat => insertLatest stats stat.key stat record.order) stats) ∅

/-- `fold_device_records`. -/
def foldDeviceRecords (existing incoming : SteamAppStateRecord) : SteamAppStateRecord :=
  let newest := if existing.order ≤ incoming.order then incoming else existing
  { incoming with
    commitId := newest.commitId
    observedAt := newest.observedAt
    achievements := (foldAchievements [existing, incoming]).toList.map Prod.snd
    stats := (foldStats [existing, incoming]).toList.map fun e => e.2.1 }

/-- The second component of the order is the digest of the record's JSON text. -/
def DevicePlaytime.order (P : SyncPlatform) (record : DevicePlaytime) : Int ×ₗ String :=
  toLex (record.entry.observedAt, P.digest (P.encodePlaytime record))

/-- `fold_playtime_records`. -/
def foldPlaytimeRecords (P : SyncPlatform) (existing incoming : DevicePlaytime) :
    DevicePlaytime :=
  let newest := if existing.order P ≤ incoming.order P then incoming else existing
  { newest with
    entry := { newest.entry with
      playtimeMinutes := max existing.entry.playtimeMinutes incoming.entry.playtimeMinutes
      lastPlayedAt := maxOption existing.entry.lastPlayedAt incoming.entry.lastPlayedAt } }

/-! ## The uploads -/

abbrev RecordFiles := Std.ExtTreeMap RecordPath Bytes compare

/-- One device's copy of the folder. The last two fields are what this device uploaded so
far, oldest first; no code reads them. -/
structure SyncFolder where
  stats : RecordFiles
  playtime : RecordFiles
  snapshots : List SteamAppStateRecord
  observations : List DevicePlaytime

def SyncFolder.empty : SyncFolder := ⟨∅, ∅, [], []⟩

/-- The record `upload_steam_app_snapshot` makes of a snapshot. -/
def incomingRecord (identity : UploadIdentity) (snapshot : SteamAppSnapshot) :
    SteamAppStateRecord where
  steamId64 := identity.steamId64
  clientId := identity.clientId
  appId := snapshot.appId
  commitId := snapshot.commitId
  observedAt := snapshot.observedAt
  achievements := snapshot.achievements.map fun a => ⟨a.key, a.unlocked, a.unlockedAt⟩
  stats := snapshot.stats.map fun s => ⟨s.key, s.valueType, s.value⟩

def SteamAppStateRecord.path (record : SteamAppStateRecord) : RecordPath :=
  ⟨record.steamId64, record.appId, record.clientId⟩

def DevicePlaytime.path (record : DevicePlaytime) : RecordPath :=
  ⟨record.steamId64, record.entry.appId, record.clientId⟩

/-- The record the file at the path becomes: what is there is read, checked and folded. -/
def foldSnapshot (P : SyncPlatform) (files : RecordFiles) (incoming : SteamAppStateRecord) :
    Result SteamAppStateRecord :=
  match files[incoming.path]? with
  | none => return incoming
  | some bytes => do
    let bytes ← readBoundedJson bytes maxStatsRecordBytes "Steam app state"
    let existing ← jsonResult (P.decodeStats bytes)
    validateStatsRecord P existing incoming.steamId64 incoming.appId incoming.clientId
    return foldDeviceRecords existing incoming

/-- `upload_steam_app_snapshot`. -/
def uploadSteamAppSnapshot (P : SyncPlatform) (folder : SyncFolder) (identity : UploadIdentity)
    (snapshot : SteamAppSnapshot) : Result (SyncFolder × List AppStatsUploadResult) := do
  if snapshot.commitId = "" ∨ snapshot.appId = 0 ∨ identity.clientId = 0 ∨
      snapshot.ownerSteamId64 ≠ identity.steamId64 then
    throw (permanent "invalid local Steam app snapshot")
  appRoot identity.steamId64 snapshot.appId
  let incoming := incomingRecord identity snapshot
  validateStatsRecord P incoming identity.steamId64 snapshot.appId identity.clientId
  let record ← foldSnapshot P folder.stats incoming
  let bytes := P.encodeStats record
  if bytes.length > maxStatsRecordBytes then
    throw (permanent "local Steam app state file is too large")
  return ({ folder with
      stats := folder.stats.insert incoming.path bytes
      snapshots := folder.snapshots ++ [incoming] },
    [⟨snapshot.appId, .applied, none⟩])

/-- The same for a playtime record. -/
def foldObservation (P : SyncPlatform) (files : RecordFiles) (incoming : DevicePlaytime) :
    Result DevicePlaytime :=
  match files[incoming.path]? with
  | none => return incoming
  | some bytes => do
    let bytes ← readBoundedJson bytes maxPlaytimeRecordBytes "playtime state"
    let existing ← jsonResult (P.decodePlaytime bytes)
    validatePlaytimeRecord existing incoming.steamId64 incoming.entry.appId incoming.clientId
    return foldPlaytimeRecords P existing incoming

/-- The loop body of `upload_playtime`. -/
def writePlaytime (P : SyncPlatform) (folder : SyncFolder) (incoming : DevicePlaytime) :
    Result SyncFolder := do
  appRoot incoming.steamId64 incoming.entry.appId
  let record ← foldObservation P folder.playtime incoming
  let bytes := P.encodePlaytime record
  if bytes.length > maxPlaytimeRecordBytes then
    throw (permanent "local playtime state file is too large")
  return { folder with
    playtime := folder.playtime.insert incoming.path bytes
    observations := folder.observations ++ [incoming] }

/-- The loop of `upload_playtime`; what was written before a failure stays. -/
def writeAllPlaytime (P : SyncPlatform) (folder : SyncFolder) :
    List DevicePlaytime → SyncFolder × Result Unit
  | [] => (folder, .ok ())
  | incoming :: rest =>
    match writePlaytime P folder incoming with
    | .ok folder => writeAllPlaytime P folder rest
    | .error error => (folder, .error error)

/-- `upload_playtime`. -/
def uploadPlaytime (P : SyncPlatform) (folder : SyncFolder) (clientId : Nat)
    (steamId64 : String) (entries : List PlaytimeEntry) : SyncFolder × Result Unit :=
  if entries = [] then (folder, .ok ())
  else if clientId = 0 then
    (folder, .error (permanent "local playtime ClientID is unavailable"))
  else if entries.any fun entry => entry.appId = 0 ∨ entry.observedAt ≤ 0 ∨
      entry.lastPlayedAt.any (· < 0) ∨
      (entry.ownerSteamId64 ≠ "" ∧ entry.ownerSteamId64 ≠ steamId64) then
    (folder, .error (permanent "invalid local playtime observation"))
  else writeAllPlaytime P folder (entries.map fun entry => ⟨steamId64, clientId, entry⟩)

/-! ## Every device's copy -/

/-- Every device, by ClientID, with its copy of the folder. -/
structure SyncWorld where
  folder : Nat → SyncFolder

def SyncWorld.start : SyncWorld := ⟨fun _ => .empty⟩

inductive SyncAction where
  | uploadSnapshot (identity : UploadIdentity) (snapshot : SteamAppSnapshot)
  | uploadPlaytime (clientId : Nat) (steamId64 : String) (entries : List PlaytimeEntry)
  | receiveStats (device source : Nat) (path : RecordPath)
  | receivePlaytime (device source : Nat) (path : RecordPath)

/-- The device whose copy an action changes. -/
def SyncAction.device : SyncAction → Nat
  | .uploadSnapshot identity _ => identity.clientId
  | .uploadPlaytime clientId _ _ => clientId
  | .receiveStats device _ _ => device
  | .receivePlaytime device _ _ => device

namespace SyncWorld

/-- A device changes its own copy. -/
def update (w : SyncWorld) (device : Nat) (folder : SyncFolder) : SyncWorld :=
  ⟨Function.update w.folder device folder⟩

/-- The synchroniser copies one file from one device to another that does not own it. -/
def receive (files source : RecordFiles) (device : Nat) (path : RecordPath) : RecordFiles :=
  match source[path]? with
  | some bytes => if path.clientId = device then files else files.insert path bytes
  | none => files

def act (P : SyncPlatform) (w : SyncWorld) : SyncAction → SyncWorld
  | .uploadSnapshot identity snapshot =>
    match uploadSteamAppSnapshot P (w.folder identity.clientId) identity snapshot with
    | .ok (folder, _) => w.update identity.clientId folder
    | .error _ => w
  | .uploadPlaytime clientId steamId64 entries =>
    w.update clientId (uploadPlaytime P (w.folder clientId) clientId steamId64 entries).1
  | .receiveStats device source path =>
    let folder := w.folder device
    w.update device
      { folder with stats := receive folder.stats (w.folder source).stats device path }
  | .receivePlaytime device source path =>
    let folder := w.folder device
    w.update device
      { folder with playtime := receive folder.playtime (w.folder source).playtime device path }

def run (P : SyncPlatform) (w : SyncWorld) (actions : List SyncAction) : SyncWorld :=
  actions.foldl (act P) w

end SyncWorld

/-! ## A device's own file is the fold of its uploads -/

section Invariant

variable {P : SyncPlatform} {folder folder' : SyncFolder} {device : Nat}

/-- The snapshots behind the file at a path, oldest first. -/
def SyncFolder.snapshotsAt (folder : SyncFolder) (path : RecordPath) : List SteamAppStateRecord :=
  folder.snapshots.filter fun record => record.path = path

/-- The observations behind the file at a path, oldest first. -/
def SyncFolder.observationsAt (folder : SyncFolder) (path : RecordPath) : List DevicePlaytime :=
  folder.observations.filter fun record => record.path = path

/-- A file is read back before the next observation is folded into it. -/
def foldStoredPlaytime (P : SyncPlatform) (existing incoming : DevicePlaytime) : DevicePlaytime :=
  foldPlaytimeRecords P existing.stored incoming

def ValidSnapshot (P : SyncPlatform) (record : SteamAppStateRecord) : Prop :=
  validateStatsRecord P record record.steamId64 record.appId record.clientId = .ok ()

def ValidObservation (record : DevicePlaytime) : Prop :=
  record.clientId ≠ 0 ∧ record.entry.appId ≠ 0 ∧ 0 < record.entry.observedAt ∧
    ¬ record.entry.lastPlayedAt.any (· < 0)

/-- What is known of a device's copy: its own files and what it uploaded. -/
structure SyncFolder.Owned (P : SyncPlatform) (device : Nat) (folder : SyncFolder) : Prop where
  stats : ∀ path : RecordPath, path.clientId = device →
    folder.stats[path]? = (combine foldDeviceRecords none (folder.snapshotsAt path)).map
      P.encodeStats
  playtime : ∀ path : RecordPath, path.clientId = device →
    folder.playtime[path]? = (combine (foldStoredPlaytime P) none
      (folder.observationsAt path)).map P.encodePlaytime
  playtimeSize : ∀ (path : RecordPath) (bytes : Bytes), path.clientId = device →
    folder.playtime[path]? = some bytes → bytes.length ≤ maxPlaytimeRecordBytes
  snapshot : ∀ record ∈ folder.snapshots, record.clientId = device ∧ ValidSnapshot P record
  observation : ∀ record ∈ folder.observations, record.clientId = device ∧
    ValidObservation record ∧ appRoot record.steamId64 record.entry.appId = .ok ()

/-- Appending one report folds it onto what the earlier ones gave. -/
theorem combine_filter_append {α : Type} (f : α → α → α) (p : α → Bool) (l : List α) (x : α) :
    combine f none ((l ++ [x]).filter p) =
      combine f (combine f none (l.filter p)) (if p x then [x] else []) := by
  rw [List.filter_append, combine_append]
  cases h : p x with
  | true => simp [h]
  | false => simp [h]

variable {identity : UploadIdentity} {snapshot : SteamAppSnapshot}
  {results : List AppStatsUploadResult} {steamId64 : String}

theorem uploadSteamAppSnapshot_eq_ok
    (h : uploadSteamAppSnapshot P folder identity snapshot = .ok (folder', results)) :
    ValidSnapshot P (incomingRecord identity snapshot) ∧
      ∃ record, foldSnapshot P folder.stats (incomingRecord identity snapshot) = .ok record ∧
        folder' = { folder with
          stats := folder.stats.insert (incomingRecord identity snapshot).path
            (P.encodeStats record)
          snapshots := folder.snapshots ++ [incomingRecord identity snapshot] } := by
  simp only [uploadSteamAppSnapshot, bind_eq_ok, throw_bind, ite_throw_eq_ok, pure_eq_ok,
    Prod.mk.injEq] at h
  obtain ⟨_, _, _, _, hvalid, record, hrecord, _, hfolder, _⟩ := h
  exact ⟨hvalid, record, hrecord, hfolder.symm⟩

variable {files : RecordFiles} {incoming : DevicePlaytime} {w : SyncWorld}

/-- What an upload writes is the fold of what the file held with what came in. -/
theorem foldSnapshot_eq_ok {incoming record : SteamAppStateRecord}
    {held : Option SteamAppStateRecord} (hheld : files[incoming.path]? = held.map P.encodeStats)
    (h : foldSnapshot P files incoming = .ok record) :
    some record = combine foldDeviceRecords held [incoming] := by
  unfold foldSnapshot at h
  cases held with
  | none =>
    rw [show files[incoming.path]? = none from hheld] at h
    simp only [pure_eq_ok] at h
    exact congrArg some h.symm
  | some existing =>
    rw [show files[incoming.path]? = some (P.encodeStats existing) from hheld] at h
    simp only [readBoundedJson, bind_eq_ok, ite_throw_eq_ok, pure_eq_ok] at h
    obtain ⟨_, ⟨_, rfl⟩, read, hread, _, _, hrecord⟩ := h
    rw [P.decode_encodeStats] at hread
    cases hread
    exact congrArg some hrecord.symm

theorem uploadSteamAppSnapshot_owned (howned : folder.Owned P identity.clientId)
    (h : uploadSteamAppSnapshot P folder identity snapshot = .ok (folder', results)) :
    folder'.Owned P identity.clientId := by
  obtain ⟨hvalid, record, hrecord, rfl⟩ := uploadSteamAppSnapshot_eq_ok h
  set incoming := incomingRecord identity snapshot with hincoming
  have hfold := foldSnapshot_eq_ok (howned.stats incoming.path rfl) hrecord
  refine ⟨fun path hpath => ?_, howned.playtime, howned.playtimeSize,
    forall_mem_concat.mpr ⟨howned.snapshot, rfl, hvalid⟩, howned.observation⟩
  rw [SyncFolder.snapshotsAt, combine_filter_append, Std.ExtTreeMap.getElem?_insert]
  by_cases hsame : incoming.path = path
  · subst hsame
    rw [if_pos (compare_eq_iff_eq.mpr rfl), if_pos (by simp)]
    exact congrArg (Option.map P.encodeStats) hfold
  · rw [if_neg (fun heq => hsame (compare_eq_iff_eq.mp heq)), if_neg (by simpa using hsame)]
    exact howned.stats path hpath

theorem writePlaytime_eq_ok (h : writePlaytime P folder incoming = .ok folder') :
    appRoot incoming.steamId64 incoming.entry.appId = .ok () ∧
    ∃ record, foldObservation P folder.playtime incoming = .ok record ∧
      (P.encodePlaytime record).length ≤ maxPlaytimeRecordBytes ∧
      folder' = { folder with
        playtime := folder.playtime.insert incoming.path (P.encodePlaytime record)
        observations := folder.observations ++ [incoming] } := by
  simp only [writePlaytime, bind_eq_ok, throw_bind, ite_throw_eq_ok, pure_eq_ok, not_lt] at h
  obtain ⟨_, hroot, record, hrecord, hsize, hfolder⟩ := h
  exact ⟨hroot, record, hrecord, hsize, hfolder.symm⟩

theorem foldObservation_eq_ok {record : DevicePlaytime} {held : Option DevicePlaytime}
    (hheld : files[incoming.path]? = held.map P.encodePlaytime)
    (h : foldObservation P files incoming = .ok record) :
    some record = combine (foldStoredPlaytime P) held [incoming] := by
  unfold foldObservation at h
  cases held with
  | none =>
    rw [show files[incoming.path]? = none from hheld] at h
    simp only [pure_eq_ok] at h
    exact congrArg some h.symm
  | some existing =>
    rw [show files[incoming.path]? = some (P.encodePlaytime existing) from hheld] at h
    simp only [readBoundedJson, bind_eq_ok, ite_throw_eq_ok, pure_eq_ok] at h
    obtain ⟨_, ⟨_, rfl⟩, read, hread, _, _, hrecord⟩ := h
    rw [P.decode_encodePlaytime] at hread
    cases hread
    exact congrArg some hrecord.symm

theorem writePlaytime_owned (hdevice : incoming.clientId = device)
    (hvalid : ValidObservation incoming) (howned : folder.Owned P device)
    (h : writePlaytime P folder incoming = .ok folder') : folder'.Owned P device := by
  obtain ⟨hroot, record, hrecord, hsize, rfl⟩ := writePlaytime_eq_ok h
  have hfold := foldObservation_eq_ok (howned.playtime incoming.path hdevice) hrecord
  refine ⟨howned.stats, fun path hpath => ?_, fun path bytes hpath hbytes => ?_,
    howned.snapshot, forall_mem_concat.mpr ⟨howned.observation, hdevice, hvalid, hroot⟩⟩
  · rw [SyncFolder.observationsAt, combine_filter_append, Std.ExtTreeMap.getElem?_insert]
    by_cases hsame : incoming.path = path
    · subst hsame
      rw [if_pos (compare_eq_iff_eq.mpr rfl), if_pos (by simp)]
      exact congrArg (Option.map P.encodePlaytime) hfold
    · rw [if_neg (fun heq => hsame (compare_eq_iff_eq.mp heq)), if_neg (by simpa using hsame)]
      exact howned.playtime path hpath
  · rw [Std.ExtTreeMap.getElem?_insert] at hbytes
    split at hbytes
    · cases hbytes
      exact hsize
    · exact howned.playtimeSize path bytes hpath hbytes

/-- The loop keeps the invariant, whether or not it ends early. -/
theorem writeAllPlaytime_owned {records : List DevicePlaytime}
    (hrecords : ∀ r ∈ records, r.clientId = device ∧ ValidObservation r)
    (howned : folder.Owned P device) : (writeAllPlaytime P folder records).1.Owned P device := by
  induction records generalizing folder with
  | nil => exact howned
  | cons incoming records ih =>
    have hhead := hrecords incoming List.mem_cons_self
    rw [writeAllPlaytime]
    split
    next folder' h =>
      exact ih (fun r hr => hrecords r (List.mem_cons_of_mem _ hr))
        (writePlaytime_owned hhead.1 hhead.2 howned h)
    next => exact howned

theorem uploadPlaytime_snapshots {clientId : Nat} {entries : List PlaytimeEntry} :
    (uploadPlaytime P folder clientId steamId64 entries).1.snapshots = folder.snapshots := by
  have hall : ∀ (records : List DevicePlaytime) (folder : SyncFolder),
      (writeAllPlaytime P folder records).1.snapshots = folder.snapshots := by
    intro records
    induction records with
    | nil => exact fun _ => rfl
    | cons incoming records ih =>
      intro folder
      rw [writeAllPlaytime]
      split
      next folder' h =>
        obtain ⟨_, record, _, _, rfl⟩ := writePlaytime_eq_ok h
        exact ih _
      next => rfl
  unfold uploadPlaytime
  split
  · rfl
  split
  · rfl
  split
  · rfl
  · exact hall _ _

theorem uploadPlaytime_owned {entries : List PlaytimeEntry} (howned : folder.Owned P device) :
    (uploadPlaytime P folder device steamId64 entries).1.Owned P device := by
  unfold uploadPlaytime
  split
  · exact howned
  split
  · exact howned
  next hclient =>
  split
  · exact howned
  next hvalid =>
    refine writeAllPlaytime_owned (fun r hr => ?_) howned
    obtain ⟨entry, hentry, rfl⟩ := List.mem_map.mp hr
    simp only [List.any_eq_true, decide_eq_true_eq, not_exists, not_and, not_or, not_le] at hvalid
    obtain ⟨happ, htime, hplayed, _⟩ := hvalid entry hentry
    exact ⟨rfl, hclient, happ, htime, hplayed⟩

/-! ## Runs -/

@[simp] theorem SyncWorld.folder_update_self : (w.update device folder).folder device = folder :=
  Function.update_self ..

theorem SyncWorld.folder_update_of_ne {other : Nat} (h : other ≠ device) :
    (w.update device folder).folder other = w.folder other :=
  Function.update_of_ne h ..

/-- Every device's copy is as its uploads left it. -/
def SyncWorld.Sound (P : SyncPlatform) (w : SyncWorld) : Prop :=
  ∀ device, (w.folder device).Owned P device

theorem SyncWorld.Sound.update (hsound : w.Sound P) (h : folder.Owned P device) :
    (w.update device folder).Sound P := by
  intro other
  by_cases heq : other = device
  · subst heq
    rw [SyncWorld.folder_update_self]
    exact h
  · rw [SyncWorld.folder_update_of_ne heq]
    exact hsound other

theorem SyncWorld.start_sound : SyncWorld.start.Sound P := by
  intro device
  refine ⟨fun path _ => ?_, fun path _ => ?_, fun path bytes _ hbytes => ?_, nofun, nofun⟩
  · exact Std.ExtTreeMap.getElem?_empty
  · exact Std.ExtTreeMap.getElem?_empty
  · rw [show (SyncWorld.start.folder device).playtime = ∅ from rfl,
      Std.ExtTreeMap.getElem?_empty] at hbytes
    cases hbytes

/-- The synchroniser leaves a device's own files alone. -/
theorem getElem?_receive {source : RecordFiles} {path path' : RecordPath}
    (hown : path'.clientId = device) :
    (SyncWorld.receive files source device path)[path']? = files[path']? := by
  unfold SyncWorld.receive
  split
  · split
    · rfl
    next hforeign =>
      rw [Std.ExtTreeMap.getElem?_insert, if_neg]
      intro heq
      exact hforeign (compare_eq_iff_eq.mp heq ▸ hown)
  · rfl

theorem SyncWorld.act_sound (hsound : w.Sound P) (action : SyncAction) :
    (w.act P action).Sound P := by
  cases action with
  | uploadSnapshot identity snapshot =>
    rw [SyncWorld.act]
    split
    next folder results h =>
      exact hsound.update (uploadSteamAppSnapshot_owned (hsound identity.clientId) h)
    next => exact hsound
  | uploadPlaytime clientId steamId64 entries =>
    exact hsound.update (uploadPlaytime_owned (hsound clientId))
  | receiveStats device source path =>
    have howned := hsound device
    refine hsound.update ⟨fun path' hown => ?_, howned.playtime, howned.playtimeSize,
      howned.snapshot, howned.observation⟩
    rw [getElem?_receive hown]
    exact howned.stats path' hown
  | receivePlaytime device source path =>
    have howned := hsound device
    refine hsound.update ⟨howned.stats, fun path' hown => ?_, fun path' bytes hown => ?_,
      howned.snapshot, howned.observation⟩
    · rw [getElem?_receive hown]
      exact howned.playtime path' hown
    · rw [getElem?_receive hown]
      exact howned.playtimeSize path' bytes hown

/-- Whatever was uploaded and exchanged, every device's own files are its own uploads. -/
theorem SyncWorld.run_sound (hsound : w.Sound P) (actions : List SyncAction) :
    (w.run P actions).Sound P := by
  induction actions generalizing w with
  | nil => exact hsound
  | cons action actions ih => exact ih (act_sound hsound action)

theorem SyncWorld.act_folder_of_ne (w : SyncWorld) {action : SyncAction}
    (h : action.device ≠ device) : (w.act P action).folder device = w.folder device := by
  cases action with
  | uploadSnapshot identity snapshot =>
    rw [SyncWorld.act]
    split
    · exact SyncWorld.folder_update_of_ne (Ne.symm h)
    · rfl
  | uploadPlaytime clientId steamId64 entries => exact SyncWorld.folder_update_of_ne (Ne.symm h)
  | receiveStats d source path => exact SyncWorld.folder_update_of_ne (Ne.symm h)
  | receivePlaytime d source path => exact SyncWorld.folder_update_of_ne (Ne.symm h)

theorem SyncWorld.run_folder_of_ne (w : SyncWorld) (actions : List SyncAction)
    (h : ∀ action ∈ actions, action.device ≠ device) :
    (w.run P actions).folder device = w.folder device := by
  induction actions generalizing w with
  | nil => rfl
  | cons action actions ih =>
    have hrest := ih (w.act P action) fun a ha => h a (List.mem_cons_of_mem _ ha)
    exact hrest.trans (SyncWorld.act_folder_of_ne w (h action List.mem_cons_self))

/-- Uploads are only ever added. -/
theorem SyncWorld.act_snapshots (w : SyncWorld) (action : SyncAction) (device : Nat) :
    (w.folder device).snapshots <+: ((w.act P action).folder device).snapshots := by
  have hupdate : ∀ (d : Nat) (folder : SyncFolder), (w.folder d).snapshots <+: folder.snapshots →
      (w.folder device).snapshots <+: ((w.update d folder).folder device).snapshots := by
    intro d folder h
    by_cases heq : device = d
    · subst heq
      rw [SyncWorld.folder_update_self]
      exact h
    · have hsame : (w.update d folder).folder device = w.folder device :=
        SyncWorld.folder_update_of_ne heq
      exact hsame ▸ List.prefix_rfl
  cases action with
  | uploadSnapshot identity snapshot =>
    rw [SyncWorld.act]
    split
    next folder results h =>
      obtain ⟨_, record, _, rfl⟩ := uploadSteamAppSnapshot_eq_ok h
      exact hupdate _ _ (List.prefix_append _ _)
    next => exact List.prefix_rfl
  | uploadPlaytime clientId steamId64 entries =>
    exact hupdate _ _ (uploadPlaytime_snapshots ▸ List.prefix_rfl)
  | receiveStats d source path => exact hupdate _ _ List.prefix_rfl
  | receivePlaytime d source path => exact hupdate _ _ List.prefix_rfl

theorem SyncWorld.run_snapshots (w : SyncWorld) (actions : List SyncAction) (device : Nat) :
    (w.folder device).snapshots <+: ((w.run P actions).folder device).snapshots := by
  induction actions generalizing w with
  | nil => exact List.prefix_rfl
  | cons action actions ih => exact (act_snapshots w action device).trans (ih _)

/-! ## What a reader holds -/

/-- The files are every owner's own: everything has been exchanged. -/
def SyncWorld.CompleteStats (w : SyncWorld) (files : RecordFiles) : Prop :=
  ∀ path : RecordPath, files[path]? = (w.folder path.clientId).stats[path]?

def SyncWorld.CompletePlaytime (w : SyncWorld) (files : RecordFiles) : Prop :=
  ∀ path : RecordPath, files[path]? = (w.folder path.clientId).playtime[path]?

/-- A record of the account that a file holds; `only` restricts it to one app. -/
def StoredRecord (P : SyncPlatform) (files : RecordFiles) (steamId64 : String)
    (only : Option Nat) (record : SteamAppStateRecord) : Prop :=
  ∃ (path : RecordPath) (bytes : Bytes), files[path]? = some bytes ∧ path.steamId64 = steamId64 ∧
    (∀ appId ∈ only, appId = path.appId) ∧ P.decodeStats bytes = .ok record

end Invariant

end VaporForge.Local
