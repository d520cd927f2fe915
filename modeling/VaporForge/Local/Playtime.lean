import VaporForge.Local.AppState

/-!
# Playtime converges

A playtime entry mixes three maxima with one field that is simply the newest: the minutes
of the last two weeks can go down. `upload_playtime` folds an observation into the device's
file, whatever the order of observation; `reduce_playtime` sorts the files by observation
and folds again.

> For whoever holds every device's file, an app's entry has the most minutes, the latest
> time played and the latest observation of all uploads, and the two weeks of an upload
> observed then; no order of reading changes it (`playtime_converges`).

Both folds summarise (`PlaytimeSummary`). What makes the newest field come out right is
that the side that counts as newer never was observed earlier: by the comparison in the
device's fold, by the sort in the reduction.
-/

namespace VaporForge.Local

open VaporForge.CloudCore
open Lib

/-! ## The reduction -/

/-- `read_playtime_records_with_paths`; `count` files were read before. -/
def readPlaytimeFiles (P : SyncPlatform) (count : Nat) :
    List (Nat × Bytes) → Result (List (Nat × DevicePlaytime))
  | [] => return []
  | (client, bytes) :: rest => do
    if count ≥ maxDeviceRecords then throw (permanent "too many local playtime state files")
    let bytes ← readBoundedJson bytes maxPlaytimeRecordBytes "playtime state"
    let record ← jsonResult (P.decodePlaytime bytes)
    let records ← readPlaytimeFiles P (count + 1) rest
    return (client, record) :: records

/-- An entry with what `reduce_playtime` sorts by. -/
structure PlaytimeObservation where
  order : Int ×ₗ ℕ ×ₗ String
  entry : PlaytimeEntry

def DevicePlaytime.observation (P : SyncPlatform) (record : DevicePlaytime) :
    PlaytimeObservation :=
  ⟨toLex (record.entry.observedAt, toLex (record.clientId, P.digest (P.encodePlaytime record))),
    record.entry⟩

/-- The records of one app, checked. -/
def validObservations (P : SyncPlatform) (steamId64 : String) (appId : Nat) :
    List (Nat × DevicePlaytime) → Result (List PlaytimeObservation)
  | [] => return []
  | (client, record) :: rest => do
    validatePlaytimeRecord record steamId64 appId client
    let observations ← validObservations P steamId64 appId rest
    return record.observation P :: observations

/-- The loop of `reduce_playtime` that reads. -/
def readObservations (P : SyncPlatform) (steamId64 : String) :
    AccountListing → Result (List PlaytimeObservation)
  | [] => return []
  | (appId, files) :: rest => do
    let records ← readPlaytimeFiles P 0 files
    let observations ← validObservations P steamId64 appId records
    let others ← readObservations P steamId64 rest
    return observations ++ others

/-- What the second loop does to an entry that is there already. -/
def mergePlaytime (current incoming : PlaytimeEntry) : PlaytimeEntry :=
  { current with
    playtimeMinutes := max current.playtimeMinutes incoming.playtimeMinutes
    lastPlayedAt := maxOption current.lastPlayedAt incoming.lastPlayedAt
    playtime2weeksMinutes := incoming.playtime2weeksMinutes
    observedAt := incoming.observedAt }

/-- The second loop of `reduce_playtime`, over the sorted observations. -/
def playtimeStates (scope steamId64 : String) (observations : List PlaytimeObservation) :
    Std.ExtTreeMap Nat PlaytimeEntry compare :=
  (observations.mergeSort fun a b => a.order ≤ b.order).foldl (fun states o =>
    upsert mergePlaytime states o.entry.appId
      { o.entry with ownerScope := scope, ownerSteamId64 := steamId64 }) ∅

/-- `reduce_playtime`; `scope` is the backend's. -/
def reducePlaytime (P : SyncPlatform) (scope steamId64 : String) (listing : AccountListing) :
    Result (List PlaytimeEntry) := do
  let roots ← accountAppRoots steamId64 listing
  let observations ← readObservations P steamId64 roots
  return (playtimeStates scope steamId64 observations).toList.map Prod.snd

/-! ## Summaries of playtime -/

/-- The most minutes, the latest times, and the two weeks of a newest one. -/
structure PlaytimeSummary (uploads : Set PlaytimeEntry) (e : PlaytimeEntry) : Prop where
  minutes : IsGreatest (Set.image PlaytimeEntry.playtimeMinutes uploads) e.playtimeMinutes
  lastPlayed : GreatestOf {t | ∃ u ∈ uploads, u.lastPlayedAt = some t} e.lastPlayedAt
  observed : IsGreatest (Set.image PlaytimeEntry.observedAt uploads) e.observedAt
  recent : ∃ u ∈ uploads, u.observedAt = e.observedAt ∧
    u.playtime2weeksMinutes = e.playtime2weeksMinutes

namespace PlaytimeSummary

variable {U V : Set PlaytimeEntry} {a b c e : PlaytimeEntry}

theorem singleton (e : PlaytimeEntry) : PlaytimeSummary {e} e := by
  refine ⟨by simp, ?_, by simp, ⟨e, rfl, rfl, rfl⟩⟩
  cases hlast : e.lastPlayedAt with
  | none =>
    refine Set.eq_empty_of_forall_notMem ?_
    rintro t ⟨u, rfl, hu⟩
    rw [hlast] at hu
    cases hu
  | some t =>
    refine ⟨⟨e, rfl, hlast⟩, ?_⟩
    rintro t' ⟨u, rfl, hu⟩
    rw [hlast] at hu
    exact le_of_eq (Option.some.inj hu).symm

/-- Joining two summaries; `newest` is the one whose two weeks are taken. -/
theorem union (ha : PlaytimeSummary U a) (hb : PlaytimeSummary V b)
    (hminutes : c.playtimeMinutes = max a.playtimeMinutes b.playtimeMinutes)
    (hlast : c.lastPlayedAt = maxOption a.lastPlayedAt b.lastPlayedAt)
    (hnewest : (a.observedAt ≤ b.observedAt ∧ c.observedAt = b.observedAt ∧
        c.playtime2weeksMinutes = b.playtime2weeksMinutes) ∨
      (b.observedAt ≤ a.observedAt ∧ c.observedAt = a.observedAt ∧
        c.playtime2weeksMinutes = a.playtime2weeksMinutes)) : PlaytimeSummary (U ∪ V) c := by
  have hobserved : c.observedAt = max a.observedAt b.observedAt := by
    rcases hnewest with ⟨hle, heq, _⟩ | ⟨hle, heq, _⟩
    · rw [heq, max_eq_right hle]
    · rw [heq, max_eq_left hle]
  refine ⟨?_, ?_, ?_, ?_⟩
  · rw [Set.image_union, hminutes]
    exact ha.minutes.union hb.minutes
  · have htimes : {t | ∃ u ∈ U ∪ V, u.lastPlayedAt = some t} =
        {t | ∃ u ∈ U, u.lastPlayedAt = some t} ∪ {t | ∃ u ∈ V, u.lastPlayedAt = some t} := by
      ext t
      simp only [Set.mem_union, Set.mem_ofPred_eq, or_and_right, exists_or]
    rw [htimes, hlast]
    exact ha.lastPlayed.union hb.lastPlayed
  · rw [Set.image_union, hobserved]
    exact ha.observed.union hb.observed
  · rcases hnewest with ⟨_, heq, hweeks⟩ | ⟨_, heq, hweeks⟩
    · obtain ⟨u, hu, ho, hw⟩ := hb.recent
      exact ⟨u, .inr hu, ho.trans heq.symm, hw.trans hweeks.symm⟩
    · obtain ⟨u, hu, ho, hw⟩ := ha.recent
      exact ⟨u, .inl hu, ho.trans heq.symm, hw.trans hweeks.symm⟩

/-- A fold over entries in order of observation summarises them. -/
theorem foldl (v : PlaytimeEntry) (vs : List PlaytimeEntry)
    (hsorted : (v :: vs).Pairwise fun x y => x.observedAt ≤ y.observedAt) :
    PlaytimeSummary {x | x ∈ v :: vs} (vs.foldl mergePlaytime v) := by
  have hcons : ∀ (w : PlaytimeEntry) (vs : List PlaytimeEntry),
      {w} ∪ {x | x ∈ vs} = {x | x ∈ w :: vs} := by
    intro w vs
    ext x
    simp
  have hgo : ∀ (vs : List PlaytimeEntry) (U : Set PlaytimeEntry) (v : PlaytimeEntry),
      PlaytimeSummary U v → (v :: vs).Pairwise (fun x y => x.observedAt ≤ y.observedAt) →
      PlaytimeSummary (U ∪ {x | x ∈ vs}) (vs.foldl mergePlaytime v) := by
    intro vs
    induction vs with
    | nil =>
      intro U v h _
      simpa using h
    | cons w vs ih =>
      intro U v h hsorted
      rw [List.pairwise_cons] at hsorted
      have hle := hsorted.1 w List.mem_cons_self
      have hstep : PlaytimeSummary (U ∪ {w}) (mergePlaytime v w) :=
        h.union (singleton w) rfl rfl (.inl ⟨hle, rfl, rfl⟩)
      -- the merged entry was observed when `w` was
      have hnext := ih _ _ hstep (List.pairwise_cons.mpr (List.pairwise_cons.mp hsorted.2))
      rw [Set.union_assoc, hcons] at hnext
      exact hnext
  have hall := hgo vs {v} v (singleton v) hsorted
  rw [hcons] at hall
  exact hall

/-- A summary of summaries summarises what they summarise. -/
theorem flatten {S T : Set PlaytimeEntry} (h : PlaytimeSummary S e)
    (hdown : ∀ s ∈ S, ∃ R ⊆ T, PlaytimeSummary R s)
    (hup : ∀ t ∈ T, ∃ s ∈ S, ∃ R ⊆ T, t ∈ R ∧ PlaytimeSummary R s) : PlaytimeSummary T e := by
  refine ⟨⟨?_, ?_⟩, GreatestOf.intro (fun m hm => ?_) fun t ht => ?_, ⟨?_, ?_⟩, ?_⟩
  · obtain ⟨s, hs, heq⟩ := h.minutes.1
    obtain ⟨R, hR, hsum⟩ := hdown s hs
    obtain ⟨u, hu, hueq⟩ := hsum.minutes.1
    exact ⟨u, hR hu, hueq.trans heq⟩
  · rintro _ ⟨t, ht, rfl⟩
    obtain ⟨s, hs, R, _, htR, hsum⟩ := hup t ht
    exact (hsum.minutes.2 ⟨t, htR, rfl⟩).trans (h.minutes.2 ⟨s, hs, rfl⟩)
  · have hgreatest := h.lastPlayed
    rw [hm] at hgreatest
    obtain ⟨s, hs, hst⟩ := hgreatest.mem
    obtain ⟨R, hR, hsum⟩ := hdown s hs
    have hinner := hsum.lastPlayed
    rw [hst] at hinner
    obtain ⟨u, hu, hut⟩ := hinner.mem
    exact ⟨u, hR hu, hut⟩
  · obtain ⟨u, hu, hut⟩ := ht
    obtain ⟨s, hs, R, _, huR, hsum⟩ := hup u hu
    obtain ⟨m', hm', hle'⟩ := hsum.lastPlayed.exists_ge ⟨u, huR, hut⟩
    obtain ⟨m, hm, hle⟩ := h.lastPlayed.exists_ge ⟨s, hs, hm'⟩
    exact ⟨m, hm, hle'.trans hle⟩
  · obtain ⟨s, hs, heq⟩ := h.observed.1
    obtain ⟨R, hR, hsum⟩ := hdown s hs
    obtain ⟨u, hu, hueq⟩ := hsum.observed.1
    exact ⟨u, hR hu, hueq.trans heq⟩
  · rintro _ ⟨t, ht, rfl⟩
    obtain ⟨s, hs, R, _, htR, hsum⟩ := hup t ht
    exact (hsum.observed.2 ⟨t, htR, rfl⟩).trans (h.observed.2 ⟨s, hs, rfl⟩)
  · obtain ⟨s, hs, ho, hweeks⟩ := h.recent
    obtain ⟨R, hR, hsum⟩ := hdown s hs
    obtain ⟨u, hu, ho', hweeks'⟩ := hsum.recent
    exact ⟨u, hR hu, ho'.trans ho, hweeks'.trans hweeks⟩

/-- The owner fields are not summarised. -/
theorem of_owner {scope steamId64 : String} :
    PlaytimeSummary U { e with ownerScope := scope, ownerSteamId64 := steamId64 } ↔
      PlaytimeSummary U e :=
  ⟨fun h => ⟨h.minutes, h.lastPlayed, h.observed, h.recent⟩,
    fun h => ⟨h.minutes, h.lastPlayed, h.observed, h.recent⟩⟩

end PlaytimeSummary

/-! ## A device's file -/

section DeviceFile

variable {P : SyncPlatform} {path : RecordPath}

variable {existing incoming : DevicePlaytime}

/-- The newer side of a device's fold was not observed earlier. -/
theorem PlaytimeSummary.foldStored {U : Set PlaytimeEntry} (h : PlaytimeSummary U existing.entry) :
    PlaytimeSummary (U ∪ {incoming.entry}) (foldStoredPlaytime P existing incoming).entry := by
  refine h.union (singleton incoming.entry) rfl rfl ?_
  by_cases hle : existing.stored.order P ≤ incoming.order P
  · refine .inl ⟨?_, ?_, ?_⟩
    · rcases Prod.Lex.toLex_le_toLex.mp hle with hlt | ⟨heq, _⟩
      · exact hlt.le
      · exact le_of_eq heq
    · simp only [foldStoredPlaytime, foldPlaytimeRecords, if_pos hle]
    · simp only [foldStoredPlaytime, foldPlaytimeRecords, if_pos hle]
  · refine .inr ⟨?_, ?_, ?_⟩
    · rcases Prod.Lex.toLex_lt_toLex.mp (not_le.mp hle) with hlt | ⟨heq, _⟩
      · exact hlt.le
      · exact le_of_eq heq
    · simp only [foldStoredPlaytime, foldPlaytimeRecords, if_neg hle]
      rfl
    · simp only [foldStoredPlaytime, foldPlaytimeRecords, if_neg hle]
      rfl

theorem path_foldStored (hexisting : existing.path = path) (hincoming : incoming.path = path) :
    (foldStoredPlaytime P existing incoming).path = path := by
  by_cases hle : existing.stored.order P ≤ incoming.order P
  · rw [← hincoming]
    simp only [foldStoredPlaytime, foldPlaytimeRecords, if_pos hle]
    rfl
  · rw [← hexisting]
    simp only [foldStoredPlaytime, foldPlaytimeRecords, if_neg hle]
    rfl

/-- A device's file summarises its uploads of the app. -/
theorem playtimeFile_foldl (v : DevicePlaytime) (vs : List DevicePlaytime)
    (hpath : ∀ x ∈ v :: vs, x.path = path) :
    PlaytimeSummary {e | ∃ x ∈ v :: vs, x.entry = e} (vs.foldl (foldStoredPlaytime P) v).entry ∧
      (vs.foldl (foldStoredPlaytime P) v).path = path := by
  induction vs using List.reverseRecOn with
  | nil =>
    have hset : {e | ∃ x ∈ [v], x.entry = e} = {v.entry} := by
      ext e
      simp [eq_comm]
    rw [hset]
    exact ⟨PlaytimeSummary.singleton v.entry, hpath v List.mem_cons_self⟩
  | append_singleton vs incoming ih =>
    have hfront : ∀ x ∈ v :: vs, x ∈ v :: (vs ++ [incoming]) := by
      intro x hx
      exact List.mem_append_left [incoming] hx
    obtain ⟨hsum, hfile⟩ := ih fun x hx => hpath x (hfront x hx)
    have hset : {e | ∃ x ∈ v :: (vs ++ [incoming]), x.entry = e} =
        {e | ∃ x ∈ v :: vs, x.entry = e} ∪ {incoming.entry} := by
      ext e
      constructor
      · rintro ⟨x, hx, rfl⟩
        rcases List.mem_append.mp (show x ∈ (v :: vs) ++ [incoming] from hx) with hx | hx
        · exact .inl ⟨x, hx, rfl⟩
        · exact .inr (congrArg _ (List.mem_singleton.mp hx))
      · rintro (⟨x, hx, rfl⟩ | rfl)
        · exact ⟨x, hfront x hx, rfl⟩
        · exact ⟨incoming, by simp, rfl⟩
    rw [List.foldl_concat, hset]
    exact ⟨hsum.foldStored, path_foldStored hfile (hpath incoming (by simp))⟩

end DeviceFile

/-! ## What a reader holds -/

section Reader

variable {P : SyncPlatform} {w : SyncWorld} {files : RecordFiles} {steamId64 : String}

/-- A file that reads back as a valid record of its path. -/
structure PlaytimeFile (P : SyncPlatform) (path : RecordPath) (bytes : Bytes)
    (record : DevicePlaytime) : Prop where
  small : bytes.length ≤ maxPlaytimeRecordBytes
  decodes : P.decodePlaytime bytes = .ok record
  path_eq : record.path = path
  valid : validatePlaytimeRecord record path.steamId64 path.appId path.clientId = .ok ()

variable {path : RecordPath}

/-- A reader who holds everything holds for every path a summary of its uploads. -/
theorem exists_playtimeFile (hsound : w.Sound P) (hcomplete : w.CompletePlaytime files)
    {bytes : Bytes} (h : files[path]? = some bytes) :
    ∃ record, PlaytimeFile P path bytes record ∧
      PlaytimeSummary {e | ∃ x ∈ (w.folder path.clientId).observationsAt path, x.entry = e}
        record.entry := by
  have howned := hsound path.clientId
  rw [hcomplete path] at h
  have hsmall := howned.playtimeSize path bytes rfl h
  rw [howned.playtime path rfl] at h
  cases hobserved : (w.folder path.clientId).observationsAt path with
  | nil =>
    rw [hobserved] at h
    cases h
  | cons v vs =>
    rw [hobserved, combine_none_cons, Option.map_some] at h
    cases h
    have hmem : ∀ x ∈ v :: vs, x.path = path ∧ ValidObservation x := by
      intro x hx
      rw [← hobserved] at hx
      obtain ⟨hx, hpath⟩ := List.mem_filter.mp hx
      exact ⟨by simpa using hpath, (howned.observation x hx).2.1⟩
    obtain ⟨hsummary, hpath⟩ := playtimeFile_foldl (P := P) v vs fun x hx => (hmem x hx).1
    set record := vs.foldl (foldStoredPlaytime P) v with hrecord
    refine ⟨record.stored, ⟨hsmall, P.decode_encodePlaytime record, hpath, ?_⟩,
      PlaytimeSummary.of_owner.mpr hsummary⟩
    have hobservedAt : 0 < record.entry.observedAt := by
      obtain ⟨_, ⟨x, hx, rfl⟩, heq⟩ := hsummary.observed.1
      rw [← heq]
      exact (hmem x hx).2.2.2.1
    have hplayed : ¬ record.entry.lastPlayedAt.any (· < 0) := by
      cases hlast : record.entry.lastPlayedAt with
      | none => simp
      | some t =>
        have hgreatest := hsummary.lastPlayed
        rw [hlast] at hgreatest
        obtain ⟨_, ⟨x, hx, rfl⟩, ht⟩ := hgreatest.mem
        have hx := (hmem x hx).2.2.2.2
        rw [ht] at hx
        exact hx
    have hclient : path.clientId ≠ 0 := by
      rw [← (hmem v List.mem_cons_self).1]
      exact (hmem v List.mem_cons_self).2.1
    have hsteam : record.steamId64 = path.steamId64 := congrArg RecordPath.steamId64 hpath
    have happ : record.entry.appId = path.appId := congrArg RecordPath.appId hpath
    have hrecordClient : record.clientId = path.clientId := congrArg RecordPath.clientId hpath
    rw [validatePlaytimeRecord, if_neg]
    · rfl
    · simp only [DevicePlaytime.stored, hsteam, hrecordClient, happ, hclient, hplayed,
        recordClientId, not_le.mpr hobservedAt, ne_eq, not_true_eq_false, not_false_eq_true,
        if_true, Option.any_some, decide_false, Bool.false_eq_true, or_false, false_and]

/-- Every observation is in some file a reader holds. -/
theorem exists_file_of_observed (hsound : w.Sound P) (hcomplete : w.CompletePlaytime files)
    {x : DevicePlaytime} (h : x ∈ (w.folder path.clientId).observationsAt path) :
    ∃ bytes, files[path]? = some bytes := by
  obtain ⟨v, vs, hobserved⟩ := List.exists_cons_of_ne_nil (List.ne_nil_of_mem h)
  rw [hcomplete path, (hsound path.clientId).playtime path rfl, hobserved, combine_none_cons]
  exact ⟨_, rfl⟩

end Reader

/-! ## Reading -/

section Reading

variable {P : SyncPlatform} {steamId64 : String} {appId count : Nat} {dir : List (Nat × Bytes)}

/-- Every file of an app directory reads back. -/
def ReadableDir (P : SyncPlatform) (steamId64 : String) (dir : Nat × List (Nat × Bytes)) : Prop :=
  ∀ file ∈ dir.2, ∃ record, PlaytimeFile P ⟨steamId64, dir.1, file.1⟩ file.2 record

variable {records : List (Nat × DevicePlaytime)}

theorem mem_readPlaytimeFiles (h : readPlaytimeFiles P count dir = .ok records)
    (e : Nat × DevicePlaytime) :
    e ∈ records ↔ ∃ bytes, (e.1, bytes) ∈ dir ∧ P.decodePlaytime bytes = .ok e.2 := by
  induction dir generalizing count records with
  | nil =>
    simp only [readPlaytimeFiles, pure_eq_ok] at h
    simp [← h]
  | cons file dir ih =>
    obtain ⟨client, bytes⟩ := file
    simp only [readPlaytimeFiles, readBoundedJson, bind_eq_ok, throw_bind, ite_throw_eq_ok,
      pure_eq_ok, jsonResult_eq_ok] at h
    obtain ⟨_, _, ⟨_, rfl⟩, record, hrecord, rest, hrest, rfl⟩ := h
    rw [List.mem_cons, ih hrest]
    constructor
    · rintro (rfl | ⟨bytes', hmem, hdecode⟩)
      · exact ⟨bytes, List.mem_cons_self, hrecord⟩
      · exact ⟨bytes', List.mem_cons_of_mem _ hmem, hdecode⟩
    · rintro ⟨bytes', hmem, hdecode⟩
      rcases List.mem_cons.mp hmem with heq | hmem
      · obtain ⟨hclient, hbytes⟩ := Prod.mk.inj heq
        rw [hbytes, hrecord] at hdecode
        exact .inl (Prod.ext hclient (Except.ok.inj hdecode).symm)
      · exact .inr ⟨bytes', hmem, hdecode⟩

/-- Reading keeps the clients, and stops only at the limit. -/
theorem readPlaytimeFiles_clients (h : readPlaytimeFiles P count dir = .ok records) :
    records.map Prod.fst = dir.map Prod.fst ∧
      (dir = [] ∨ count + dir.length ≤ maxDeviceRecords) := by
  induction dir generalizing count records with
  | nil =>
    simp only [readPlaytimeFiles, pure_eq_ok] at h
    simp [← h]
  | cons file dir ih =>
    obtain ⟨client, bytes⟩ := file
    simp only [readPlaytimeFiles, bind_eq_ok, throw_bind, ite_throw_eq_ok, pure_eq_ok] at h
    obtain ⟨hcount, _, _, record, _, rest, hrest, rfl⟩ := h
    obtain ⟨hclients, hlimit⟩ := ih hrest
    refine ⟨by rw [List.map_cons, List.map_cons, hclients], .inr ?_⟩
    rw [List.length_cons]
    rcases hlimit with rfl | hlimit
    · rw [List.length_nil]
      omega
    · omega

theorem exists_readPlaytimeFiles (hdir : ReadableDir P steamId64 (appId, dir))
    (hlimit : count + dir.length ≤ maxDeviceRecords) :
    ∃ records, readPlaytimeFiles P count dir = .ok records := by
  induction dir generalizing count with
  | nil => exact ⟨[], rfl⟩
  | cons file dir ih =>
    obtain ⟨client, bytes⟩ := file
    rw [List.length_cons] at hlimit
    obtain ⟨record, hfile⟩ := hdir (client, bytes) List.mem_cons_self
    obtain ⟨records, hrecords⟩ : ∃ records, readPlaytimeFiles P (count + 1) dir = .ok records :=
      ih (fun file hmem => hdir file (List.mem_cons_of_mem _ hmem)) (by omega)
    refine ⟨(client, record) :: records, ?_⟩
    simp only [readPlaytimeFiles, readBoundedJson, bind_eq_ok, throw_bind, ite_throw_eq_ok,
      pure_eq_ok, jsonResult_eq_ok]
    exact ⟨by omega, bytes, ⟨not_lt.mpr hfile.small, rfl⟩, record, hfile.decodes, records,
      hrecords, rfl⟩

theorem mem_validObservations {observations : List PlaytimeObservation}
    (h : validObservations P steamId64 appId records = .ok observations) (o : PlaytimeObservation) :
    o ∈ observations ↔ ∃ e ∈ records, e.2.observation P = o := by
  induction records generalizing observations with
  | nil =>
    simp only [validObservations, pure_eq_ok] at h
    simp [← h]
  | cons e records ih =>
    obtain ⟨client, record⟩ := e
    simp only [validObservations, bind_eq_ok, pure_eq_ok] at h
    obtain ⟨_, _, rest, hrest, rfl⟩ := h
    rw [List.mem_cons, ih hrest, List.exists_mem_cons_iff, eq_comm]

theorem exists_validObservations
    (hvalid : ∀ e ∈ records, validatePlaytimeRecord e.2 steamId64 appId e.1 = .ok ()) :
    ∃ observations, validObservations P steamId64 appId records = .ok observations := by
  induction records with
  | nil => exact ⟨[], rfl⟩
  | cons e records ih =>
    obtain ⟨rest, hrest⟩ := ih fun e he => hvalid e (List.mem_cons_of_mem _ he)
    refine ⟨e.2.observation P :: rest, ?_⟩
    simp only [validObservations, bind_eq_ok, pure_eq_ok]
    exact ⟨(), hvalid e List.mem_cons_self, rest, hrest, rfl⟩

/-- Observations of one app are told apart by the device. -/
def Distinct (observations : List PlaytimeObservation) : Prop :=
  observations.Pairwise fun a b => a.entry.appId = b.entry.appId → a.order ≠ b.order

theorem validObservations_distinct {observations : List PlaytimeObservation}
    (hclients : (records.map Prod.fst).Nodup) (hclient : ∀ e ∈ records, e.2.clientId = e.1)
    (h : validObservations P steamId64 appId records = .ok observations) :
    Distinct observations := by
  induction records generalizing observations with
  | nil =>
    simp only [validObservations, pure_eq_ok] at h
    rw [← h]
    exact List.Pairwise.nil
  | cons e records ih =>
    rw [List.map_cons, List.nodup_cons] at hclients
    simp only [validObservations, bind_eq_ok, pure_eq_ok] at h
    obtain ⟨_, _, rest, hrest, rfl⟩ := h
    refine List.pairwise_cons.mpr ⟨fun o ho _ heq => hclients.1 ?_,
      ih hclients.2 (fun e he => hclient e (List.mem_cons_of_mem _ he)) hrest⟩
    obtain ⟨e', he', rfl⟩ := (mem_validObservations hrest o).mp ho
    have hsame : e.2.clientId = e'.2.clientId :=
      congrArg (fun order => (ofLex (ofLex order).2).1) heq
    rw [hclient e List.mem_cons_self, hclient e' (List.mem_cons_of_mem _ he')] at hsame
    exact hsame ▸ List.mem_map_of_mem he'

variable {listing : AccountListing} {observations : List PlaytimeObservation}

theorem mem_readObservations (h : readObservations P steamId64 listing = .ok observations)
    (o : PlaytimeObservation) :
    o ∈ observations ↔ ∃ dir ∈ listing, ∃ file ∈ dir.2, ∃ record,
      P.decodePlaytime file.2 = .ok record ∧ record.observation P = o := by
  induction listing generalizing observations with
  | nil =>
    simp only [readObservations, pure_eq_ok] at h
    simp [← h]
  | cons dir listing ih =>
    obtain ⟨appId, files⟩ := dir
    simp only [readObservations, bind_eq_ok, pure_eq_ok] at h
    obtain ⟨records, hrecords, here, hhere, others, hothers, rfl⟩ := h
    rw [List.mem_append, mem_validObservations hhere, ih hothers, List.exists_mem_cons_iff]
    refine or_congr ?_ Iff.rfl
    constructor
    · rintro ⟨e, he, rfl⟩
      obtain ⟨bytes, hmem, hdecode⟩ := (mem_readPlaytimeFiles hrecords e).mp he
      exact ⟨(e.1, bytes), hmem, e.2, hdecode, rfl⟩
    · rintro ⟨file, hmem, record, hdecode, rfl⟩
      exact ⟨(file.1, record), (mem_readPlaytimeFiles hrecords _).mpr ⟨file.2, hmem, hdecode⟩, rfl⟩

/-- Records that were read belong to the directory and the file they were read from. -/
theorem appId_readPlaytimeFiles (hdir : ReadableDir P steamId64 (appId, dir))
    (h : readPlaytimeFiles P count dir = .ok records) :
    ∀ e ∈ records, e.2.path = ⟨steamId64, appId, e.1⟩ ∧
      validatePlaytimeRecord e.2 steamId64 appId e.1 = .ok () := by
  intro e he
  obtain ⟨bytes, hmem, hdecode⟩ := (mem_readPlaytimeFiles h e).mp he
  obtain ⟨record, hfile⟩ := hdir (e.1, bytes) hmem
  rw [hfile.decodes] at hdecode
  cases hdecode
  exact ⟨hfile.path_eq, hfile.valid⟩

theorem readObservations_distinct (hreadable : ∀ dir ∈ listing, ReadableDir P steamId64 dir)
    (happs : (listing.map Prod.fst).Nodup)
    (hclients : ∀ dir ∈ listing, (dir.2.map Prod.fst).Nodup)
    (h : readObservations P steamId64 listing = .ok observations) : Distinct observations := by
  induction listing generalizing observations with
  | nil =>
    simp only [readObservations, pure_eq_ok] at h
    rw [← h]
    exact List.Pairwise.nil
  | cons dir listing ih =>
    obtain ⟨appId, files⟩ := dir
    rw [List.map_cons, List.nodup_cons] at happs
    simp only [readObservations, bind_eq_ok, pure_eq_ok] at h
    obtain ⟨records, hrecords, here, hhere, others, hothers, rfl⟩ := h
    have hread := appId_readPlaytimeFiles (hreadable _ List.mem_cons_self) hrecords
    refine List.pairwise_append.mpr ⟨?_, ?_, ?_⟩
    · refine validObservations_distinct ?_ (fun e he => ?_) hhere
      · rw [(readPlaytimeFiles_clients hrecords).1]
        exact hclients _ List.mem_cons_self
      · exact congrArg RecordPath.clientId (hread e he).1
    · exact ih (fun dir hdir => hreadable dir (List.mem_cons_of_mem _ hdir)) happs.2
        (fun dir hdir => hclients dir (List.mem_cons_of_mem _ hdir)) hothers
    · -- two directories are of two apps
      intro a ha b hb hsame
      refine absurd ?_ happs.1
      obtain ⟨e, he, rfl⟩ := (mem_validObservations hhere a).mp ha
      obtain ⟨dir, hdir, file, hfile, record, hdecode, rfl⟩ :=
        (mem_readObservations hothers b).mp hb
      obtain ⟨record', hfile'⟩ := hreadable dir (List.mem_cons_of_mem _ hdir) file hfile
      rw [hfile'.decodes] at hdecode
      cases hdecode
      have happ : e.2.entry.appId = appId := congrArg RecordPath.appId (hread e he).1
      have happ' : record.entry.appId = dir.1 := congrArg RecordPath.appId hfile'.path_eq
      rw [← happ, show e.2.entry.appId = record.entry.appId from hsame, happ']
      exact List.mem_map.mpr ⟨dir, hdir, rfl⟩

/-- Reading succeeds exactly within the limits. -/
theorem exists_readObservations_iff (hreadable : ∀ dir ∈ listing, ReadableDir P steamId64 dir) :
    (∃ observations, readObservations P steamId64 listing = .ok observations) ↔
      ∀ dir ∈ listing, dir.2.length ≤ maxDeviceRecords := by
  induction listing with
  | nil => exact ⟨fun _ => nofun, fun _ => ⟨[], rfl⟩⟩
  | cons dir listing ih =>
    have hrest := ih fun dir hdir => hreadable dir (List.mem_cons_of_mem _ hdir)
    have hhere := hreadable dir List.mem_cons_self
    rw [List.forall_mem_cons, ← hrest]
    obtain ⟨appId, files⟩ := dir
    constructor
    · rintro ⟨observations, h⟩
      simp only [readObservations, bind_eq_ok, pure_eq_ok] at h
      obtain ⟨records, hrecords, _, _, others, hothers, _⟩ := h
      refine ⟨?_, others, hothers⟩
      rcases (readPlaytimeFiles_clients hrecords).2 with hnil | hlimit
      · rw [hnil]
        exact Nat.zero_le _
      · simpa using hlimit
    · rintro ⟨hlimit, others, hothers⟩
      obtain ⟨records, hrecords⟩ := exists_readPlaytimeFiles hhere
        (show 0 + files.length ≤ maxDeviceRecords by simpa using hlimit)
      obtain ⟨here, hhere'⟩ : ∃ here, validObservations P steamId64 appId records = .ok here :=
        exists_validObservations fun e he => (appId_readPlaytimeFiles hhere hrecords e he).2
      refine ⟨here ++ others, ?_⟩
      simp only [readObservations, bind_eq_ok, pure_eq_ok]
      exact ⟨records, hrecords, here, hhere', others, hothers, rfl⟩

end Reading

/-! ## The reduced entries -/

section States

variable {scope steamId64 : String} {observations : List PlaytimeObservation} {appId : Nat}

/-- The observations of one app, sorted. -/
def sortedOf (appId : Nat) (observations : List PlaytimeObservation) : List PlaytimeObservation :=
  (observations.mergeSort fun a b => a.order ≤ b.order).filter fun o => o.entry.appId = appId

theorem mem_sortedOf {o : PlaytimeObservation} :
    o ∈ sortedOf appId observations ↔ o ∈ observations ∧ o.entry.appId = appId := by
  simp [sortedOf]

theorem sortedOf_pairwise : (sortedOf appId observations).Pairwise fun a b => a.order ≤ b.order := by
  have hsorted : (observations.mergeSort fun a b => a.order ≤ b.order).Pairwise
      fun a b => decide (a.order ≤ b.order) = true := by
    refine List.pairwise_mergeSort (fun a b c hab hbc => ?_) (fun a b => ?_) observations
    · simp only [decide_eq_true_eq] at hab hbc ⊢
      exact hab.trans hbc
    · simp only [Bool.or_eq_true, decide_eq_true_eq]
      exact le_total _ _
  exact (hsorted.sublist List.filter_sublist).imp fun h => by simpa using h

/-- With distinct orders there is only one way to sort. -/
theorem sortedOf_ascending (h : Distinct observations) :
    (sortedOf appId observations).Pairwise fun a b => a.order < b.order := by
  have hdistinct : (observations.mergeSort fun a b => a.order ≤ b.order).Pairwise
      fun a b => a.entry.appId = b.entry.appId → a.order ≠ b.order := by
    refine (List.Perm.pairwise_iff (fun {a b} hab heq => ?_)
      (List.mergeSort_perm observations _)).mpr h
    exact fun hsame => hab heq.symm hsame.symm
  have happ := hdistinct.sublist (List.filter_sublist (p := fun o => o.entry.appId = appId))
  refine (sortedOf_pairwise.and happ).imp_of_mem fun {a b} ha hb hab => ?_
  have hsame : a.entry.appId = b.entry.appId :=
    (mem_sortedOf.mp ha).2.trans (mem_sortedOf.mp hb).2.symm
  exact lt_of_le_of_ne hab.1 (hab.2 hsame)

theorem getElem?_playtimeStates {e : PlaytimeEntry} :
    (playtimeStates scope steamId64 observations)[appId]? = some e ↔
      ∃ v vs, (sortedOf appId observations).map (fun o =>
          { o.entry with ownerScope := scope, ownerSteamId64 := steamId64 }) = v :: vs ∧
        vs.foldl mergePlaytime v = e := by
  have hall : playtimeStates scope steamId64 observations = upsertAll mergePlaytime ∅
      ((observations.mergeSort fun a b => a.order ≤ b.order).map fun o =>
        (o.entry.appId, { o.entry with ownerScope := scope, ownerSteamId64 := steamId64 })) := by
    rw [upsertAll, List.foldl_map]
    rfl
  have hvalues : valuesAt appId ((observations.mergeSort fun a b => a.order ≤ b.order).map fun o =>
        (o.entry.appId,
          { o.entry with ownerScope := scope, ownerSteamId64 := steamId64 })) =
      (sortedOf appId observations).map fun o =>
        { o.entry with ownerScope := scope, ownerSteamId64 := steamId64 } := by
    simp only [valuesAt, sortedOf, List.filter_map, List.map_map, Function.comp_def]
  rw [hall, getElem?_upsertAll_eq_some_iff, hvalues]

/-- The order of reading does not matter. -/
theorem playtimeStates_congr {observations' : List PlaytimeObservation}
    (h : Distinct observations) (h' : Distinct observations')
    (hmem : ∀ o, o ∈ observations ↔ o ∈ observations') :
    playtimeStates scope steamId64 observations = playtimeStates scope steamId64 observations' := by
  refine map_eq_of_getElem? fun appId e => ?_
  have hsame : sortedOf appId observations = sortedOf appId observations' :=
    eq_of_ascending_rank PlaytimeObservation.order (sortedOf_ascending h) (sortedOf_ascending h')
      fun o => by rw [mem_sortedOf, mem_sortedOf, hmem]
  rw [getElem?_playtimeStates, getElem?_playtimeStates, hsame]

theorem foldl_mergePlaytime_appId (v : PlaytimeEntry) (vs : List PlaytimeEntry) :
    (vs.foldl mergePlaytime v).appId = v.appId := by
  induction vs generalizing v with
  | nil => rfl
  | cons w vs ih => exact ih (mergePlaytime v w)

end States

section Converge

variable {P : SyncPlatform} {w : SyncWorld} {files : RecordFiles} {scope steamId64 : String}
  {listing : AccountListing} {observations : List PlaytimeObservation} {appId : Nat}

/-- The playtime entries some device uploaded for the app. -/
def uploadedPlaytime (w : SyncWorld) (steamId64 : String) (appId : Nat) : Set PlaytimeEntry :=
  {e | ∃ device, ∃ x ∈ (w.folder device).observations, x.steamId64 = steamId64 ∧
    x.entry.appId = appId ∧ x.entry = e}

theorem readableDir_of_listed (hsound : w.Sound P) (hcomplete : w.CompletePlaytime files)
    (hlisted : Listed files steamId64 listing) :
    ∀ dir ∈ listing, ReadableDir P steamId64 dir := by
  intro dir hdir file hfile
  obtain ⟨record, hrecord, _⟩ :=
    exists_playtimeFile hsound hcomplete ((hlisted.mem dir hdir file.1 file.2).mp hfile)
  exact ⟨record, hrecord⟩

/-- What was read are the records at the account's paths. -/
theorem mem_observations_iff (hlisted : Listed files steamId64 listing)
    (hread : readObservations P steamId64 listing = .ok observations) (o : PlaytimeObservation) :
    o ∈ observations ↔ ∃ (path : RecordPath) (bytes : Bytes) (record : DevicePlaytime),
      path.steamId64 = steamId64 ∧ files[path]? = some bytes ∧
      P.decodePlaytime bytes = .ok record ∧ record.observation P = o := by
  rw [mem_readObservations hread]
  constructor
  · rintro ⟨dir, hdir, file, hfile, record, hdecode, rfl⟩
    exact ⟨⟨steamId64, dir.1, file.1⟩, file.2, record, rfl,
      (hlisted.mem dir hdir file.1 file.2).mp hfile, hdecode, rfl⟩
  · rintro ⟨path, bytes, record, rfl, hfile, hdecode, rfl⟩
    obtain ⟨dir, hdir, happ⟩ := List.mem_map.mp (hlisted.complete path bytes hfile rfl)
    refine ⟨dir, hdir, (path.clientId, bytes), (hlisted.mem dir hdir _ _).mpr ?_, record, hdecode,
      rfl⟩
    rw [happ]
    exact hfile

/-- What was uploaded is part of a record that was read. -/
theorem observed_of_uploaded (hsound : w.Sound P) (hcomplete : w.CompletePlaytime files)
    (hlisted : Listed files steamId64 listing)
    (hread : readObservations P steamId64 listing = .ok observations) {u : PlaytimeEntry}
    (hu : u ∈ uploadedPlaytime w steamId64 appId) :
    ∃ (path : RecordPath) (record : DevicePlaytime), path.steamId64 = steamId64 ∧
      path.appId = appId ∧
      u ∈ {e | ∃ x ∈ (w.folder path.clientId).observationsAt path, x.entry = e} ∧
      record.observation P ∈ observations ∧ record.entry.appId = appId ∧
      PlaytimeSummary {e | ∃ x ∈ (w.folder path.clientId).observationsAt path, x.entry = e}
        record.entry := by
  obtain ⟨device, x, hx, hsteam, happ, rfl⟩ := hu
  have hclient : x.path.clientId = device := ((hsound device).observation x hx).1
  have hat : x ∈ (w.folder x.path.clientId).observationsAt x.path := by
    refine List.mem_filter.mpr ⟨?_, by simp⟩
    rw [hclient]
    exact hx
  obtain ⟨bytes, hfile⟩ := exists_file_of_observed hsound hcomplete hat
  obtain ⟨record, hrecord, hsummary⟩ := exists_playtimeFile hsound hcomplete hfile
  exact ⟨x.path, record, hsteam, happ, ⟨x, hat, rfl⟩,
    (mem_observations_iff hlisted hread _).mpr
      ⟨x.path, bytes, record, hsteam, hfile, hrecord.decodes, rfl⟩,
    (congrArg RecordPath.appId hrecord.path_eq).trans happ, hsummary⟩

/-- An app's entry summarises what all devices uploaded. -/
theorem playtimeStates_summary (hsound : w.Sound P) (hcomplete : w.CompletePlaytime files)
    (hlisted : Listed files steamId64 listing)
    (hread : readObservations P steamId64 listing = .ok observations) {e : PlaytimeEntry}
    (h : (playtimeStates scope steamId64 observations)[appId]? = some e) :
    e.appId = appId ∧ PlaytimeSummary (uploadedPlaytime w steamId64 appId) e := by
  obtain ⟨v, vs, hvalues, rfl⟩ := getElem?_playtimeStates.mp h
  have hmem : ∀ x, x ∈ v :: vs ↔ ∃ o ∈ observations, o.entry.appId = appId ∧
      { o.entry with ownerScope := scope, ownerSteamId64 := steamId64 } = x := by
    intro x
    rw [← hvalues, List.mem_map]
    simp only [mem_sortedOf, and_assoc]
  have hsorted : (v :: vs).Pairwise fun x y => x.observedAt ≤ y.observedAt := by
    have hpairs : (sortedOf appId observations).Pairwise fun a b => a.order ≤ b.order :=
      sortedOf_pairwise
    rw [← hvalues, List.pairwise_map]
    refine hpairs.imp_of_mem fun {a b} ha hb hab => ?_
    obtain ⟨_, _, ra, _, _, _, rfl⟩ :=
      (mem_observations_iff hlisted hread a).mp (mem_sortedOf.mp ha).1
    obtain ⟨_, _, rb, _, _, _, rfl⟩ :=
      (mem_observations_iff hlisted hread b).mp (mem_sortedOf.mp hb).1
    rcases Prod.Lex.toLex_le_toLex.mp hab with hlt | ⟨heq, _⟩
    · exact hlt.le
    · exact le_of_eq heq
  have hsub : ∀ path : RecordPath, path.steamId64 = steamId64 → path.appId = appId →
      {e | ∃ x ∈ (w.folder path.clientId).observationsAt path, x.entry = e} ⊆
        uploadedPlaytime w steamId64 appId := by
    rintro path rfl rfl e ⟨x, hx, rfl⟩
    obtain ⟨hin, hpath⟩ := List.mem_filter.mp hx
    have heq : x.path = path := by simpa using hpath
    exact ⟨path.clientId, x, hin, congrArg RecordPath.steamId64 heq,
      congrArg RecordPath.appId heq, rfl⟩
  refine ⟨?_, (PlaytimeSummary.foldl v vs hsorted).flatten ?_ ?_⟩
  · rw [foldl_mergePlaytime_appId]
    obtain ⟨o, _, happ, rfl⟩ := (hmem v).mp List.mem_cons_self
    exact happ
  · intro x hx
    obtain ⟨o, ho, happ, rfl⟩ := (hmem x).mp hx
    obtain ⟨path, bytes, record, hsteam, hfile, hdecode, rfl⟩ :=
      (mem_observations_iff hlisted hread o).mp ho
    obtain ⟨record', hrecord, hsummary⟩ := exists_playtimeFile hsound hcomplete hfile
    rw [hrecord.decodes] at hdecode
    cases hdecode
    have hpath : path.appId = appId := by
      rw [← hrecord.path_eq]
      exact happ
    exact ⟨_, hsub path hsteam hpath, PlaytimeSummary.of_owner.mpr hsummary⟩
  · intro u hu
    obtain ⟨path, record, hsteam, happ, hin, hmember, hrecordApp, hsummary⟩ :=
      observed_of_uploaded hsound hcomplete hlisted hread hu
    exact ⟨_, (hmem _).mpr ⟨record.observation P, hmember, hrecordApp, rfl⟩, _,
      hsub path hsteam happ, hin, PlaytimeSummary.of_owner.mpr hsummary⟩

/-- An app has an entry exactly if some device uploaded one. -/
theorem exists_playtimeStates_iff (hsound : w.Sound P) (hcomplete : w.CompletePlaytime files)
    (hlisted : Listed files steamId64 listing)
    (hread : readObservations P steamId64 listing = .ok observations) :
    (∃ e, (playtimeStates scope steamId64 observations)[appId]? = some e) ↔
      (uploadedPlaytime w steamId64 appId).Nonempty := by
  constructor
  · rintro ⟨e, he⟩
    obtain ⟨u, hu, _⟩ := (playtimeStates_summary hsound hcomplete hlisted hread he).2.recent
    exact ⟨u, hu⟩
  · rintro ⟨u, hu⟩
    obtain ⟨path, record, _, _, _, hmember, hrecordApp, _⟩ :=
      observed_of_uploaded hsound hcomplete hlisted hread hu
    have hin : record.observation P ∈ sortedOf appId observations :=
      mem_sortedOf.mpr ⟨hmember, hrecordApp⟩
    obtain ⟨v, vs, hvalues⟩ := List.exists_cons_of_ne_nil
      (List.ne_nil_of_mem (List.mem_map_of_mem (f := fun o : PlaytimeObservation =>
        { o.entry with ownerScope := scope, ownerSteamId64 := steamId64 }) hin))
    exact ⟨_, getElem?_playtimeStates.mpr ⟨v, vs, hvalues, rfl⟩⟩

variable {listing' : AccountListing}

/-- A listing can be read in any order. -/
theorem Listed.of_perm (h : Listed files steamId64 listing) (hperm : listing'.Perm listing) :
    Listed files steamId64 listing' where
  apps := (hperm.map Prod.fst).nodup_iff.mpr h.apps
  mem dir hdir := h.mem dir (hperm.mem_iff.mp hdir)
  clients dir hdir := h.clients dir (hperm.mem_iff.mp hdir)
  complete path bytes hfile hsteam :=
    (hperm.map Prod.fst).mem_iff.mpr (h.complete path bytes hfile hsteam)

/-- `reduce_playtime` reads the listing sorted by app and reduces what it read. -/
theorem reducePlaytime_eq_ok_iff {entries : List PlaytimeEntry} :
    reducePlaytime P scope steamId64 listing = .ok entries ↔
      validateSteamId steamId64 = .ok () ∧ listing.length ≤ maxAccountApps ∧
        ∃ observations,
          readObservations P steamId64 (listing.mergeSort fun a b => a.1 ≤ b.1) =
            .ok observations ∧
          (playtimeStates scope steamId64 observations).toList.map Prod.snd = entries := by
  simp only [reducePlaytime, accountAppRoots, bind_eq_ok, throw_bind, ite_throw_eq_ok, pure_eq_ok,
    not_lt]
  constructor
  · rintro ⟨_, ⟨_, hsteam, hlimit, rfl⟩, observations, hread, heq⟩
    exact ⟨hsteam, hlimit, observations, hread, heq⟩
  · rintro ⟨hsteam, hlimit, observations, hread, heq⟩
    exact ⟨_, ⟨(), hsteam, hlimit, rfl⟩, observations, hread, heq⟩

/-- Two listings of the same files that have the same directories have directories of the
same sizes. -/
theorem Listed.length_le (h : Listed files steamId64 listing) (h' : Listed files steamId64 listing')
    (happs : ∀ appId, appId ∈ listing'.map Prod.fst → appId ∈ listing.map Prod.fst) {n : Nat}
    (hle : ∀ dir ∈ listing, dir.2.length ≤ n) : ∀ dir ∈ listing', dir.2.length ≤ n := by
  intro dir hdir
  obtain ⟨dir₀, hdir₀, happ⟩ := List.mem_map.mp (happs dir.1 (List.mem_map_of_mem hdir))
  have hperm : dir.2.Perm dir₀.2 := by
    refine (List.perm_ext_iff_of_nodup (h'.clients dir hdir).of_map
      (h.clients dir₀ hdir₀).of_map).mpr fun file => ?_
    rw [h'.mem dir hdir file.1 file.2, h.mem dir₀ hdir₀ file.1 file.2, happ]
  rw [hperm.length_eq]
  exact hle dir₀ hdir₀

end Converge

/-- After any run, for whoever holds every device's file: the reduction of an account with
uploads succeeds within the limits on directories and files; whenever it succeeds, an app has
an entry exactly if one was uploaded for it, it has one only, and it is the summary of all
uploads; and reading the same directories in another order gives the same entries. -/
theorem playtime_converges (P : SyncPlatform) (scope steamId64 : String)
    (actions : List SyncAction) (files : RecordFiles) (listing : AccountListing)
    (hcomplete : (SyncWorld.start.run P actions).CompletePlaytime files)
    (hlisted : Listed files steamId64 listing) :
    ((∃ appId, (uploadedPlaytime (SyncWorld.start.run P actions) steamId64 appId).Nonempty) →
      listing.length ≤ maxAccountApps → (∀ dir ∈ listing, dir.2.length ≤ maxDeviceRecords) →
      ∃ entries, reducePlaytime P scope steamId64 listing = .ok entries) ∧
    ∀ entries, reducePlaytime P scope steamId64 listing = .ok entries →
      (∀ appId, (∃ e ∈ entries, e.appId = appId) ↔
        (uploadedPlaytime (SyncWorld.start.run P actions) steamId64 appId).Nonempty) ∧
      (∀ e ∈ entries, ∀ e' ∈ entries, e.appId = e'.appId → e = e') ∧
      (∀ e ∈ entries, PlaytimeSummary
        (uploadedPlaytime (SyncWorld.start.run P actions) steamId64 e.appId) e) ∧
      ∀ listing', Listed files steamId64 listing' →
        (listing'.map Prod.fst).Perm (listing.map Prod.fst) →
        reducePlaytime P scope steamId64 listing' = .ok entries := by
  set w := SyncWorld.start.run P actions with hw
  have hsound : w.Sound P := SyncWorld.run_sound SyncWorld.start_sound actions
  have hroots : ∀ listing : AccountListing, Listed files steamId64 listing →
      Listed files steamId64 (listing.mergeSort fun a b => a.1 ≤ b.1) :=
    fun listing h => h.of_perm (List.mergeSort_perm _ _)
  have hsuccess : ∀ listing : AccountListing, Listed files steamId64 listing →
      ((∃ observations, readObservations P steamId64 (listing.mergeSort fun a b => a.1 ≤ b.1) =
          .ok observations) ↔ ∀ dir ∈ listing, dir.2.length ≤ maxDeviceRecords) := by
    intro listing h
    rw [exists_readObservations_iff (readableDir_of_listed hsound hcomplete (hroots listing h))]
    simp only [List.mem_mergeSort]
  constructor
  · rintro ⟨appId, _, device, x, hx, rfl, _, _⟩ happs hfiles
    obtain ⟨observations, hread⟩ := (hsuccess listing hlisted).mpr hfiles
    have hroot := ((hsound device).observation x hx).2.2
    simp only [appRoot, throw_bind, ite_throw_eq_ok] at hroot
    exact ⟨_, reducePlaytime_eq_ok_iff.mpr ⟨hroot.2, happs, observations, hread, rfl⟩⟩
  · intro entries h
    obtain ⟨hsteam, happs, observations, hread, rfl⟩ := reducePlaytime_eq_ok_iff.mp h
    have hlistedRoots := hroots listing hlisted
    have hsummary : ∀ appId e, (playtimeStates scope steamId64 observations)[appId]? = some e →
        e.appId = appId ∧ PlaytimeSummary (uploadedPlaytime w steamId64 appId) e := fun appId e he =>
      playtimeStates_summary hsound hcomplete hlistedRoots hread he
    refine ⟨fun appId => ?_, fun e he e' he' hsame => ?_, fun e he => ?_, fun listing' h' hperm => ?_⟩
    · rw [← exists_playtimeStates_iff hsound hcomplete hlistedRoots hread]
      constructor
      · rintro ⟨e, he, rfl⟩
        obtain ⟨appId, hget⟩ := mem_values_iff.mp he
        rw [(hsummary appId e hget).1]
        exact ⟨e, hget⟩
      · rintro ⟨e, hget⟩
        exact ⟨e, mem_values_iff.mpr ⟨appId, hget⟩, (hsummary appId e hget).1⟩
    · obtain ⟨appId, hget⟩ := mem_values_iff.mp he
      obtain ⟨appId', hget'⟩ := mem_values_iff.mp he'
      rw [(hsummary appId e hget).1, (hsummary appId' e' hget').1] at hsame
      rw [← hsame, hget] at hget'
      exact Option.some.inj hget'
    · obtain ⟨appId, hget⟩ := mem_values_iff.mp he
      obtain ⟨happ, hsum⟩ := hsummary appId e hget
      rw [happ]
      exact hsum
    · -- the other order succeeds too, and what it reads are the same observations
      have hlength : listing'.length = listing.length := by
        simpa using hperm.length_eq
      have hfiles := (hsuccess listing hlisted).mp ⟨observations, hread⟩
      obtain ⟨observations', hread'⟩ := (hsuccess listing' h').mpr
        (hlisted.length_le h' (fun appId hin => hperm.mem_iff.mp hin) hfiles)
      refine reducePlaytime_eq_ok_iff.mpr ⟨hsteam, hlength ▸ happs, observations', hread', ?_⟩
      have hlistedRoots' := hroots listing' h'
      have hdistinct := readObservations_distinct
        (readableDir_of_listed hsound hcomplete hlistedRoots) hlistedRoots.apps
        hlistedRoots.clients hread
      have hdistinct' := readObservations_distinct
        (readableDir_of_listed hsound hcomplete hlistedRoots') hlistedRoots'.apps
        hlistedRoots'.clients hread'
      have hmem : ∀ o, o ∈ observations' ↔ o ∈ observations := fun o => by
        rw [mem_observations_iff hlistedRoots' hread', mem_observations_iff hlistedRoots hread]
      rw [playtimeStates_congr hdistinct' hdistinct hmem]

/-- What the desktop lists after the recorded run. -/
def desktopListing : AccountListing :=
  [(480, [(7, (playtimeRecord 7 90 10 (some 200) 5).json),
    (9, (playtimeRecord 9 30 20 (some 300) 4).json)])]

theorem listed_desktopListing :
    Listed (sharedWorld.folder 9).playtime account desktopListing := by
  have hfiles : (sharedWorld.folder 9).playtime.toList =
      [(deckFile, (playtimeRecord 7 90 10 (some 200) 5).json),
        (desktopFile, (playtimeRecord 9 30 20 (some 300) 4).json)] := by decide +kernel
  refine listed_of_toList hfiles ?_ ?_
  · decide +kernel
  · decide +kernel

/-- The deck played longest, the desktop last, and the deck's first observation is the newest. -/
theorem playtime_converges_two_devices :
    ∃ entries, reducePlaytime sharedApp.platform "local:/cloud" account desktopListing =
        .ok entries ∧
      ∀ e ∈ entries, PlaytimeSummary (uploadedPlaytime sharedWorld account e.appId) e := by
  have huploaded : ∃ appId, (uploadedPlaytime sharedWorld account appId).Nonempty := by
    refine ⟨480, (playtimeRecord 9 30 20 (some 300) 4).entry, 9,
      playtimeRecord 9 30 20 (some 300) 4, ?_, rfl, rfl, rfl⟩
    decide +kernel
  obtain ⟨hsuccess, hentries⟩ := playtime_converges sharedApp.platform "local:/cloud" account
    sharedRun _ desktopListing sharedWorld_playtime_complete listed_desktopListing
  obtain ⟨entries, h⟩ := hsuccess huploaded (by decide) (by decide)
  exact ⟨entries, h, (hentries entries h).2.2.1⟩

end VaporForge.Local
