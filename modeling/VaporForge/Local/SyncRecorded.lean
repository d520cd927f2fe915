import VaporForge.Lib.Codec
import VaporForge.Local.Recorded
import VaporForge.Local.SyncFolder

/-!
# A recorded account sync

Two devices share one app: both report an achievement, a stat and their playtime, and the
first reports again later. The texts are those `serde_json` writes for the records that end
up in the folder, with their SHA-256; every other record has a text of its own, so that the
round trip holds for all of them.
-/

namespace VaporForge.Local

open VaporForge.CloudCore
open Lib

deriving instance Encodable for StoredAchievementState
deriving instance Encodable for StoredStatState
deriving instance Encodable for SteamAppStateRecord
deriving instance Encodable for PlaytimeEntry
deriving instance Encodable for DevicePlaytime

/-! ## JSON texts -/

def jsonQuoted (text : String) : Bytes := 34 :: (utf8Bytes text ++ [34])

def jsonTime : Option Int → Bytes
  | some t => decimal t.toNat
  | none => utf8Bytes "null"

def jsonArray (items : List Bytes) : Bytes := 91 :: ((utf8Bytes ",").intercalate items ++ [93])

def StoredAchievementState.json (a : StoredAchievementState) : Bytes :=
  [utf8Bytes "\x7b\"key\":", jsonQuoted a.key,
    utf8Bytes (if a.unlocked then ",\"unlocked\":true" else ",\"unlocked\":false"),
    utf8Bytes ",\"unlocked_at\":", jsonTime a.unlockedAt, utf8Bytes "\x7d"].flatten

def StoredStatState.json (s : StoredStatState) : Bytes :=
  [utf8Bytes "\x7b\"key\":", jsonQuoted s.key, utf8Bytes ",\"value_type\":",
    jsonQuoted s.valueType, utf8Bytes ",\"value\":", jsonQuoted s.value,
    utf8Bytes "\x7d"].flatten

def SteamAppStateRecord.json (r : SteamAppStateRecord) : Bytes :=
  [utf8Bytes "\x7b\"steam_id64\":", jsonQuoted r.steamId64,
    utf8Bytes ",\"client_id\":", decimal r.clientId, utf8Bytes ",\"app_id\":", decimal r.appId,
    utf8Bytes ",\"commit_id\":", jsonQuoted r.commitId,
    utf8Bytes ",\"observed_at\":", decimal r.observedAt.toNat,
    utf8Bytes ",\"achievements\":", jsonArray (r.achievements.map (·.json)),
    utf8Bytes ",\"stats\":", jsonArray (r.stats.map (·.json)), utf8Bytes "\x7d"].flatten

def DevicePlaytime.json (r : DevicePlaytime) : Bytes :=
  [utf8Bytes "\x7b\"steam_id64\":", jsonQuoted r.steamId64,
    utf8Bytes ",\"client_id\":", decimal r.clientId,
    utf8Bytes ",\"entry\":\x7b\"app_id\":", decimal r.entry.appId,
    utf8Bytes ",\"playtime_minutes\":", decimal r.entry.playtimeMinutes,
    utf8Bytes ",\"playtime_2weeks_minutes\":", decimal r.entry.playtime2weeksMinutes,
    utf8Bytes ",\"last_played_at\":", jsonTime r.entry.lastPlayedAt,
    utf8Bytes ",\"observed_at\":", decimal r.entry.observedAt.toNat,
    utf8Bytes "\x7d\x7d"].flatten

/-! ## The platform -/

structure SyncRecording where
  stats : RecordedCodec SteamAppStateRecord
  playtime : RecordedCodec DevicePlaytime
  /-- The SHA-256 of the playtime texts, in order. -/
  digests : List String

/-- No stat of the recording has a float value. -/
def SyncRecording.platform (R : SyncRecording) : SyncPlatform where
  encodeStats := R.stats.encode
  decodeStats bytes := (R.stats.decode bytes).elim (.error "expected value") .ok
  decode_encodeStats record := by rw [R.stats.decode_encode]; rfl
  encodePlaytime record := R.playtime.encode record.stored
  decodePlaytime bytes := (R.playtime.decode bytes).elim (.error "expected value") .ok
  decode_encodePlaytime record := by rw [R.playtime.decode_encode]; rfl
  digest bytes :=
    ((R.playtime.rows.zip R.digests).find? fun row => row.1.2 = bytes).elim "" Prod.snd
  parsesF32 _ := false

/-! ## The recorded records -/

def account : String := "76561198000000001"

def syncRecord (clientId : Nat) (commitId : String) (observedAt : Int)
    (unlockedAt : Option Int) (stats : List StoredStatState) : SteamAppStateRecord :=
  ⟨account, clientId, 480, commitId, observedAt, [⟨"WIN", unlockedAt.isSome, unlockedAt⟩], stats⟩

def playtimeRecord (clientId minutes twoWeeks : Nat) (lastPlayedAt : Option Int)
    (observedAt : Int) : DevicePlaytime :=
  ⟨account, clientId, ⟨"", "", 480, minutes, twoWeeks, lastPlayedAt, observedAt⟩⟩

def kills (value : String) : StoredStatState := ⟨"KILLS", "int", value⟩

/-- The deck's first snapshot, the desktop's, and what the deck's file holds after the deck's
second one, which has no stats. -/
def recordedSnapshots : List SteamAppStateRecord :=
  [syncRecord 7 "c1" 1 none [kills "1"], syncRecord 9 "c2" 3 (some 30) [kills "2"],
    syncRecord 7 "c3" 5 (some 20) [kills "1"]]

/-- The deck's first observation, the desktop's, the deck's second one, which was observed
earlier, and what the deck's file holds then. -/
def recordedPlaytime : List DevicePlaytime :=
  [playtimeRecord 7 60 10 (some 100) 5, playtimeRecord 9 30 20 (some 300) 4,
    playtimeRecord 7 90 15 (some 200) 3, playtimeRecord 7 90 10 (some 200) 5]

def sharedApp : SyncRecording where
  stats :=
    { rows := recordedSnapshots.map fun r => (r, r.json)
      distinct := by decide +kernel
      text := by decide +kernel }
  playtime :=
    { rows := recordedPlaytime.map fun r => (r, r.json)
      distinct := by decide +kernel
      text := by decide +kernel }
  digests := ["abdac9f6e5794e522a8061f3ed7c2119cea791645bad6534ad9f5612bd3aee81",
    "5da6723c868fc97af9e674211017dfbe5f721809ac9b677122a11f5ed429760d",
    "cc8a114ba557726d1ada88ead31e248b165153b6f7f92f7d0355514dc027e0c6",
    "da465db43222c429e0aa1e3a8db59ce6879837218e542b979ac0b133bee4f3f6"]

/-! ## The recorded run -/

def deckAccount : UploadIdentity := ⟨7, account⟩
def desktopAccount : UploadIdentity := ⟨9, account⟩

def snapshotOf (commitId : String) (observedAt : Int) (unlockedAt : Option Int)
    (stats : List OfficialStatState) : SteamAppSnapshot :=
  ⟨"", account, commitId, 480, none, [], [⟨"WIN", unlockedAt.isSome, unlockedAt⟩], stats,
    observedAt⟩

/-- Both devices upload, the deck a second time without stats, and the desktop receives the
deck's files. -/
def sharedRun : List SyncAction :=
  [.uploadSnapshot deckAccount (snapshotOf "c1" 1 none [⟨"KILLS", "int", "1"⟩]),
    .uploadSnapshot desktopAccount (snapshotOf "c2" 3 (some 30) [⟨"KILLS", "int", "2"⟩]),
    .uploadSnapshot deckAccount (snapshotOf "c3" 5 (some 20) []),
    .uploadPlaytime 7 account [(playtimeRecord 7 60 10 (some 100) 5).entry],
    .uploadPlaytime 9 account [(playtimeRecord 9 30 20 (some 300) 4).entry],
    .uploadPlaytime 7 account [(playtimeRecord 7 90 15 (some 200) 3).entry],
    .receiveStats 9 7 ⟨account, 480, 7⟩, .receivePlaytime 9 7 ⟨account, 480, 7⟩]

def sharedWorld : SyncWorld := SyncWorld.start.run sharedApp.platform sharedRun

/-- No other device takes part. -/
theorem sharedWorld_other {device : Nat} (h₇ : device ≠ 7) (h₉ : device ≠ 9) :
    sharedWorld.folder device = .empty :=
  SyncWorld.run_folder_of_ne _ _ fun action haction => by
    simp only [sharedRun, List.mem_cons, List.not_mem_nil, or_false] at haction
    rcases haction with rfl | rfl | rfl | rfl | rfl | rfl | rfl | rfl
    all_goals first | exact h₇.symm | exact h₉.symm

def deckFile : RecordPath := ⟨account, 480, 7⟩
def desktopFile : RecordPath := ⟨account, 480, 9⟩

/-- The desktop holds every owner's file, if it holds the deck's. -/
theorem desktop_complete (files : Nat → RecordFiles)
    (hdesktop : (files 9).keys = [deckFile, desktopFile]) (hdeck : (files 7).keys = [deckFile])
    (hsame : (files 9)[deckFile]? = (files 7)[deckFile]?)
    (hother : ∀ device, device ≠ 7 → device ≠ 9 → files device = ∅) (path : RecordPath) :
    (files 9)[path]? = (files path.clientId)[path]? := by
  by_cases h₉ : path.clientId = 9
  · rw [h₉]
  by_cases hpath : path = deckFile
  · rw [hpath]
    exact hsame
  have habsent : (files 9)[path]? = none := by
    refine getElem?_eq_none_of_keys ?_
    rw [hdesktop]
    intro hmem
    rcases List.mem_cons.mp hmem with heq | hmem
    · exact hpath heq
    · exact h₉ (congrArg RecordPath.clientId (List.mem_singleton.mp hmem))
  rw [habsent]
  by_cases h₇ : path.clientId = 7
  · rw [h₇, getElem?_eq_none_of_keys]
    rw [hdeck]
    exact fun hmem => hpath (List.mem_singleton.mp hmem)
  · rw [hother _ h₇ h₉]
    exact Std.ExtTreeMap.getElem?_empty.symm

theorem sharedWorld_stats_complete :
    sharedWorld.CompleteStats (sharedWorld.folder 9).stats := by
  refine desktop_complete (fun device => (sharedWorld.folder device).stats) ?_ ?_ ?_ ?_
  · decide +kernel
  · decide +kernel
  · decide +kernel
  · exact fun device h₇ h₉ => congrArg SyncFolder.stats (sharedWorld_other h₇ h₉)

theorem sharedWorld_playtime_complete :
    sharedWorld.CompletePlaytime (sharedWorld.folder 9).playtime := by
  refine desktop_complete (fun device => (sharedWorld.folder device).playtime) ?_ ?_ ?_ ?_
  · decide +kernel
  · decide +kernel
  · decide +kernel
  · exact fun device h₇ h₉ => congrArg SyncFolder.playtime (sharedWorld_other h₇ h₉)

end VaporForge.Local
