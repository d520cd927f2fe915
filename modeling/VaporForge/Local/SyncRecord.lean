import Mathlib.Algebra.Group.Int.Defs
import Mathlib.Data.Prod.Lex
import VaporForge.Lib.Fallible
import VaporForge.Lib.Keyed
import VaporForge.Local.Manifest

/-!
# The records of account sync

`cloud-local/src/sync.rs` shares achievements, stats and playtime through a folder with no
arbiter. Every device owns one file per app and replaces only that file; what the account
looks like is computed by each reader from all the files.

This file holds the records, the checks they pass when they are written and when they are
read, and how a key of two records is combined. What the backend takes from other crates
is a `SyncPlatform`.
-/

namespace VaporForge.Local

open VaporForge.CloudCore
open Lib

def maxStatsRecordBytes : Nat := 16 * 1024 * 1024
def maxStatsEntries : Nat := 100000
def maxPlaytimeRecordBytes : Nat := 64 * 1024
def maxDeviceRecords : Nat := 4096
def maxAccountApps : Nat := 100000

/-! ## Records -/

structure StoredAchievementState where
  key : String
  unlocked : Bool
  unlockedAt : Option Int
  deriving DecidableEq, Repr

structure StoredStatState where
  key : String
  valueType : String
  value : String
  deriving DecidableEq, Repr

/-- What one device has published about one app. -/
structure SteamAppStateRecord where
  steamId64 : String
  clientId : Nat
  appId : Nat
  commitId : String
  observedAt : Int
  achievements : List StoredAchievementState
  stats : List StoredStatState
  deriving DecidableEq, Repr

/-- `PlaytimeRecord` of `sync.rs`: the playtime one device has published about one app. -/
structure DevicePlaytime where
  steamId64 : String
  clientId : Nat
  entry : PlaytimeEntry
  deriving DecidableEq, Repr

/-- What a record reads back as: `owner_scope` and `owner_steam_id64` are not written. -/
def DevicePlaytime.stored (record : DevicePlaytime) : DevicePlaytime :=
  { record with entry := { record.entry with ownerScope := "", ownerSteamId64 := "" } }

/-- What the backend takes from other crates: `serde_json` on its two record types, with
the text of a parse error, the digest, and `str::parse::<f32>`. -/
structure SyncPlatform where
  encodeStats : SteamAppStateRecord → Bytes
  decodeStats : Bytes → Except String SteamAppStateRecord
  decode_encodeStats : ∀ record, decodeStats (encodeStats record) = .ok record
  encodePlaytime : DevicePlaytime → Bytes
  decodePlaytime : Bytes → Except String DevicePlaytime
  decode_encodePlaytime : ∀ record, decodePlaytime (encodePlaytime record) = .ok record.stored
  digest : Bytes → String
  parsesF32 : String → Bool

/-- `json_error`. -/
def jsonResult {α : Type} : Except String α → Result α
  | .ok value => .ok value
  | .error error => .error ⟨"local account sync metadata failed: " ++ error, false⟩

/-! ## Names -/

/-- `validate_steam_id`. -/
def validateSteamId (value : String) : Result Unit :=
  if (parseU64 value).any (· ≠ 0) then return ()
  else throw (permanent "invalid Steam account ID")

/-- `app_root`, without the path it returns. -/
def appRoot (steamId64 : String) (appId : Nat) : Result Unit := do
  if appId = 0 then throw (permanent "invalid local AppID")
  validateSteamId steamId64

/-- `record_client_id` of the path `<client>.json`. -/
def recordClientId (client : Nat) : Option Nat := if client ≠ 0 then some client else none

/-- A device's file for one app, `<account>/<app>/<kind>/<client>.json`. -/
structure RecordPath where
  steamId64 : String
  appId : Nat
  clientId : Nat
  deriving DecidableEq, Repr

def RecordPath.order (path : RecordPath) : String ×ₗ ℕ ×ₗ ℕ :=
  toLex (path.steamId64, toLex (path.appId, path.clientId))

theorem RecordPath.order_injective : Function.Injective RecordPath.order := by
  rintro ⟨s, a, c⟩ ⟨s', a', c'⟩ h
  cases toLex.injective h
  rfl

instance : LinearOrder RecordPath := LinearOrder.lift' RecordPath.order RecordPath.order_injective

/-- The key of a reduced state, `(u32, String)`. -/
structure AppKey where
  appId : Nat
  key : String
  deriving DecidableEq, Repr

def AppKey.order (key : AppKey) : ℕ ×ₗ String := toLex (key.appId, key.key)

theorem AppKey.order_injective : Function.Injective AppKey.order := by
  rintro ⟨a, b⟩ ⟨a', b'⟩ h
  cases toLex.injective h
  rfl

instance : LinearOrder AppKey := LinearOrder.lift' AppKey.order AppKey.order_injective

/-! ## Checks -/

/-- A key as both loops of `validate_stats_record` check it; `seen` holds the keys before. -/
def validKey (seen : List String) (key : String) : Bool :=
  let trimmed := trim key
  trimmed ≠ "" && byteLen trimmed ≤ 255 && !containsChar trimmed '\x00' && !seen.contains key

def validUnlockTime (achievement : StoredAchievementState) : Bool :=
  achievement.unlockedAt.all fun value =>
    0 < value && value ≤ 2 ^ 32 - 1 && achievement.unlocked

def validateAchievements (seen : List String) : List StoredAchievementState → Result Unit
  | [] => return ()
  | achievement :: rest =>
    if validKey seen achievement.key && validUnlockTime achievement then
      validateAchievements (achievement.key :: seen) rest
    else throw (permanent "invalid local Steam achievement state")

def validStatValue (P : SyncPlatform) (stat : StoredStatState) : Bool :=
  match stat.valueType with
  | "int" => (parseI32 stat.value).isSome
  | "float" | "average_rate" => P.parsesF32 stat.value
  | _ => false

def validateStats (P : SyncPlatform) (seen : List String) : List StoredStatState → Result Unit
  | [] => return ()
  | stat :: rest =>
    if validKey seen stat.key && byteLen stat.value ≤ 255 && !containsChar stat.value '\x00' &&
        validStatValue P stat then
      validateStats P (stat.key :: seen) rest
    else throw (permanent "invalid local Steam stat state")

/-- `validate_stats_record`; `path` is the client a file is named after, if there is one. -/
def validateStatsRecord (P : SyncPlatform) (record : SteamAppStateRecord) (steamId64 : String)
    (appId : Nat) (path : Option Nat) : Result Unit := do
  if record.steamId64 ≠ steamId64 ∨ record.clientId = 0 ∨ record.appId ≠ appId ∨
      record.commitId = "" ∨ byteLen record.commitId > 255 ∨
      containsChar record.commitId '\x00' ∨ record.observedAt ≤ 0 ∨
      record.achievements.length + record.stats.length > maxStatsEntries ∨
      path.any fun client => recordClientId client ≠ some record.clientId then
    throw (permanent "invalid local Steam app state record")
  validateAchievements [] record.achievements
  validateStats P [] record.stats

/-- `validate_playtime_record`. -/
def validatePlaytimeRecord (record : DevicePlaytime) (steamId64 : String) (appId : Nat)
    (path : Option Nat) : Result Unit :=
  if record.steamId64 ≠ steamId64 ∨ record.clientId = 0 ∨ record.entry.appId ≠ appId ∨
      record.entry.observedAt ≤ 0 ∨ record.entry.lastPlayedAt.any (· < 0) ∨
      (record.entry.ownerSteamId64 ≠ "" ∧ record.entry.ownerSteamId64 ≠ steamId64) ∨
      path.any fun client => recordClientId client ≠ some record.clientId then
    throw (permanent "invalid local playtime observation")
  else return ()

/-- `read_bounded_json_file` on a path that holds `bytes`. -/
def readBoundedJson (bytes : Bytes) (maximum : Nat) (label : String) : Result Bytes :=
  if bytes.length > maximum then throw (permanent ("invalid local " ++ label ++ " file"))
  else return bytes

/-! ## What a valid record looks like -/

variable {seen : List String} {P : SyncPlatform} {record : SteamAppStateRecord} {steamId64 : String}
  {appId : Nat} {path : Option Nat}

theorem validateAchievements_eq_ok {l : List StoredAchievementState}
    (h : validateAchievements seen l = .ok ()) :
    (l.map (·.key)).Nodup ∧ (∀ a ∈ l, a.key ∉ seen) ∧
      ∀ a ∈ l, ∀ t, a.unlockedAt = some t → a.unlocked = true := by
  induction l generalizing seen with
  | nil => simp
  | cons a l ih =>
    rw [validateAchievements] at h
    split at h
    next hvalid =>
      obtain ⟨hnodup, hseen, htime⟩ := ih h
      simp only [validKey, validUnlockTime, Bool.and_eq_true, Bool.not_eq_true',
        List.contains_eq_mem, decide_eq_false_iff_not, decide_eq_true_eq] at hvalid
      refine ⟨List.nodup_cons.mpr ⟨?_, hnodup⟩, List.forall_mem_cons.mpr ⟨hvalid.1.2, ?_⟩,
        List.forall_mem_cons.mpr ⟨?_, htime⟩⟩
      · intro hmem
        obtain ⟨b, hb, heq⟩ := List.mem_map.mp hmem
        exact hseen b hb (heq ▸ List.mem_cons_self)
      · exact fun b hb hin => hseen b hb (List.mem_cons_of_mem _ hin)
      · intro t ht
        have hall := hvalid.2
        rw [ht] at hall
        simp only [Option.all_some, Bool.and_eq_true] at hall
        exact hall.2
    next => cases h

theorem validateStats_eq_ok {l : List StoredStatState} (h : validateStats P seen l = .ok ()) :
    (l.map (·.key)).Nodup ∧ ∀ s ∈ l, s.key ∉ seen := by
  induction l generalizing seen with
  | nil => simp
  | cons s l ih =>
    rw [validateStats] at h
    split at h
    next hvalid =>
      obtain ⟨hnodup, hseen⟩ := ih h
      simp only [validKey, Bool.and_eq_true, Bool.not_eq_true', List.contains_eq_mem,
        decide_eq_false_iff_not] at hvalid
      refine ⟨List.nodup_cons.mpr ⟨?_, hnodup⟩, List.forall_mem_cons.mpr ⟨hvalid.1.1.1.2, ?_⟩⟩
      · intro hmem
        obtain ⟨s', hs', heq⟩ := List.mem_map.mp hmem
        exact hseen s' hs' (heq ▸ List.mem_cons_self)
      · exact fun s' hs' hin => hseen s' hs' (List.mem_cons_of_mem _ hin)
    next => cases h

/-- What the reductions rest on: every key once, and a time only where there is an unlock. -/
structure WellFormed (record : SteamAppStateRecord) : Prop where
  achievementKeys : (record.achievements.map (·.key)).Nodup
  unlocked : ∀ a ∈ record.achievements, ∀ t, a.unlockedAt = some t → a.unlocked = true
  statKeys : (record.stats.map (·.key)).Nodup

theorem validateStatsRecord_eq_ok (h : validateStatsRecord P record steamId64 appId path = .ok ()) :
    record.steamId64 = steamId64 ∧ record.appId = appId ∧ WellFormed record := by
  simp only [validateStatsRecord, bind_eq_ok, throw_bind, ite_throw_eq_ok, not_or, not_not] at h
  obtain ⟨⟨hsteam, _, happ, _⟩, _, hachievements, hstats⟩ := h
  obtain ⟨hkeys, _, htimes⟩ := validateAchievements_eq_ok hachievements
  exact ⟨hsteam, happ, hkeys, htimes, (validateStats_eq_ok hstats).1⟩

theorem validateStatsRecord_observedAt
    (h : validateStatsRecord P record steamId64 appId path = .ok ()) : 0 < record.observedAt := by
  simp only [validateStatsRecord, bind_eq_ok, throw_bind, ite_throw_eq_ok, not_or, not_le] at h
  obtain ⟨⟨_, _, _, _, _, _, hobserved, _⟩, _⟩ := h
  exact hobserved

end VaporForge.Local
