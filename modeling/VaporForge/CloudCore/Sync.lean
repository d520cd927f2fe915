/-!
# The neutral sync values

`cloud-core/src/sync.rs` holds the plain values that cross every backend
boundary: what the journal queues, what a backend is handed, what it returns.
Nothing here computes. Machine integers are `Nat` (unsigned) and `Int`
(signed); no function over these values does arithmetic that could wrap.
-/

namespace VaporForge.CloudCore

abbrev Bytes := List UInt8

structure AchievementSchema where
  ownerScope : String
  appId : Nat
  language : String
  schemaVersion : Option String
  content : Bytes
  deriving DecidableEq, Repr

structure PlaytimeEntry where
  ownerScope : String
  ownerSteamId64 : String
  appId : Nat
  playtimeMinutes : Nat
  playtime2weeksMinutes : Nat
  lastPlayedAt : Option Int
  observedAt : Int
  deriving DecidableEq, Repr

structure StatsCommit where
  ownerScope : String
  ownerSteamId64 : String
  commitId : String
  appId : Nat
  baseCrcStats : Option Nat
  dirtyStatIds : List Nat
  observedAt : Int
  deriving DecidableEq, Repr

structure OfficialAchievementState where
  key : String
  unlocked : Bool
  unlockedAt : Option Int
  deriving DecidableEq, Repr

structure OfficialStatState where
  key : String
  valueType : String
  value : String
  deriving DecidableEq, Repr

structure SteamAppSnapshot where
  ownerScope : String
  ownerSteamId64 : String
  commitId : String
  appId : Nat
  baseCrcStats : Option Nat
  dirtyStatIds : List Nat
  achievements : List OfficialAchievementState
  stats : List OfficialStatState
  observedAt : Int
  deriving DecidableEq, Repr

/-- Who uploads; the other fields of the source only describe the device. -/
structure UploadIdentity where
  clientId : Nat
  steamId64 : String
  deriving DecidableEq, Repr

/-- Converged achievement state returned to another device. -/
structure AchievementSyncState where
  appId : Nat
  achievementKey : String
  unlocked : Bool
  progressCurrent : Option Nat
  progressMax : Option Nat
  observedAt : Int
  unlockedAt : Option Int
  deriving DecidableEq, Repr

/-- Converged stat state returned to another device. -/
structure StatSyncState where
  appId : Nat
  statKey : String
  valueType : String
  value : String
  observedAt : Int
  deriving DecidableEq, Repr

inductive AppStatsUploadStatus where
  | uninitialized
  | noChange
  | applied
  | statsOutOfDate
  deriving DecidableEq, Repr

structure AppStatsUploadResult where
  appId : Nat
  status : AppStatsUploadStatus
  crcStats : Option Nat
  deriving DecidableEq, Repr

/-- A backend failure: a message for the logs and whether a retry is worthwhile. -/
structure BackendError where
  message : String
  retryable : Bool
  deriving DecidableEq, Repr

end VaporForge.CloudCore
