import Mathlib.Algebra.Group.Int.Defs
import VaporForge.Lib.Records
import VaporForge.SteamProtocol.Schema

/-!
# Merging backend stats into Steam's answers

`hooks/src/stats_merge.rs`: the answer to a stats request is the donor's, with the stats
the backend keeps for this account in their place. Steam asks in two forms. The service
form has one entry per stat, whose value holds the achievement bits and whose unlock times
stand next to it; the legacy form has flat stats and, apart from them, one block of unlock
times per achievement stat.

Ids and times are `u32` and nothing is computed with them, so they are `Nat`; a stat value
is 32 bits. The encoding of the finished message is left out.
-/

namespace VaporForge.Hooks

open VaporForge.CloudCore VaporForge.SteamProtocol
open Lib

/-! ## Messages -/

structure PlayerAchievementUnlockTime where
  achievementBit : Option Nat
  unlockTime : Option Nat
  deriving DecidableEq, Repr

structure PlayerStatsEntry where
  statId : Option Nat
  statValue : Option (BitVec 32)
  unlockTimes : List PlayerAchievementUnlockTime
  deriving DecidableEq, Repr

structure LegacyStatsEntry where
  statId : Option Nat
  statValue : Option (BitVec 32)
  deriving DecidableEq, Repr

structure AchievementBlock where
  achievementId : Option Nat
  unlockTime : List Nat
  deriving DecidableEq, Repr

/-- The fields of the request that are read. -/
structure PlayerGetUserStatsRequest where
  appid : Option Nat
  shaSchema : Option Bytes
  crcStats : Option (BitVec 32)
  deriving DecidableEq, Repr

structure PlayerGetUserStatsResponse where
  shaSchema : Option Bytes
  crcStats : Option (BitVec 32)
  schema : Option Bytes
  stats : List PlayerStatsEntry
  crcSchema : Option (BitVec 32)
  deriving DecidableEq, Repr

/-- The fields of the request that are read. -/
structure ClientGetUserStatsRequest where
  gameId : Option (BitVec 64)
  crcStats : Option (BitVec 32)
  deriving DecidableEq, Repr

structure ClientGetUserStatsResponse where
  gameId : Option (BitVec 64)
  eresult : Option Int
  crcStats : Option (BitVec 32)
  schema : Option Bytes
  stats : List LegacyStatsEntry
  achievementBlocks : List AchievementBlock
  deriving DecidableEq, Repr

inductive AppStatsResult where
  | uninitialized
  | schemaMismatch (schemaVersion : Option String)
  | unchanged (schemaVersion : String) (crcStats : BitVec 32)
  | modified (schemaVersion : String) (crcStats : Option (BitVec 32))
      (achievements : List AchievementSyncState) (stats : List StatSyncState)
  deriving DecidableEq, Repr

/-- `u32::MAX`, where a sort puts what has no id. -/
def u32Max : Nat := 2 ^ 32 - 1

def achievementUnlockTimeUnknown : Nat := 1191999600

/-- What comes from other crates: `str::parse::<f32>` followed by `to_bits`, and the
encoding of one entry by `prost`. -/
structure StatsPlatform where
  parseF32 : String → Option (BitVec 32)
  encodeEntry : PlayerStatsEntry → Bytes

/-! ## Schema lookups -/

structure AchievementWireId where
  statId : Nat
  achievementBit : Nat
  deriving DecidableEq, Repr

/-- `collect::<HashMap<_, _>>`: the last of several values of a key stays. -/
def collectMap {α : Type} (l : List (String × α)) : Assoc String α :=
  l.foldl (fun map e => map.insert e.1 e.2) ∅

def achievementWireIds (O : SchemaOrder) (schema : Bytes) :
    Option (Assoc String AchievementWireId) :=
  match parseAchievementBitMappings O schema with
  | .ok mappings =>
    some (collectMap (mappings.map fun mapping =>
      (mapping.key, ⟨mapping.statId, mapping.achievementBit⟩)))
  | .error _ => none

def statWireIds (O : SchemaOrder) (schema : Bytes) : Option (Assoc String Nat) :=
  match parseStatMappings O schema with
  | .ok mappings => some (collectMap (mappings.map fun mapping => (mapping.key, mapping.statId)))
  | .error _ => none

def statWireValue (P : StatsPlatform) (stat : StatSyncState) : Option (BitVec 32) :=
  match stat.valueType with
  | "int" => (parseI32 stat.value).map (BitVec.ofInt 32)
  | "float" | "average_rate" => P.parseF32 stat.value
  | _ => none

def unlockTime (state : AchievementSyncState) : Option Nat :=
  if !state.unlocked then some 0
  else some (((state.unlockedAt.filter (0 < ·)).bind fun value =>
    if value < 2 ^ 32 then some value.toNat else none).getD achievementUnlockTimeUnknown)

/-! ## Service entries -/

def setServiceStat (stats : List PlayerStatsEntry) (statId : Nat) (value : BitVec 32) :
    List PlayerStatsEntry :=
  rewriteOrPush (·.statId) (some statId) ⟨some statId, some value, []⟩
    (fun entry => { entry with statValue := some value }) stats

/-- The rewriting of one entry by `set_service_achievement`. -/
def setEntryAchievement (bit : Nat) (unlocked : Bool) (time : Nat) (entry : PlayerStatsEntry) :
    PlayerStatsEntry :=
  let mask : BitVec 32 := 1#32 <<< bit
  let previous := entry.statValue.getD 0
  { entry with
    statValue := some (if unlocked then previous ||| mask else previous &&& ~~~mask)
    unlockTimes :=
      if unlocked then
        if entry.unlockTimes.any fun t => t.achievementBit = some bit then
          rewriteOrPush (·.achievementBit) (some bit) ⟨some bit, some time⟩
            (fun t => { t with unlockTime := some time }) entry.unlockTimes
        else
          (entry.unlockTimes ++ [(⟨some bit, some time⟩ : PlayerAchievementUnlockTime)]).insertionSort
            fun a b => a.achievementBit.getD u32Max ≤ b.achievementBit.getD u32Max
      else entry.unlockTimes.filter fun t => t.achievementBit ≠ some bit }

def setServiceAchievement (stats : List PlayerStatsEntry) (wireId : AchievementWireId)
    (unlocked : Bool) (time : Nat) : Option (List PlayerStatsEntry) :=
  if wireId.achievementBit ≥ 32 then none
  else some (rewriteOrPush (·.statId) (some wireId.statId) ⟨some wireId.statId, some 0, []⟩
    (setEntryAchievement wireId.achievementBit unlocked time) stats)

/-- One turn of the first loop of `service_stats_entries`. -/
def addServiceStat (P : StatsPlatform) (statIds : Assoc String Nat)
    (stats : List PlayerStatsEntry) (stat : StatSyncState) : List PlayerStatsEntry :=
  match statIds.lookup stat.statKey with
  | none => stats
  | some statId =>
    match statWireValue P stat with
    | none => stats
    | some value => setServiceStat stats statId value

/-- One turn of its second loop. -/
def addServiceAchievement (achievementIds : Assoc String AchievementWireId)
    (stats : List PlayerStatsEntry) (achievement : AchievementSyncState) :
    List PlayerStatsEntry :=
  match achievementIds.lookup achievement.achievementKey with
  | none => stats
  | some wireId =>
    match unlockTime achievement with
    | none => stats
    | some time => (setServiceAchievement stats wireId achievement.unlocked time).getD stats

def serviceStatsEntries (P : StatsPlatform) (O : SchemaOrder) (appId : Nat) (schema : Bytes)
    (achievements : List AchievementSyncState) (states : List StatSyncState) :
    Option (List PlayerStatsEntry) := do
  let achievementIds ← achievementWireIds O schema
  let statIds ← statWireIds O schema
  let stats := (states.filter fun stat => stat.appId = appId).foldl (addServiceStat P statIds) []
  let stats := (achievements.filter fun achievement => achievement.appId = appId).foldl
    (addServiceAchievement achievementIds) stats
  return stats.insertionSort fun a b => a.statId.getD u32Max ≤ b.statId.getD u32Max

/-! ## Legacy entries -/

def addLegacyStat (P : StatsPlatform) (statIds : Assoc String Nat)
    (stats : List LegacyStatsEntry) (stat : StatSyncState) : List LegacyStatsEntry :=
  match statIds.lookup stat.statKey with
  | none => stats
  | some statId =>
    match statWireValue P stat with
    | none => stats
    | some value => stats ++ [⟨some statId, some value⟩]

/-- The rewriting of one block by `set_legacy_achievement`. -/
def setBlockAchievement (bit : Nat) (unlocked : Bool) (time : Nat) (block : AchievementBlock) :
    AchievementBlock :=
  let times := block.unlockTime
  let times := if times.length ≤ bit then times ++ List.replicate (bit + 1 - times.length) 0
    else times
  { block with unlockTime := times.set bit (if unlocked then time else 0) }

def setLegacyAchievement (blocks : List AchievementBlock) (wireId : AchievementWireId)
    (unlocked : Bool) (time : Nat) : Option (List AchievementBlock) :=
  if wireId.achievementBit ≥ 32 then none
  else some (rewriteOrPush (·.achievementId) (some wireId.statId) ⟨some wireId.statId, []⟩
    (setBlockAchievement wireId.achievementBit unlocked time) blocks)

def addLegacyAchievement (achievementIds : Assoc String AchievementWireId)
    (blocks : List AchievementBlock) (achievement : AchievementSyncState) :
    List AchievementBlock :=
  match achievementIds.lookup achievement.achievementKey with
  | none => blocks
  | some wireId =>
    match unlockTime achievement with
    | none => blocks
    | some time => (setLegacyAchievement blocks wireId achievement.unlocked time).getD blocks

def legacyStatsEntries (P : StatsPlatform) (O : SchemaOrder) (appId : Nat) (schema : Bytes)
    (achievements : List AchievementSyncState) (states : List StatSyncState) :
    Option (List LegacyStatsEntry × List AchievementBlock) := do
  let achievementIds ← achievementWireIds O schema
  let statIds ← statWireIds O schema
  let stats := (states.filter fun stat => stat.appId = appId).foldl (addLegacyStat P statIds) []
  let blocks := (achievements.filter fun achievement => achievement.appId = appId).foldl
    (addLegacyAchievement achievementIds) []
  return (stats.insertionSort fun a b => a.statId.getD u32Max ≤ b.statId.getD u32Max,
    blocks.insertionSort fun a b => a.achievementId.getD u32Max ≤ b.achievementId.getD u32Max)

/-! ## The stats token -/

/-- One bit of `stats_crc32c`. -/
def crcShift (crc : BitVec 32) : BitVec 32 :=
  let mask : BitVec 32 := 0 - (crc &&& 1)
  (crc >>> 1) ^^^ (0x82f63b78#32 &&& mask)

def statsCrc32c (bytes : Bytes) : BitVec 32 :=
  ~~~bytes.foldl (fun crc b =>
    (List.range 8).foldl (fun crc _ => crcShift crc) (crc ^^^ BitVec.ofNat 32 b.toNat))
    (~~~0#32)

/-- `encode_stats_varint`. A `u64` has at most ten groups of seven bits. -/
def encodeStatsVarint : Nat → Nat → Bytes
  | 0, value => [UInt8.ofNat value]
  | groups + 1, value =>
    if value ≥ 0x80 then
      (UInt8.ofNat value ||| 0x80) :: encodeStatsVarint groups (value / 128)
    else [UInt8.ofNat value]

def sortedPlayerStats (stats : List PlayerStatsEntry) : List PlayerStatsEntry :=
  (stats.insertionSort fun a b => a.statId.getD u32Max ≤ b.statId.getD u32Max).map fun entry =>
    { entry with
      unlockTimes := entry.unlockTimes.insertionSort
        fun a b => a.achievementBit.getD u32Max ≤ b.achievementBit.getD u32Max }

def canonicalStatsWireBytes (P : StatsPlatform) (stats : List PlayerStatsEntry) : Bytes :=
  (sortedPlayerStats stats).flatMap fun entry =>
    let bytes := P.encodeEntry entry
    0x22 :: (encodeStatsVarint 9 bytes.length ++ bytes)

def statsCrc (P : StatsPlatform) (stats : List PlayerStatsEntry) : BitVec 32 :=
  statsCrc32c (canonicalStatsWireBytes P stats)

-- the check value of CRC-32C
example : statsCrc32c (textBytes "123456789") = 0xe3069283#32 := by decide +kernel

/-! ## Responses -/

/-- `merge_service_stats_response`, without the encoding of its message. -/
def mergeServiceStatsResponse (P : StatsPlatform) (O : SchemaOrder)
    (request : PlayerGetUserStatsRequest) (donor : PlayerGetUserStatsResponse)
    (fullSchema : Bytes) (backend : Option AppStatsResult) :
    Option PlayerGetUserStatsResponse := do
  let appId ← request.appid.filter (· ≠ 0)
  let donor := { donor with
    schema := if request.shaSchema ≠ donor.shaSchema then some fullSchema else none
    stats := []
    crcStats := none
    crcSchema := none }
  match backend with
  | some (.unchanged _ crcStats) => return { donor with crcStats := some crcStats }
  | some (.modified _ crcStats achievements stats) =>
    let entries ← serviceStatsEntries P O appId fullSchema achievements stats
    let crc := crcStats.getD (statsCrc P entries)
    let donor := { donor with crcStats := some crc }
    if ¬(crcStats.isNone ∧ request.crcStats = some crc) then
      return { donor with stats := entries }
    else return donor
  | some .uninitialized | some (.schemaMismatch _) | none => return donor

def appIdFromGameId (gameId : BitVec 64) : Option Nat :=
  let appId := (gameId.setWidth 32 &&& 0x00ffffff#32).toNat
  if appId ≠ 0 then some appId else none

/-- The token of a legacy answer: the backend's, or that of the service form. -/
def legacyToken (P : StatsPlatform) (O : SchemaOrder) (appId : Nat) (schema : Bytes)
    (crcStats : Option (BitVec 32)) (achievements : List AchievementSyncState)
    (stats : List StatSyncState) : Option (BitVec 32) :=
  match crcStats with
  | none => (serviceStatsEntries P O appId schema achievements stats).map (statsCrc P)
  | some crc => some crc

/-- `merge_legacy_stats_response`, without the encoding of its message. The schema may be
parsed twice; `O` and `O'` are the orders of the two times. -/
def mergeLegacyStatsResponse (P : StatsPlatform) (O O' : SchemaOrder)
    (request : ClientGetUserStatsRequest) (donor : ClientGetUserStatsResponse)
    (fullSchema : Bytes) (backend : Option AppStatsResult) :
    Option ClientGetUserStatsResponse := do
  let gameId ← request.gameId
  let appId ← appIdFromGameId gameId
  let donor := { donor with
    gameId := some gameId
    schema := some fullSchema
    stats := []
    achievementBlocks := []
    crcStats := none }
  match backend with
  | some (.unchanged _ crcStats) => return { donor with crcStats := some crcStats }
  | some (.modified _ crcStats achievements stats) =>
    let crc ← legacyToken P O appId fullSchema crcStats achievements stats
    let donor := { donor with crcStats := some crc }
    if ¬(crcStats.isNone ∧ request.crcStats = some crc) then
      let payload ← legacyStatsEntries P O' appId fullSchema achievements stats
      return { donor with stats := payload.1, achievementBlocks := payload.2 }
    else return donor
  | some .uninitialized | some (.schemaMismatch _) | none => return donor

end VaporForge.Hooks
