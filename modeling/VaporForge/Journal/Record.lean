import Mathlib.Algebra.Group.Int.Defs
import Mathlib.Algebra.Group.Nat.Defs
import VaporForge.CloudCore.Sync

/-!
# Journal records

The four on-disk record kinds of `sync-journal/src/record.rs` that are uploaded
and then settled: playtime totals, achievement schemas, stats commits with the
snapshot that completes them, and conflict resolutions. Every kind carries the
same delivery bookkeeping; it is factored into `Delivery` so that the macro
`journaled!` becomes one generic definition instead of four copies.

A `revision` is the number of times a record was updated in place. The source
keeps it in a `u64` that wraps, so two revisions are told apart only modulo
`2^64`: `sameRevision` is the comparison the source can make.
-/

namespace VaporForge.Journal

open VaporForge.CloudCore

/-- The resolution text that means the cloud copy won. -/
def keptCloudText : String := "kept_cloud"

structure Delivery where
  revision : Nat
  attempts : Int
  nextAttemptAt : Int
  createdAt : Int
  deriving DecidableEq, Repr

/-- Equality of two stored `u64` revision counters. -/
def sameRevision (a b : Nat) : Bool := a % 2 ^ 64 == b % 2 ^ 64

/-- Delivery state of a record that was just inserted. -/
def Delivery.new (createdAt : Int) : Delivery := ⟨0, 0, 0, createdAt⟩

/-- The in-place update of a record's content: revision up, retry schedule
cleared, insertion time kept. -/
def Delivery.bump (d : Delivery) : Delivery := ⟨d.revision + 1, 0, 0, d.createdAt⟩

def i64Max : Int := 2 ^ 63 - 1

def i64Min : Int := -(2 ^ 63)

/-- `i64::saturating_add`. -/
def saturatingAdd (a b : Int) : Int := max i64Min (min i64Max (a + b))

/-- `1_i64 << attempts.clamp(0, 8)`. -/
def retryDelay (attempts : Int) : Int := 2 ^ (min (max attempts 0) 8).toNat

/-- The retry schedule after one more failed attempt at `now`. -/
def Delivery.postpone (d : Delivery) (now : Int) : Delivery :=
  { d with
    nextAttemptAt := saturatingAdd now (retryDelay d.attempts)
    attempts := saturatingAdd d.attempts 1 }

/-- `max_option`: the later of two times, either of which may be unknown. -/
def maxOption : Option Int → Option Int → Option Int
  | some left, some right => some (max left right)
  | some value, none => some value
  | none, some value => some value
  | none, none => none

/-! ## Playtime totals -/

structure PlaytimeRecord extends Delivery where
  ownerScope : String
  ownerSteamId64 : String
  appId : Nat
  playtimeMinutes : Nat
  playtime2weeksMinutes : Nat
  lastPlayedAt : Option Int
  observedAt : Int
  deriving DecidableEq, Repr

namespace PlaytimeRecord

def new (entry : PlaytimeEntry) : PlaytimeRecord where
  toDelivery := .new entry.observedAt
  ownerScope := entry.ownerScope
  ownerSteamId64 := entry.ownerSteamId64
  appId := entry.appId
  playtimeMinutes := entry.playtimeMinutes
  playtime2weeksMinutes := entry.playtime2weeksMinutes
  lastPlayedAt := entry.lastPlayedAt
  observedAt := entry.observedAt

def value (self : PlaytimeRecord) : PlaytimeEntry where
  ownerScope := self.ownerScope
  ownerSteamId64 := self.ownerSteamId64
  appId := self.appId
  playtimeMinutes := self.playtimeMinutes
  playtime2weeksMinutes := self.playtime2weeksMinutes
  lastPlayedAt := self.lastPlayedAt
  observedAt := self.observedAt

/-- Fold a newer observation into the record; the flag says whether any value
moved. An observation that moves nothing leaves `observedAt` behind as well. -/
def merge (self : PlaytimeRecord) (incoming : PlaytimeEntry) : PlaytimeRecord × Bool :=
  let playtimeMinutes := max self.playtimeMinutes incoming.playtimeMinutes
  let lastPlayedAt := maxOption self.lastPlayedAt incoming.lastPlayedAt
  let playtime2weeksMinutes :=
    if incoming.observedAt ≥ self.observedAt then incoming.playtime2weeksMinutes
    else self.playtime2weeksMinutes
  if playtimeMinutes = self.playtimeMinutes ∧ lastPlayedAt = self.lastPlayedAt ∧
      playtime2weeksMinutes = self.playtime2weeksMinutes then
    (self, false)
  else
    ({ self with
        toDelivery := self.toDelivery.bump
        playtimeMinutes, lastPlayedAt, playtime2weeksMinutes
        observedAt := max self.observedAt incoming.observedAt }, true)

end PlaytimeRecord

/-! ## Achievement schemas -/

structure SchemaRecord extends Delivery where
  ownerScope : String
  appId : Nat
  language : String
  schemaVersion : Option String
  content : Bytes
  deriving DecidableEq, Repr

namespace SchemaRecord

def new (schema : AchievementSchema) (now : Int) : SchemaRecord where
  toDelivery := .new now
  ownerScope := schema.ownerScope
  appId := schema.appId
  language := schema.language
  schemaVersion := schema.schemaVersion
  content := schema.content

def value (self : SchemaRecord) : AchievementSchema where
  ownerScope := self.ownerScope
  appId := self.appId
  language := self.language
  schemaVersion := self.schemaVersion
  content := self.content

end SchemaRecord

/-! ## Stats commits and their snapshots -/

/-- `snapshotObservedAt` is the discriminator: `none` means that the commit
still awaits Steam's snapshot. -/
structure StatsRecord extends Delivery where
  ownerScope : String
  ownerSteamId64 : String
  appId : Nat
  commitId : String
  baseCrcStats : Option Nat
  dirtyStatIds : List Nat
  observedAt : Int
  snapshotObservedAt : Option Int
  snapshotAchievements : List OfficialAchievementState
  snapshotStats : List OfficialStatState
  deriving DecidableEq, Repr

namespace StatsRecord

def new (commit : StatsCommit) : StatsRecord where
  toDelivery := .new commit.observedAt
  ownerScope := commit.ownerScope
  ownerSteamId64 := commit.ownerSteamId64
  appId := commit.appId
  commitId := commit.commitId
  baseCrcStats := commit.baseCrcStats
  dirtyStatIds := commit.dirtyStatIds
  observedAt := commit.observedAt
  snapshotObservedAt := none
  snapshotAchievements := []
  snapshotStats := []

def hasSnapshot (self : StatsRecord) : Bool := self.snapshotObservedAt.isSome

/-- Fill in the snapshot Steam produced for the commit this record holds. -/
def complete (self : StatsRecord) (snapshot : SteamAppSnapshot) : StatsRecord :=
  { self with
    toDelivery := self.toDelivery.bump
    snapshotObservedAt := some snapshot.observedAt
    snapshotAchievements := snapshot.achievements
    snapshotStats := snapshot.stats }

/-- Return to the awaiting state after the backend refused the upload, adopting
the baseline it reported. -/
def reopen (self : StatsRecord) (baseCrcStats : Option Nat) (now : Int) : StatsRecord :=
  { self with
    toDelivery := self.toDelivery.bump
    baseCrcStats
    snapshotObservedAt := none
    snapshotAchievements := []
    snapshotStats := []
    observedAt := now }

def snapshot (self : StatsRecord) : Option SteamAppSnapshot :=
  self.snapshotObservedAt.map fun observedAt =>
    { ownerScope := self.ownerScope
      ownerSteamId64 := self.ownerSteamId64
      commitId := self.commitId
      appId := self.appId
      baseCrcStats := self.baseCrcStats
      dirtyStatIds := self.dirtyStatIds
      achievements := self.snapshotAchievements
      stats := self.snapshotStats
      observedAt }

end StatsRecord

/-! ## Conflict resolutions -/

structure ConflictResolutionEvent where
  ownerScope : String
  eventId : String
  appId : Nat
  baseChangeNumber : Nat
  remoteChangeNumber : Nat
  resolution : String
  machineName : Option String
  deriving DecidableEq, Repr

structure ConflictRecord extends Delivery where
  ownerScope : String
  eventId : String
  appId : Nat
  baseChangeNumber : Nat
  remoteChangeNumber : Nat
  resolution : String
  machineName : Option String
  deriving DecidableEq, Repr

namespace ConflictRecord

def new (resolution : ConflictResolutionEvent) (now : Int) : ConflictRecord where
  toDelivery := .new now
  ownerScope := resolution.ownerScope
  eventId := resolution.eventId
  appId := resolution.appId
  baseChangeNumber := resolution.baseChangeNumber
  remoteChangeNumber := resolution.remoteChangeNumber
  resolution := resolution.resolution
  machineName := resolution.machineName

def value (self : ConflictRecord) : ConflictResolutionEvent where
  ownerScope := self.ownerScope
  eventId := self.eventId
  appId := self.appId
  baseChangeNumber := self.baseChangeNumber
  remoteChangeNumber := self.remoteChangeNumber
  resolution := self.resolution
  machineName := self.machineName

def keptCloud (self : ConflictRecord) : Bool := self.resolution == keptCloudText

end ConflictRecord

/-! ## What the generic outbox needs of a record kind -/

/-- A record kind that is uploaded and then settled by identity: its delivery
state, and the value a handout of it carries (`none` while it has nothing to
upload). The laws say that rescheduling a record is invisible in its value. -/
class Journaled (R : Type) (V : outParam Type) where
  delivery : R → Delivery
  setDelivery : R → Delivery → R
  value : R → Option V
  delivery_setDelivery : ∀ r d, delivery (setDelivery r d) = d
  value_setDelivery : ∀ r d, value (setDelivery r d) = value r

instance : Journaled PlaytimeRecord PlaytimeEntry where
  delivery := (·.toDelivery)
  setDelivery r d := { r with toDelivery := d }
  value r := some r.value
  delivery_setDelivery _ _ := rfl
  value_setDelivery _ _ := rfl

instance : Journaled SchemaRecord AchievementSchema where
  delivery := (·.toDelivery)
  setDelivery r d := { r with toDelivery := d }
  value r := some r.value
  delivery_setDelivery _ _ := rfl
  value_setDelivery _ _ := rfl

instance : Journaled StatsRecord SteamAppSnapshot where
  delivery := (·.toDelivery)
  setDelivery r d := { r with toDelivery := d }
  value r := r.snapshot
  delivery_setDelivery _ _ := rfl
  value_setDelivery _ _ := rfl

instance : Journaled ConflictRecord ConflictResolutionEvent where
  delivery := (·.toDelivery)
  setDelivery r d := { r with toDelivery := d }
  value r := some r.value
  delivery_setDelivery _ _ := rfl
  value_setDelivery _ _ := rfl

/-- The version number the library's handout pattern runs on. -/
def revisionOf {R V : Type} [Journaled R V] (r : R) : Nat := (Journaled.delivery r).revision

/-- An observation that moves nothing leaves the record as it was; any other one
moves the revision. -/
theorem PlaytimeRecord.merge_cases (self : PlaytimeRecord) (incoming : PlaytimeEntry) :
    self.merge incoming = (self, false) ∨
      (self.merge incoming).2 = true ∧
        (self.merge incoming).1.revision = self.revision + 1 := by
  unfold merge
  dsimp only
  generalize (if incoming.observedAt ≥ self.observedAt then incoming.playtime2weeksMinutes
    else self.playtime2weeksMinutes) = weeks
  split
  · exact Or.inl rfl
  · exact Or.inr ⟨rfl, rfl⟩

end VaporForge.Journal
