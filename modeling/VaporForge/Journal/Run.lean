import VaporForge.Journal.Store

/-!
# Runs of the journal

The journal is driven by several workers that share it: some enqueue, some take
batches out, upload them and come back, much later, to settle what they took.
An `Action` is one call; a `Run` is any finite sequence of calls in any order.
The world remembers every item ever handed out, because a `Queued` value can be
kept, copied and settled at any later time and any number of times.
-/

namespace VaporForge.Journal

open VaporForge.CloudCore
open Lib (Table FetchOrder)

/-- One call on the journal. Handouts are actions too: what they return is
remembered, and a later action may settle any of it. -/
inductive Action where
  | enqueuePlaytime (order : FetchOrder PlaytimeRecord) (entries : List PlaytimeEntry)
  | enqueueSchema (order : FetchOrder SchemaRecord) (schema : AchievementSchema) (now : Int)
  | attributePendingSchemas (order : FetchOrder SchemaRecord) (ownerScope : String)
  | enqueueStatsCommit (order : FetchOrder StatsRecord) (commit : StatsCommit)
  | completeStatsSnapshot (order : FetchOrder StatsRecord) (snapshot : SteamAppSnapshot)
  | reopenStatsCommit (item : Queued SteamAppSnapshot) (baseCrcStats : Option Nat) (now : Int)
  | enqueueConflict (order : FetchOrder ConflictRecord) (resolution : ConflictResolutionEvent)
      (now : Int)
  | attributePendingConflicts (order : FetchOrder ConflictRecord)
      (credentialScope principalScope : String)
  | acknowledgePlaytime (items : List (Queued PlaytimeEntry))
  | acknowledgeSchemas (items : List (Queued AchievementSchema))
  | acknowledgeSnapshots (items : List (Queued SteamAppSnapshot))
  | acknowledgeConflicts (items : List (Queued ConflictResolutionEvent))
  | deferPlaytime (items : List (Queued PlaytimeEntry)) (now : Int)
  | deferSchemas (items : List (Queued AchievementSchema)) (now : Int)
  | deferSnapshots (items : List (Queued SteamAppSnapshot)) (now : Int)
  | deferConflicts (items : List (Queued ConflictResolutionEvent)) (now : Int)
  | pendingPlaytime (order : FetchOrder PlaytimeRecord) (ownerScope ownerSteamId64 : String)
      (now : Int)
  | pendingSchemas (order : FetchOrder SchemaRecord) (now : Int) (ownerScope : String)
  | pendingStatsSnapshots (order : FetchOrder StatsRecord) (ownerScope ownerSteamId64 : String)
      (now : Int)
  | pendingCloudConflicts (order : FetchOrder ConflictRecord) (now : Int) (ownerScope : String)
  | pendingLocalConflict (order : FetchOrder ConflictRecord) (ownerScope : String)
      (appId remoteChangeNumber : Nat)

/-- Everything ever handed out. -/
structure Handouts where
  playtime : List (Queued PlaytimeEntry) := []
  schemas : List (Queued AchievementSchema) := []
  snapshots : List (Queued SteamAppSnapshot) := []
  conflicts : List (Queued ConflictResolutionEvent) := []

structure World where
  journal : SyncJournal
  handed : Handouts

/-- The transaction of an action. -/
def Action.write (j : SyncJournal) : Action → SyncJournal
  | .enqueuePlaytime order entries =>
    { j with playtime := (Journal.enqueuePlaytime order j.playtime entries).1 }
  | .enqueueSchema order schema now =>
    { j with schemas := Journal.enqueueSchema order j.schemas schema now }
  | .attributePendingSchemas order ownerScope =>
    { j with schemas := Journal.attributePendingSchemas order j.schemas ownerScope }
  | .enqueueStatsCommit order commit =>
    { j with stats := Journal.enqueueStatsCommit order j.stats commit }
  | .completeStatsSnapshot order snapshot =>
    { j with stats := (Journal.completeStatsSnapshot order j.stats snapshot).1 }
  | .reopenStatsCommit item baseCrcStats now =>
    { j with stats := (Journal.reopenStatsCommit j.stats item baseCrcStats now).1 }
  | .enqueueConflict order resolution now =>
    { j with conflicts := Journal.enqueueConflict order j.conflicts resolution now }
  | .attributePendingConflicts order credentialScope principalScope =>
    { j with
      conflicts :=
        Journal.attributePendingConflicts order j.conflicts credentialScope principalScope }
  | .acknowledgePlaytime items => { j with playtime := settle j.playtime items }
  | .acknowledgeSchemas items => { j with schemas := settle j.schemas items }
  | .acknowledgeSnapshots items => { j with stats := settle j.stats items }
  | .acknowledgeConflicts items => { j with conflicts := settle j.conflicts items }
  | .deferPlaytime items now => { j with playtime := postpone j.playtime items now }
  | .deferSchemas items now => { j with schemas := postpone j.schemas items now }
  | .deferSnapshots items now => { j with stats := postpone j.stats items now }
  | .deferConflicts items now => { j with conflicts := postpone j.conflicts items now }
  | _ => j

/-- What an action hands out. -/
def Action.handOut (j : SyncJournal) : Action → Handouts
  | .pendingPlaytime order ownerScope ownerSteamId64 now =>
    { playtime := Journal.pendingPlaytime order j.playtime ownerScope ownerSteamId64 now }
  | .pendingSchemas order now ownerScope =>
    { schemas := Journal.pendingSchemas order j.schemas now ownerScope }
  | .pendingStatsSnapshots order ownerScope ownerSteamId64 now =>
    { snapshots := Journal.pendingStatsSnapshots order j.stats ownerScope ownerSteamId64 now }
  | .pendingCloudConflicts order now ownerScope =>
    { conflicts := Journal.pendingCloudConflicts order j.conflicts now ownerScope }
  | .pendingLocalConflict order ownerScope appId remoteChangeNumber =>
    { conflicts := (Journal.pendingLocalConflict order j.conflicts ownerScope appId
        remoteChangeNumber).toList }
  | _ => {}

def Handouts.append (a b : Handouts) : Handouts :=
  ⟨a.playtime ++ b.playtime, a.schemas ++ b.schemas, a.snapshots ++ b.snapshots,
    a.conflicts ++ b.conflicts⟩

def Action.run (w : World) (a : Action) : World :=
  ⟨a.write w.journal, w.handed.append (a.handOut w.journal)⟩

/-- Only what was handed out can be settled or reopened: a `Queued` value has no
other source. -/
def Action.Legal (w : World) : Action → Prop
  | .acknowledgePlaytime items | .deferPlaytime items _ => ∀ i ∈ items, i ∈ w.handed.playtime
  | .acknowledgeSchemas items | .deferSchemas items _ => ∀ i ∈ items, i ∈ w.handed.schemas
  | .acknowledgeSnapshots items | .deferSnapshots items _ => ∀ i ∈ items, i ∈ w.handed.snapshots
  | .acknowledgeConflicts items | .deferConflicts items _ => ∀ i ∈ items, i ∈ w.handed.conflicts
  | .reopenStatsCommit item _ _ => item ∈ w.handed.snapshots
  | _ => True

/-- No record of the table was updated in place `2^64` times. -/
def Unwrapped {R V : Type} [Journaled R V] (t : Table R) : Prop :=
  ∀ row ∈ t.rows.toList, revisionOf row.2 < 2 ^ 64

def SyncJournal.Unwrapped (j : SyncJournal) : Prop :=
  Journal.Unwrapped j.playtime ∧ Journal.Unwrapped j.schemas ∧ Journal.Unwrapped j.stats ∧
    Journal.Unwrapped j.conflicts

instance {R V : Type} [Journaled R V] (t : Table R) : Decidable (Unwrapped t) :=
  inferInstanceAs (Decidable (∀ row ∈ t.rows.toList, revisionOf row.2 < 2 ^ 64))

instance (j : SyncJournal) : Decidable j.Unwrapped :=
  inferInstanceAs (Decidable (_ ∧ _ ∧ _ ∧ _))

/-- A run of legal actions in which no revision counter wraps. -/
inductive Run (w₀ : World) : List Action → World → Prop
  | start : Run w₀ [] w₀
  | act {trace : List Action} {w : World} (a : Action) :
      Run w₀ trace w → a.Legal w → (a.run w).journal.Unwrapped →
      Run w₀ (trace ++ [a]) (a.run w)

end VaporForge.Journal
