import Mathlib.Data.List.Sort
import Mathlib.Data.Prod.Lex
import Mathlib.Data.String.Basic
import VaporForge.Lib.Table
import VaporForge.Journal.Record

/-!
# The sync journal's operations

`SyncJournal` of `sync-journal/src/store.rs`: one table per record kind and the
write transactions over them. Every write runs under the writer lock and
commits as a whole, so a transaction is one function from journal to journal.
Two parts of the database are arguments rather than definitions: the identity
an insertion mints (`Lib.Table`, never reused) and the order in which a query
returns its rows (`Lib.FetchOrder`, unspecified).

Filesystem and storage faults are not modelled: a transaction that fails rolls
back and leaves the journal as it was.
-/

namespace VaporForge.Journal

open VaporForge.CloudCore
open Lib (Table FetchOrder)

def playtimeBatchLimit : Nat := 500
def schemaBatchLimit : Nat := 10
def statsBatchLimit : Nat := 100
def conflictBatchLimit : Nat := 100

/-- A record handed out for upload, with the identity needed to settle it. -/
structure Queued (V : Type) where
  value : V
  id : Nat
  revision : Nat
  deriving DecidableEq, Repr

structure SyncJournal where
  playtime : Table PlaytimeRecord
  schemas : Table SchemaRecord
  stats : Table StatsRecord
  conflicts : Table ConflictRecord

/-! ## The generic outbox (`journaled!`) -/

section Outbox

variable {R V : Type} [Journaled R V]

/-- One turn of the `settle` loop: drop the record the item names, unless it
was updated since it was handed out. -/
def settleOne (t : Table R) (item : Queued V) : Table R :=
  match t.read item.id with
  | none => t
  | some stored =>
    if sameRevision (revisionOf stored) item.revision then t.delete item.id else t

def settle (t : Table R) (items : List (Queued V)) : Table R := items.foldl settleOne t

/-- One turn of the `postpone` loop. -/
def postponeOne (now : Int) (t : Table R) (item : Queued V) : Table R :=
  match t.read item.id with
  | none => t
  | some stored =>
    if sameRevision (revisionOf stored) item.revision then
      t.update item.id
        (Journaled.setDelivery stored ((Journaled.delivery stored).postpone now))
    else t

def postpone (t : Table R) (items : List (Queued V)) (now : Int) : Table R :=
  items.foldl (postponeOne now) t

/-- `Queued::new` over a fetched row, where the record has something to hand
out. -/
def handout (row : Nat × R) : Option (Queued V) :=
  (Journaled.value row.2).map fun value => ⟨value, row.1, revisionOf row.2⟩

/-- The common tail of the `pending_*` queries: hand the rows out, sort them
(stably) by `key` and keep a batch. -/
def batch {K : Type} [LE K] [DecidableLE K] (rows : List (Nat × R)) (key : R → K)
    (limit : Nat) : List (Queued V) :=
  let pending := rows.filterMap fun row => (handout row).map fun item => (key row.2, item)
  ((pending.insertionSort fun a b => a.1 ≤ b.1).take limit).map Prod.snd

end Outbox

/-! ## Playtime totals -/

/-- The body of the `enqueue_playtime` loop. -/
def enqueuePlaytimeOne (order : FetchOrder PlaytimeRecord) (t : Table PlaytimeRecord)
    (incoming : PlaytimeEntry) : Table PlaytimeRecord :=
  let existing := (t.fetch order fun r =>
    r.ownerScope == incoming.ownerScope && r.ownerSteamId64 == incoming.ownerSteamId64 &&
      r.appId == incoming.appId).head?
  match existing with
  | some (id, stored) =>
    match stored.merge incoming with
    | (merged, true) => t.update id merged
    | (_, false) => t
  | none => t.insert (.new incoming)

def enqueuePlaytime (order : FetchOrder PlaytimeRecord) (t : Table PlaytimeRecord)
    (entries : List PlaytimeEntry) : Table PlaytimeRecord × Nat :=
  (entries.foldl (enqueuePlaytimeOne order) t, entries.length)

def pendingPlaytime (order : FetchOrder PlaytimeRecord) (t : Table PlaytimeRecord)
    (ownerScope ownerSteamId64 : String) (now : Int) : List (Queued PlaytimeEntry) :=
  batch (t.fetch order fun r =>
      r.ownerScope == ownerScope && r.ownerSteamId64 == ownerSteamId64 && r.nextAttemptAt ≤ now)
    (fun r => r.appId) playtimeBatchLimit

/-! ## Achievement schemas -/

def enqueueSchema (order : FetchOrder SchemaRecord) (t : Table SchemaRecord)
    (schema : AchievementSchema) (now : Int) : Table SchemaRecord :=
  let existing := (t.fetch order fun r =>
    r.ownerScope == schema.ownerScope && r.appId == schema.appId &&
      r.language == schema.language).head?
  let record := SchemaRecord.new schema now
  match existing with
  | some (id, stored) =>
    t.update id { record with revision := stored.revision + 1, createdAt := stored.createdAt }
  | none => t.insert record

/-- Attach the backend scope to schemas queued before one was known. -/
def attributePendingSchemas (order : FetchOrder SchemaRecord) (t : Table SchemaRecord)
    (ownerScope : String) : Table SchemaRecord :=
  if ownerScope = "" then t
  else
    (t.fetch order fun r => r.ownerScope == "").foldl
      (fun t row =>
        t.update row.1 { row.2 with ownerScope, revision := row.2.revision + 1 }) t

def pendingSchemas (order : FetchOrder SchemaRecord) (t : Table SchemaRecord) (now : Int)
    (ownerScope : String) : List (Queued AchievementSchema) :=
  batch (t.fetch order fun r => r.ownerScope == ownerScope && r.nextAttemptAt ≤ now)
    (fun r => toLex (r.createdAt, r.appId)) schemaBatchLimit

/-! ## Stats commits and the snapshots that complete them -/

/-- `stats_for`: the row of one `(scope, account, app)`. -/
def statsFor (order : FetchOrder StatsRecord) (t : Table StatsRecord)
    (ownerScope ownerSteamId64 : String) (appId : Nat) : Option (Nat × StatsRecord) :=
  (t.fetch order fun r =>
    r.ownerScope == ownerScope && r.ownerSteamId64 == ownerSteamId64 && r.appId == appId).head?

def enqueueStatsCommit (order : FetchOrder StatsRecord) (t : Table StatsRecord)
    (commit : StatsCommit) : Table StatsRecord :=
  let record := StatsRecord.new commit
  match statsFor order t commit.ownerScope commit.ownerSteamId64 commit.appId with
  | some (id, stored) => t.update id { record with revision := stored.revision + 1 }
  | none => t.insert record

/-- Upgrade a pending commit marker into the snapshot Steam produced for it;
`false` when the marker has been replaced or already holds one. -/
def completeStatsSnapshot (order : FetchOrder StatsRecord) (t : Table StatsRecord)
    (snapshot : SteamAppSnapshot) : Table StatsRecord × Bool :=
  match statsFor order t snapshot.ownerScope snapshot.ownerSteamId64 snapshot.appId with
  | none => (t, false)
  | some (id, record) =>
    if record.hasSnapshot || record.commitId != snapshot.commitId then (t, false)
    else (t.update id (record.complete snapshot), true)

def pendingStatsSnapshots (order : FetchOrder StatsRecord) (t : Table StatsRecord)
    (ownerScope ownerSteamId64 : String) (now : Int) : List (Queued SteamAppSnapshot) :=
  batch (t.fetch order fun r =>
      r.ownerScope == ownerScope && r.ownerSteamId64 == ownerSteamId64 && r.nextAttemptAt ≤ now)
    (fun r => toLex (r.createdAt, r.appId)) statsBatchLimit

def reopenStatsCommit (t : Table StatsRecord) (item : Queued SteamAppSnapshot)
    (baseCrcStats : Option Nat) (now : Int) : Table StatsRecord × Bool :=
  match t.read item.id with
  | none => (t, false)
  | some stored =>
    if sameRevision stored.revision item.revision then
      (t.update item.id (stored.reopen baseCrcStats now), true)
    else (t, false)

/-! ## Cloud conflict resolutions -/

/-- The first loop of `enqueue_conflict`: earlier events of the same app go. -/
def dropSupersededConflicts (order : FetchOrder ConflictRecord) (t : Table ConflictRecord)
    (resolution : ConflictResolutionEvent) : Table ConflictRecord :=
  let superseded := ((t.fetch order fun r =>
      r.ownerScope == resolution.ownerScope && r.appId == resolution.appId).filter
    fun row => row.2.eventId != resolution.eventId).map Prod.fst
  superseded.foldl Table.delete t

/-- Queue a resolution, superseding any earlier one for the same app. -/
def enqueueConflict (order : FetchOrder ConflictRecord) (t : Table ConflictRecord)
    (resolution : ConflictResolutionEvent) (now : Int) : Table ConflictRecord :=
  let t := dropSupersededConflicts order t resolution
  let existing := (t.fetch order fun r =>
    r.ownerScope == resolution.ownerScope && r.eventId == resolution.eventId).head?
  let record := ConflictRecord.new resolution now
  match existing with
  | some (id, stored) =>
    t.update id { record with revision := stored.revision + 1, createdAt := stored.createdAt }
  | none => t.insert record

/-- One turn of the `attribute_pending_conflicts` loop: the principal's rows for
the app give way to the staged one. -/
def attributeConflictOne (order : FetchOrder ConflictRecord) (principalScope : String)
    (t : Table ConflictRecord) (row : Nat × ConflictRecord) : Table ConflictRecord :=
  let superseded := (t.fetch order fun r =>
    r.ownerScope == principalScope && r.appId == row.2.appId).map Prod.fst
  (superseded.foldl Table.delete t).update row.1
    { row.2 with ownerScope := principalScope, revision := row.2.revision + 1 }

/-- Move conflicts staged under a credential to its resolved principal. -/
def attributePendingConflicts (order : FetchOrder ConflictRecord) (t : Table ConflictRecord)
    (credentialScope principalScope : String) : Table ConflictRecord :=
  if credentialScope = "" ∨ principalScope = "" ∨ credentialScope = principalScope then t
  else
    (t.fetch order fun r => r.ownerScope == credentialScope).foldl
      (attributeConflictOne order principalScope) t

def pendingCloudConflicts (order : FetchOrder ConflictRecord) (t : Table ConflictRecord)
    (now : Int) (ownerScope : String) : List (Queued ConflictResolutionEvent) :=
  batch ((t.fetch order fun r => r.ownerScope == ownerScope && r.nextAttemptAt ≤ now).filter
      fun row => row.2.keptCloud)
    (fun r => toLex (r.createdAt, r.eventId)) conflictBatchLimit

/-- `Iterator::max_by_key` on the insertion time: the last of the latest rows. -/
def latestCreated : List (Nat × ConflictRecord) → Option (Nat × ConflictRecord)
  | [] => none
  | row :: rows =>
    match latestCreated rows with
    | none => some row
    | some best => if row.2.createdAt ≤ best.2.createdAt then some best else some row

/-- The local-wins resolution to bind to the next upload batch, if any. -/
def pendingLocalConflict (order : FetchOrder ConflictRecord) (t : Table ConflictRecord)
    (ownerScope : String) (appId remoteChangeNumber : Nat) :
    Option (Queued ConflictResolutionEvent) :=
  (latestCreated ((t.fetch order fun r => r.ownerScope == ownerScope && r.appId == appId).filter
    fun row => row.2.remoteChangeNumber == remoteChangeNumber && !row.2.keptCloud)).bind handout

end VaporForge.Journal
