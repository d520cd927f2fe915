import VaporForge.Journal.Run

/-!
# Acknowledgement is exact

A handout carries the revision of the record it was copied from, and settling
it later drops the record only while that revision still stands. This file
proves that the guard is enough, over every run that interleaves the journal's
writers with handouts settled late, repeatedly and in any order:

> `acknowledge_exact`: a record that an acknowledgement deletes holds exactly
> the value the acknowledged item carries, and deferring changes no value.

The argument is one relation. Every writer `Evolves` its table: a record it
leaves in place keeps both revision and value or moves the revision up
(`PlaytimeRecord.merge_cases` is the delicate one, a merge that moves nothing
must not move the revision either). Evolution keeps every handout `Vouched`,
and a vouched handout whose revision is found again is found with its value.
-/

namespace VaporForge.Journal

open VaporForge.CloudCore
open Lib (Table FetchOrder)
open Lib.Table (Evolves Vouched Supersedes)

/-! ## Every writer evolves its table -/

section Kind

variable {R V : Type} [Journaled R V]

/-- Evolution as the journal sees it: revisions are versions. -/
abbrev Advances (t t' : Table R) : Prop := Evolves revisionOf (Journaled.value (V := V)) t t'

/-- A rescheduled record keeps its revision and its value. -/
theorem supersedes_postponed (r : R) (now : Int) :
    Supersedes revisionOf Journaled.value r
      (Journaled.setDelivery r ((Journaled.delivery r).postpone now)) := by
  have hrev : revisionOf (Journaled.setDelivery r ((Journaled.delivery r).postpone now))
      = revisionOf r := by
    rw [revisionOf, Journaled.delivery_setDelivery]
    rfl
  exact ⟨Nat.le_of_eq hrev.symm, fun _ => (Journaled.value_setDelivery r _).symm⟩

variable {r : R}

/-- A bumped record supersedes its predecessor whatever else changed. -/
theorem supersedes_of_bump {r' : R} (h : revisionOf r' = revisionOf r + 1) :
    Supersedes revisionOf Journaled.value r r' :=
  ⟨by omega, fun heq => absurd heq (by omega)⟩

theorem advances_update {t : Table R} {id : Nat} {stored : R} (hread : t.read id = some stored)
    (h : revisionOf r = revisionOf stored + 1) : Advances t (t.update id r) := by
  refine Lib.Table.evolves_update fun held hheld => ?_
  rw [hread, Option.some.injEq] at hheld
  subst hheld
  exact supersedes_of_bump h

theorem settleOne_advances (t : Table R) (item : Queued V) : Advances t (settleOne t item) := by
  unfold settleOne
  split
  · exact .refl t
  · split
    · exact Lib.Table.evolves_delete t item.id
    · exact .refl t

theorem settle_advances (t : Table R) (items : List (Queued V)) : Advances t (settle t items) :=
  Lib.Table.evolves_foldl items (fun t item _ => settleOne_advances t item) t

theorem postponeOne_advances (now : Int) (t : Table R) (item : Queued V) :
    Advances t (postponeOne now t item) := by
  unfold postponeOne
  split
  · exact .refl t
  · next stored hstored =>
    split
    · refine Lib.Table.evolves_update fun r hr => ?_
      rw [hstored, Option.some.injEq] at hr
      subst hr
      exact supersedes_postponed stored now
    · exact .refl t

theorem postpone_advances (t : Table R) (items : List (Queued V)) (now : Int) :
    Advances t (postpone t items now) :=
  Lib.Table.evolves_foldl items (fun t item _ => postponeOne_advances now t item) t

/-- Deferring one item changes nothing that is read apart from the retry schedule. -/
theorem postponeOne_map {β : Type} {f : R → β}
    (hf : ∀ r now, f (Journaled.setDelivery r ((Journaled.delivery r).postpone now)) = f r)
    (now : Int) (t : Table R) (item : Queued V) (id : Nat) :
    ((postponeOne now t item).read id).map f = (t.read id).map f := by
  unfold postponeOne
  split
  · rfl
  · next stored hstored =>
    split
    · rw [Lib.Table.read_update]
      split
      · next heq =>
        subst heq
        rw [hstored]
        simp only [Option.map_some, hf]
      · rfl
    · rfl

theorem postpone_map {β : Type} {f : R → β}
    (hf : ∀ r now, f (Journaled.setDelivery r ((Journaled.delivery r).postpone now)) = f r)
    (t : Table R) (items : List (Queued V)) (now : Int) (id : Nat) :
    ((postpone t items now).read id).map f = (t.read id).map f := by
  unfold postpone
  induction items generalizing t with
  | nil => rfl
  | cons item items ih =>
    rw [List.foldl_cons, ih, postponeOne_map hf]

end Kind

theorem enqueuePlaytimeOne_advances (order : FetchOrder PlaytimeRecord)
    (t : Table PlaytimeRecord) (incoming : PlaytimeEntry) :
    Advances t (enqueuePlaytimeOne order t incoming) := by
  unfold enqueuePlaytimeOne
  dsimp only
  split
  · next id stored hrow =>
    have hread := (Lib.Table.head?_fetch hrow).1
    split
    · next merged hmerge =>
      rcases stored.merge_cases incoming with hsame | ⟨_, hrev⟩
      · rw [hsame] at hmerge
        exact absurd hmerge (by simp)
      · rw [hmerge] at hrev
        exact advances_update hread hrev
    · exact .refl t
  · exact Lib.Table.evolves_insert t _

theorem enqueuePlaytime_advances (order : FetchOrder PlaytimeRecord) (t : Table PlaytimeRecord)
    (entries : List PlaytimeEntry) : Advances t (enqueuePlaytime order t entries).1 :=
  Lib.Table.evolves_foldl entries (fun t e _ => enqueuePlaytimeOne_advances order t e) t

theorem enqueueSchema_advances (order : FetchOrder SchemaRecord) (t : Table SchemaRecord)
    (schema : AchievementSchema) (now : Int) : Advances t (enqueueSchema order t schema now) := by
  unfold enqueueSchema
  dsimp only
  split
  · next id stored hrow =>
    exact advances_update (Lib.Table.head?_fetch hrow).1 rfl
  · exact Lib.Table.evolves_insert t _

theorem attributePendingSchemas_advances (order : FetchOrder SchemaRecord)
    (t : Table SchemaRecord) (ownerScope : String) :
    Advances t (attributePendingSchemas order t ownerScope) := by
  unfold attributePendingSchemas
  split
  · exact .refl t
  · refine Lib.Table.evolves_foldl_rows ?_ ?_ _ _ (Lib.Table.nodup_fetch t order _)
      fun row hrow => Lib.Table.eq_of_mem_fetch hrow
    · intro t row hown
      refine Lib.Table.evolves_update fun r hr => ?_
      rw [hown r hr]
      exact supersedes_of_bump rfl
    · intro t row id r hne hr
      rw [Lib.Table.read_update_of_ne hne] at hr
      exact hr

theorem enqueueStatsCommit_advances (order : FetchOrder StatsRecord) (t : Table StatsRecord)
    (commit : StatsCommit) : Advances t (enqueueStatsCommit order t commit) := by
  unfold enqueueStatsCommit
  dsimp only
  split
  · next id stored hrow =>
    exact advances_update (Lib.Table.head?_fetch hrow).1 rfl
  · exact Lib.Table.evolves_insert t _

theorem completeStatsSnapshot_advances (order : FetchOrder StatsRecord) (t : Table StatsRecord)
    (snapshot : SteamAppSnapshot) :
    Advances t (completeStatsSnapshot order t snapshot).1 := by
  unfold completeStatsSnapshot
  split
  · exact .refl t
  · next id record hrow =>
    split
    · exact .refl t
    · exact advances_update (Lib.Table.head?_fetch hrow).1 rfl

theorem reopenStatsCommit_advances (t : Table StatsRecord) (item : Queued SteamAppSnapshot)
    (baseCrcStats : Option Nat) (now : Int) :
    Advances t (reopenStatsCommit t item baseCrcStats now).1 := by
  unfold reopenStatsCommit
  split
  · exact .refl t
  · next stored hstored =>
    split
    · exact advances_update hstored rfl
    · exact .refl t

theorem foldl_delete_advances (t : Table ConflictRecord) (ids : List Nat) :
    Advances t (ids.foldl Table.delete t) :=
  Lib.Table.evolves_foldl ids (fun t id _ => Lib.Table.evolves_delete t id) t

theorem enqueueConflict_advances (order : FetchOrder ConflictRecord) (t : Table ConflictRecord)
    (resolution : ConflictResolutionEvent) (now : Int) :
    Advances t (enqueueConflict order t resolution now) := by
  have hdrop : Advances t (dropSupersededConflicts order t resolution) :=
    foldl_delete_advances t _
  refine hdrop.trans ?_
  unfold enqueueConflict
  dsimp only
  split
  · next id stored hrow =>
    exact advances_update (Lib.Table.head?_fetch hrow).1 rfl
  · exact Lib.Table.evolves_insert _ _

theorem attributePendingConflicts_advances (order : FetchOrder ConflictRecord)
    (t : Table ConflictRecord) (credentialScope principalScope : String) :
    Advances t (attributePendingConflicts order t credentialScope principalScope) := by
  unfold attributePendingConflicts
  split
  · exact .refl t
  · refine Lib.Table.evolves_foldl_rows ?_ ?_ _ _ (Lib.Table.nodup_fetch t order _)
      fun row hrow => Lib.Table.eq_of_mem_fetch hrow
    · intro t row hown
      unfold attributeConflictOne
      refine (foldl_delete_advances t _).trans (Lib.Table.evolves_update fun r hr => ?_)
      rw [hown r (Lib.Table.read_foldl_delete hr)]
      exact supersedes_of_bump rfl
    · intro t row id r hne hr
      unfold attributeConflictOne at hr
      rw [Lib.Table.read_update_of_ne hne] at hr
      exact Lib.Table.read_foldl_delete hr

/-! ## The invariant -/

section Kind

variable {R V : Type} [Journaled R V]

variable {t : Table R}

theorem revision_lt_of_read (h : Unwrapped t) {id : Nat} {r : R} (hr : t.read id = some r) :
    revisionOf r < 2 ^ 64 :=
  h (id, r) (Std.ExtTreeMap.mem_toList_iff_getElem?_eq_some.mpr hr)

/-- Every item handed out from this table is still vouched for. -/
def HandoutsVouched (t : Table R) (handed : List (Queued V)) : Prop :=
  ∀ item ∈ handed, item.revision < 2 ^ 64 ∧
    Vouched revisionOf Journaled.value t item.id item.revision (some item.value)

theorem handoutsVouched_advances {t' : Table R} {handed : List (Queued V)}
    (h : HandoutsVouched t handed) (hadv : Advances t t') : HandoutsVouched t' handed :=
  fun item hitem => ⟨(h item hitem).1, (h item hitem).2.evolves hadv⟩

theorem handoutsVouched_append {xs ys : List (Queued V)} (hxs : HandoutsVouched t xs)
    (hys : HandoutsVouched t ys) : HandoutsVouched t (xs ++ ys) := by
  intro item hitem
  rcases List.mem_append.mp hitem with h | h
  · exact hxs item h
  · exact hys item h

theorem handout_vouched (hun : Unwrapped t) {row : Nat × R} (hrow : t.read row.1 = some row.2)
    {item : Queued V} (h : handout row = some item) : HandoutsVouched t [item] := by
  intro item' hmem
  rw [List.mem_singleton] at hmem
  subst hmem
  unfold handout at h
  obtain ⟨value, hvalue, rfl⟩ := Option.map_eq_some_iff.mp h
  refine ⟨revision_lt_of_read hun hrow, ?_⟩
  rw [← hvalue]
  exact Lib.Table.vouched_of_read hrow

variable {rows : List (Nat × R)}

/-- Sorting and truncating a batch adds nothing to what the query returned. -/
theorem mem_batch {K : Type} [LE K] [DecidableLE K] {key : R → K} {limit : Nat} {item : Queued V}
    (h : item ∈ batch rows key limit) : ∃ row ∈ rows, handout row = some item := by
  unfold batch at h
  dsimp only at h
  obtain ⟨keyed, hkeyed, rfl⟩ := List.mem_map.mp h
  have hsorted := List.mem_of_mem_take hkeyed
  rw [List.mem_insertionSort] at hsorted
  obtain ⟨row, hrow, hsome⟩ := List.mem_filterMap.mp hsorted
  obtain ⟨item, hitem, rfl⟩ := Option.map_eq_some_iff.mp hsome
  exact ⟨row, hrow, hitem⟩

theorem batch_vouched {K : Type} [LE K] [DecidableLE K] (hun : Unwrapped t)
    (hrows : ∀ row ∈ rows, t.read row.1 = some row.2) (key : R → K) (limit : Nat) :
    HandoutsVouched t (batch rows key limit) := by
  intro item hitem
  obtain ⟨row, hrow, hout⟩ := mem_batch hitem
  exact handout_vouched hun (hrows row hrow) hout item (List.mem_singleton.mpr rfl)

end Kind

theorem mem_of_latestCreated {rows : List (Nat × ConflictRecord)} {row : Nat × ConflictRecord}
    (h : latestCreated rows = some row) : row ∈ rows := by
  induction rows generalizing row with
  | nil => exact absurd h (by simp [latestCreated])
  | cons first rows ih =>
    unfold latestCreated at h
    split at h
    · rw [Option.some.injEq] at h
      exact h ▸ List.mem_cons_self ..
    · next best hbest =>
      split at h
      · rw [Option.some.injEq] at h
        exact List.mem_cons_of_mem _ (ih (h ▸ hbest))
      · rw [Option.some.injEq] at h
        exact h ▸ List.mem_cons_self ..

theorem pendingPlaytime_vouched {t : Table PlaytimeRecord} (hun : Unwrapped t)
    (order : FetchOrder PlaytimeRecord) (ownerScope ownerSteamId64 : String) (now : Int) :
    HandoutsVouched t (pendingPlaytime order t ownerScope ownerSteamId64 now) := by
  unfold pendingPlaytime
  exact batch_vouched hun (fun row hrow => (Lib.Table.mem_fetch.mp hrow).1) _ _

theorem pendingSchemas_vouched {t : Table SchemaRecord} (hun : Unwrapped t)
    (order : FetchOrder SchemaRecord) (now : Int) (ownerScope : String) :
    HandoutsVouched t (pendingSchemas order t now ownerScope) := by
  unfold pendingSchemas
  exact batch_vouched hun (fun row hrow => (Lib.Table.mem_fetch.mp hrow).1) _ _

theorem pendingStatsSnapshots_vouched {t : Table StatsRecord} (hun : Unwrapped t)
    (order : FetchOrder StatsRecord) (ownerScope ownerSteamId64 : String) (now : Int) :
    HandoutsVouched t (pendingStatsSnapshots order t ownerScope ownerSteamId64 now) := by
  unfold pendingStatsSnapshots
  exact batch_vouched hun (fun row hrow => (Lib.Table.mem_fetch.mp hrow).1) _ _

theorem pendingCloudConflicts_vouched {t : Table ConflictRecord} (hun : Unwrapped t)
    (order : FetchOrder ConflictRecord) (now : Int) (ownerScope : String) :
    HandoutsVouched t (pendingCloudConflicts order t now ownerScope) := by
  unfold pendingCloudConflicts
  exact batch_vouched hun
    (fun row hrow => (Lib.Table.mem_fetch.mp (List.mem_of_mem_filter hrow)).1) _ _

theorem pendingLocalConflict_vouched {t : Table ConflictRecord} (hun : Unwrapped t)
    (order : FetchOrder ConflictRecord) (ownerScope : String) (appId remoteChangeNumber : Nat) :
    HandoutsVouched t
      (pendingLocalConflict order t ownerScope appId remoteChangeNumber).toList := by
  intro item hitem
  obtain ⟨row, hrow, hout⟩ := Option.bind_eq_some_iff.mp (Option.mem_toList.mp hitem)
  have hread := (Lib.Table.mem_fetch.mp (List.mem_of_mem_filter (mem_of_latestCreated hrow))).1
  exact handout_vouched hun hread hout item (List.mem_singleton.mpr rfl)

/-- The invariant of a run: all four outboxes vouch for what they handed out. -/
structure World.Vouched (w : World) : Prop where
  playtime : HandoutsVouched w.journal.playtime w.handed.playtime
  schemas : HandoutsVouched w.journal.schemas w.handed.schemas
  snapshots : HandoutsVouched w.journal.stats w.handed.snapshots
  conflicts : HandoutsVouched w.journal.conflicts w.handed.conflicts

/-- The four tables after an action, each advanced from before. -/
structure Advanced (j j' : SyncJournal) : Prop where
  playtime : Advances j.playtime j'.playtime
  schemas : Advances j.schemas j'.schemas
  stats : Advances j.stats j'.stats
  conflicts : Advances j.conflicts j'.conflicts

theorem Advanced.refl (j : SyncJournal) : Advanced j j := ⟨.refl _, .refl _, .refl _, .refl _⟩

/-- Once for all actions: a transaction advances every table. -/
theorem write_advanced (j : SyncJournal) (a : Action) : Advanced j (a.write j) := by
  cases a with
  | enqueuePlaytime order entries =>
    exact { Advanced.refl j with playtime := enqueuePlaytime_advances order _ entries }
  | enqueueSchema order schema now =>
    exact { Advanced.refl j with schemas := enqueueSchema_advances order _ schema now }
  | attributePendingSchemas order ownerScope =>
    exact { Advanced.refl j with schemas := attributePendingSchemas_advances order _ ownerScope }
  | enqueueStatsCommit order commit =>
    exact { Advanced.refl j with stats := enqueueStatsCommit_advances order _ commit }
  | completeStatsSnapshot order snapshot =>
    exact { Advanced.refl j with stats := completeStatsSnapshot_advances order _ snapshot }
  | reopenStatsCommit item baseCrcStats now =>
    exact { Advanced.refl j with stats := reopenStatsCommit_advances _ item baseCrcStats now }
  | enqueueConflict order resolution now =>
    exact { Advanced.refl j with conflicts := enqueueConflict_advances order _ resolution now }
  | attributePendingConflicts order credentialScope principalScope =>
    exact { Advanced.refl j with
      conflicts := attributePendingConflicts_advances order _ credentialScope principalScope }
  | acknowledgePlaytime items =>
    exact { Advanced.refl j with playtime := settle_advances _ items }
  | acknowledgeSchemas items => exact { Advanced.refl j with schemas := settle_advances _ items }
  | acknowledgeSnapshots items => exact { Advanced.refl j with stats := settle_advances _ items }
  | acknowledgeConflicts items =>
    exact { Advanced.refl j with conflicts := settle_advances _ items }
  | deferPlaytime items now =>
    exact { Advanced.refl j with playtime := postpone_advances _ items now }
  | deferSchemas items now =>
    exact { Advanced.refl j with schemas := postpone_advances _ items now }
  | deferSnapshots items now =>
    exact { Advanced.refl j with stats := postpone_advances _ items now }
  | deferConflicts items now =>
    exact { Advanced.refl j with conflicts := postpone_advances _ items now }
  | pendingPlaytime | pendingSchemas | pendingStatsSnapshots | pendingCloudConflicts
  | pendingLocalConflict => exact Advanced.refl j

theorem handoutsVouched_nil {R V : Type} [Journaled R V] (t : Table R) :
    HandoutsVouched t ([] : List (Queued V)) :=
  fun item h => absurd h (by simp)

/-- What an action hands out was copied from the journal it leaves behind. -/
theorem handOut_vouched (j : SyncJournal) (a : Action) (hun : (a.write j).Unwrapped) :
    World.Vouched ⟨a.write j, a.handOut j⟩ := by
  obtain ⟨hplay, hschema, hstats, hconf⟩ := hun
  have hnone : World.Vouched ⟨a.write j, {}⟩ :=
    ⟨handoutsVouched_nil _, handoutsVouched_nil _, handoutsVouched_nil _, handoutsVouched_nil _⟩
  cases a with
  | pendingPlaytime order ownerScope ownerSteamId64 now =>
    exact { hnone with playtime := pendingPlaytime_vouched hplay order _ _ now }
  | pendingSchemas order now ownerScope =>
    exact { hnone with schemas := pendingSchemas_vouched hschema order now ownerScope }
  | pendingStatsSnapshots order ownerScope ownerSteamId64 now =>
    exact { hnone with snapshots := pendingStatsSnapshots_vouched hstats order _ _ now }
  | pendingCloudConflicts order now ownerScope =>
    exact { hnone with conflicts := pendingCloudConflicts_vouched hconf order now ownerScope }
  | pendingLocalConflict order ownerScope appId remoteChangeNumber =>
    exact { hnone with conflicts := pendingLocalConflict_vouched hconf order _ _ _ }
  | _ => exact hnone

variable {w : World}

/-- One action keeps the invariant. -/
theorem run_vouched (a : Action) (h : w.Vouched) (hun : (a.run w).journal.Unwrapped) :
    (a.run w).Vouched := by
  have hadv := write_advanced w.journal a
  have hnew := handOut_vouched w.journal a hun
  exact
    ⟨handoutsVouched_append (handoutsVouched_advances h.playtime hadv.playtime) hnew.playtime,
      handoutsVouched_append (handoutsVouched_advances h.schemas hadv.schemas) hnew.schemas,
      handoutsVouched_append (handoutsVouched_advances h.snapshots hadv.stats) hnew.snapshots,
      handoutsVouched_append (handoutsVouched_advances h.conflicts hadv.conflicts)
        hnew.conflicts⟩

variable {w₀ : World} {trace : List Action}

/-- A whole run keeps it, from any journal nothing of which is in flight. -/
theorem Run.vouched (h : Run w₀ trace w) (hstart : w₀.handed = {}) : w.Vouched := by
  induction h with
  | start =>
    refine ⟨?_, ?_, ?_, ?_⟩ <;> rw [hstart] <;> exact handoutsVouched_nil _
  | act a _ _ hun ih => exact run_vouched a ih hun

theorem Run.unwrapped (h : Run w₀ trace w) (hfresh : w₀.journal.Unwrapped) :
    w.journal.Unwrapped := by
  cases h with
  | start => exact hfresh
  | act a _ _ hun => exact hun

/-! ## Exactness -/

/-- What an outbox promises about the items it handed out. -/
structure ExactOutbox {R V : Type} [Journaled R V] (t : Table R) (handed : List (Queued V)) :
    Prop where
  /-- At its turn in any acknowledgement, an item deletes only a record holding
  the item's own value. -/
  settled_value : ∀ (before : List (Queued V)) (item : Queued V),
    item ∈ handed → ∀ stored, (settle t before).read item.id = some stored →
      (settle t (before ++ [item])).read item.id = none →
      Journaled.value stored = some item.value
  /-- A record that changed since the item was taken survives settling it. -/
  changed_survives : ∀ item ∈ handed, ∀ stored, t.read item.id = some stored →
    Journaled.value stored ≠ some item.value → (settle t [item]).read item.id = some stored
  /-- Deferring changes the value of no record. -/
  deferred_value : ∀ (items : List (Queued V)) (now : Int) (id : Nat),
    ((postpone t items now).read id).map Journaled.value = (t.read id).map Journaled.value

section Kind

variable {R V : Type} [Journaled R V]

variable {t : Table R} {item : Queued V}

variable {stored r : R} {handed : List (Queued V)}

theorem settleOne_of_read (h : t.read item.id = some stored) :
    settleOne t item =
      if sameRevision (revisionOf stored) item.revision then t.delete item.id else t := by
  rw [settleOne, h]

/-- Below `2^64` the stored counters tell revisions apart. -/
theorem sameRevision_iff {a b : Nat} (ha : a < 2 ^ 64) (hb : b < 2 ^ 64) :
    sameRevision a b = true ↔ a = b := by
  rw [sameRevision, beq_iff_eq, Nat.mod_eq_of_lt ha, Nat.mod_eq_of_lt hb]

/-- Settling only drops records, so it cannot make a counter wrap. -/
theorem settleOne_read {id : Nat} (h : (settleOne t item).read id = some r) :
    t.read id = some r := by
  unfold settleOne at h
  split at h
  · exact h
  · split at h
    · rw [Lib.Table.read_delete] at h
      split at h
      · exact absurd h (by simp)
      · exact h
    · exact h

theorem settle_read {items : List (Queued V)} {id : Nat} (h : (settle t items).read id = some r) :
    t.read id = some r := by
  unfold settle at h
  induction items generalizing t with
  | nil => exact h
  | cons item items ih =>
    rw [List.foldl_cons] at h
    exact settleOne_read (ih h)

/-- A vouched item that finds its own revision finds its own value. -/
theorem value_of_sameRevision (h : HandoutsVouched t handed) (hitem : item ∈ handed)
    (hun : Unwrapped t) (hread : t.read item.id = some stored)
    (hsame : sameRevision (revisionOf stored) item.revision = true) :
    Journaled.value stored = some item.value := by
  obtain ⟨hlt, hvouched⟩ := h item hitem
  have heq := (sameRevision_iff (revision_lt_of_read hun hread) hlt).mp hsame
  exact (hvouched.2 stored hread).2 heq.symm

theorem exactOutbox (h : HandoutsVouched t handed) (hun : Unwrapped t) :
    ExactOutbox t handed where
  settled_value := by
    intro before item hitem stored hread hgone
    have hread₀ := settle_read hread
    rw [settle, List.foldl_append, List.foldl_cons, List.foldl_nil] at hgone
    rw [show before.foldl settleOne t = settle t before from rfl, settleOne_of_read hread] at hgone
    split at hgone
    · next hsame => exact value_of_sameRevision h hitem hun hread₀ hsame
    · rw [hread] at hgone
      exact absurd hgone (by simp)
  changed_survives := by
    intro item hitem stored hread hchanged
    rw [settle, List.foldl_cons, List.foldl_nil, settleOne_of_read hread, if_neg]
    · exact hread
    · exact fun hsame => hchanged (value_of_sameRevision h hitem hun hread hsame)
  deferred_value := postpone_map (fun r _ => Journaled.value_setDelivery r _) t

end Kind

/-- **Acknowledgement is exact.** In every state of every run, each of the four
outboxes deletes on acknowledgement only records that hold what the
acknowledged item carries, and defers without changing a value. -/
theorem acknowledge_exact {w₀ w : World} {trace : List Action} (hrun : Run w₀ trace w)
    (hstart : w₀.handed = {}) (hfresh : w₀.journal.Unwrapped) :
    ExactOutbox w.journal.playtime w.handed.playtime ∧
      ExactOutbox w.journal.schemas w.handed.schemas ∧
      ExactOutbox w.journal.stats w.handed.snapshots ∧
      ExactOutbox w.journal.conflicts w.handed.conflicts := by
  have hinv := hrun.vouched hstart
  have hun := hrun.unwrapped hfresh
  exact ⟨exactOutbox hinv.playtime hun.1, exactOutbox hinv.schemas hun.2.1,
    exactOutbox hinv.snapshots hun.2.2.1, exactOutbox hinv.conflicts hun.2.2.2⟩

/-- One playtime observation of a fixed account and app. -/
def playtimeSample (minutes : Nat) : PlaytimeEntry :=
  ⟨"scope", "76561198000000001", 480, minutes, 5, none, 100 + minutes⟩

/-- An upload is taken out, and a newer observation lands before it is settled. -/
def inFlightTrace : List Action :=
  [.enqueuePlaytime .minted [playtimeSample 10],
    .pendingPlaytime .minted "scope" "76561198000000001" 1000,
    .enqueuePlaytime .minted [playtimeSample 20]]

def emptyWorld : World := ⟨⟨.empty, .empty, .empty, .empty⟩, {}⟩

def inFlightWorld : World := inFlightTrace.foldl Action.run emptyWorld

theorem acknowledge_exact_in_flight :
    inFlightWorld.handed.playtime = [⟨playtimeSample 10, 0, 0⟩] ∧
      (settle inFlightWorld.journal.playtime inFlightWorld.handed.playtime).read 0 =
        inFlightWorld.journal.playtime.read 0 ∧
      ExactOutbox inFlightWorld.journal.playtime inFlightWorld.handed.playtime := by
  have henqueued := Run.act (.enqueuePlaytime .minted [playtimeSample 10]) (.start : Run emptyWorld [] emptyWorld)
    trivial (by decide)
  have htaken := Run.act (.pendingPlaytime .minted "scope" "76561198000000001" 1000) henqueued
    trivial (by decide)
  have hrun : Run emptyWorld inFlightTrace inFlightWorld :=
    Run.act (.enqueuePlaytime .minted [playtimeSample 20]) htaken trivial (by decide)
  exact ⟨by decide, by decide, (acknowledge_exact hrun rfl (by decide)).1⟩

end VaporForge.Journal
