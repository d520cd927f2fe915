import Mathlib.Data.Finset.Erase
import Mathlib.Data.Finset.Insert
import VaporForge.CloudCore.Sync
import VaporForge.Lib.Assoc
import VaporForge.Lib.KeySet

/-!
# The work lists of the user-stats worker

The part of `hooks/src/client/user_stats.rs` that decides what the worker reads and
refreshes next. Reads are queued in a `VecDeque` with a `HashSet` beside it, refreshes in
a `VecDeque` with a `HashMap` beside it, and a read of an app that is being refreshed is
parked until the refresh is over. All of it sits behind one mutex, so a run is a list of
calls.

> along every run the queue and its set agree, the order and its map agree, nothing is
> queued for reading while its app is refreshed, and whatever is parked waits for a
> refresh that is pending or in flight (`work_is_never_stranded`).

Playtime samples, the client id and debug queries live in the same struct and are left
out; no call modelled here reads them.
-/

namespace VaporForge.Client

open VaporForge.CloudCore
open Lib

structure StatsRefreshGuard where
  credentialFingerprint : String
  steamId64 : Nat
  identityGeneration : Nat
  clientId : Nat
  runtimeGeneration : Nat
  deriving DecidableEq, Repr

structure StatsSnapshotIntent where
  marker : StatsCommit
  guard : StatsRefreshGuard
  deriving DecidableEq, Repr

namespace StatsSnapshotIntent

def appId (intent : StatsSnapshotIntent) : Nat := intent.marker.appId

/-- Two intents are equal, in the sense of the hand-written `PartialEq`, when they agree
on everything except the time stamp of the marker. -/
def key (intent : StatsSnapshotIntent) : StatsSnapshotIntent :=
  { intent with marker := { intent.marker with observedAt := 0 } }

theorem appId_key (intent : StatsSnapshotIntent) : intent.key.appId = intent.appId := rfl

variable {intent : StatsSnapshotIntent}

theorem appId_eq_of_key {intent' : StatsSnapshotIntent} (h : intent.key = intent'.key) :
    intent.appId = intent'.appId := by
  rw [← intent.appId_key, h, intent'.appId_key]

end StatsSnapshotIntent

abbrev IntentSet := KeySet StatsSnapshotIntent.key

structure RefreshRequest where
  appId : Nat
  refreshGuard : Option StatsRefreshGuard
  deriving DecidableEq, Repr

inductive SnapshotRequest where
  | read
  | refreshThenRead
  deriving DecidableEq, Repr

structure WorkerState where
  pendingReads : List StatsSnapshotIntent
  queuedReads : IntentSet
  activeReads : IntentSet
  readsAfterRefresh : IntentSet
  pendingRefreshOrder : List Nat
  pendingRefreshes : Assoc Nat RefreshRequest
  activeRefreshes : Finset Nat

namespace WorkerState

/-- `WorkerState::default()`, and what a context change leaves. -/
def cleared : WorkerState := ⟨[], .empty, .empty, .empty, [], ∅, ∅⟩

/-- A refresh of the app is waiting or in flight. -/
def Refreshing (s : WorkerState) (appId : Nat) : Prop :=
  appId ∈ s.activeRefreshes ∨ appId ∈ s.pendingRefreshes

instance decidableRefreshing (s : WorkerState) (appId : Nat) : Decidable (s.Refreshing appId) :=
  inferInstanceAs (Decidable (_ ∨ _))

/-! ## The calls -/

def queueReadLocked (s : WorkerState) (intent : StatsSnapshotIntent) : WorkerState :=
  if s.Refreshing intent.appId then
    { s with readsAfterRefresh := s.readsAfterRefresh.insert intent }
  else if s.queuedReads.contains intent then s
  else
    { s with
      queuedReads := s.queuedReads.insert intent
      pendingReads := s.pendingReads ++ [intent] }

def queueRefreshLocked (s : WorkerState) (appId : Nat) (guard : Option StatsRefreshGuard) :
    WorkerState :=
  match s.pendingRefreshes.lookup appId with
  | some _ =>
    if guard.isSome then
      { s with
        pendingRefreshes := s.pendingRefreshes.adjust appId fun pending =>
          { pending with refreshGuard := guard } }
    else s
  | none =>
    -- the order of these two only shows in the order of a set, which nothing depends on
    let queuedForApp := s.queuedReads.elems.filter fun intent => intent.appId = appId
    let activeForApp := s.activeReads.elems.filter fun intent => intent.appId = appId
    { s with
      queuedReads := s.queuedReads.removeAll queuedForApp
      pendingReads := s.pendingReads.filter fun intent => intent.appId ≠ appId
      readsAfterRefresh :=
        (s.readsAfterRefresh.insertAll queuedForApp).insertAll activeForApp
      pendingRefreshOrder := s.pendingRefreshOrder ++ [appId]
      pendingRefreshes := s.pendingRefreshes.insert appId ⟨appId, guard⟩ }

def queueSnapshotLocked (s : WorkerState) (intent : StatsSnapshotIntent)
    (request : SnapshotRequest) : WorkerState :=
  match request with
  | .read => s.queueReadLocked intent
  | .refreshThenRead =>
    if s.queuedReads.contains intent || s.activeReads.contains intent ||
        s.readsAfterRefresh.contains intent then s
    else
      { s with readsAfterRefresh := s.readsAfterRefresh.insert intent }.queueRefreshLocked
        intent.appId (some intent.guard)

def queueSnapshot (s : WorkerState) (intent : StatsSnapshotIntent) (request : SnapshotRequest) :
    WorkerState :=
  if intent.appId = 0 then s else s.queueSnapshotLocked intent request

def queueRefresh (s : WorkerState) (appId : Nat) (guard : Option StatsRefreshGuard) :
    WorkerState :=
  if appId = 0 then s else s.queueRefreshLocked appId guard

/-- `queue_durable_stats_recovery`, on the intents of controlled apps. -/
def queueDurableStatsRecovery (s : WorkerState) (intents : List StatsSnapshotIntent) :
    WorkerState :=
  intents.foldl (fun s intent => s.queueSnapshotLocked intent .refreshThenRead) s

def takeRead (s : WorkerState) : Option StatsSnapshotIntent × WorkerState :=
  match s.pendingReads with
  | [] => (none, s)
  | intent :: rest =>
    (some intent,
      { s with
        pendingReads := rest
        queuedReads := s.queuedReads.remove intent
        activeReads := s.activeReads.insert intent })

def finishRead (s : WorkerState) (intent : StatsSnapshotIntent) : WorkerState :=
  { s with activeReads := s.activeReads.remove intent }

/-- The loop of `take_refresh`: apps that are being refreshed go to the back. -/
def takeRefreshLoop : Nat → WorkerState → Option RefreshRequest × WorkerState
  | 0, s => (none, s)
  | n + 1, s =>
    match s.pendingRefreshOrder with
    | [] => (none, s)
    | appId :: rest =>
      if appId ∈ s.activeRefreshes then
        takeRefreshLoop n { s with pendingRefreshOrder := rest ++ [appId] }
      else
        match s.pendingRefreshes.lookup appId with
        | none => takeRefreshLoop n { s with pendingRefreshOrder := rest }
        | some request =>
          (some request,
            { s with
              pendingRefreshOrder := rest
              pendingRefreshes := s.pendingRefreshes.erase appId
              activeRefreshes := insert appId s.activeRefreshes })

def takeRefresh (s : WorkerState) : Option RefreshRequest × WorkerState :=
  takeRefreshLoop s.pendingRefreshOrder.length s

/-- `finish_refresh`. The parked reads come back in the order of a hash set's iterator. -/
def finishRefresh (order : Arrangement StatsSnapshotIntent) (s : WorkerState) (appId : Nat)
    (succeeded : Bool) : WorkerState :=
  let s := { s with activeRefreshes := s.activeRefreshes.erase appId }
  if appId ∈ s.pendingRefreshes then s
  else
    let reads := order.arrange
      (s.readsAfterRefresh.elems.filter fun intent => intent.appId = appId)
    let s := { s with readsAfterRefresh := s.readsAfterRefresh.removeAll reads }
    if succeeded then reads.foldl queueReadLocked s else s

/-! ## The invariant -/

/-- Queue and set, order and map agree, and no read is queued during a refresh. -/
structure Consistent (s : WorkerState) : Prop where
  reads_nodup : (s.pendingReads.map StatsSnapshotIntent.key).Nodup
  reads_mem : ∀ intent, intent ∈ s.pendingReads ↔ intent ∈ s.queuedReads.elems
  order_nodup : s.pendingRefreshOrder.Nodup
  order_mem : ∀ appId, appId ∈ s.pendingRefreshOrder ↔ appId ∈ s.pendingRefreshes
  queued_idle : ∀ intent ∈ s.queuedReads.elems, ¬ s.Refreshing intent.appId

/-- And every parked read waits for a refresh. -/
structure Inv (s : WorkerState) : Prop extends Consistent s where
  parked_waits : ∀ intent ∈ s.readsAfterRefresh.elems, s.Refreshing intent.appId

theorem inv_cleared : Inv cleared where
  reads_nodup := List.nodup_nil
  reads_mem := fun _ => Iff.rfl
  order_nodup := List.nodup_nil
  order_mem := fun _ => by simp [cleared]
  queued_idle := fun _ h => absurd h List.not_mem_nil
  parked_waits := fun _ h => absurd h List.not_mem_nil

variable {s : WorkerState}

theorem Inv.queueReadLocked (h : Inv s) (intent : StatsSnapshotIntent) :
    Inv (s.queueReadLocked intent) := by
  unfold WorkerState.queueReadLocked
  split
  · next hrefreshing =>
    refine { h with parked_waits := fun parked hparked => ?_ }
    rcases (KeySet.mem_insert ..).mp hparked with hold | ⟨rfl, _⟩
    · exact h.parked_waits parked hold
    · exact hrefreshing
  next hidle =>
  split
  · exact h
  next hnew =>
    rw [KeySet.contains_iff] at hnew
    refine { h with reads_nodup := ?_, reads_mem := fun other => ?_, queued_idle := ?_ }
    · rw [List.map_append, List.map_singleton, List.nodup_append]
      refine ⟨h.reads_nodup, List.nodup_singleton _, fun key hkey key' hkey' heq => hnew ?_⟩
      obtain ⟨queued, hqueued, rfl⟩ := List.mem_map.mp hkey
      exact ⟨queued, (h.reads_mem queued).mp hqueued, heq.trans (List.mem_singleton.mp hkey')⟩
    · rw [List.mem_append, List.mem_singleton, h.reads_mem, KeySet.mem_insert,
        and_iff_left hnew]
    · intro queued hqueued
      rcases (KeySet.mem_insert ..).mp hqueued with hold | ⟨rfl, _⟩
      · exact h.queued_idle queued hold
      · exact hidle

/-- A refresh takes over the reads of its app, so it also covers a read that was parked
for it a moment earlier. -/
theorem Consistent.queueRefreshLocked (h : Consistent s) (appId : Nat)
    (guard : Option StatsRefreshGuard)
    (hparked : ∀ intent ∈ s.readsAfterRefresh.elems,
      s.Refreshing intent.appId ∨ intent.appId = appId) :
    Inv (s.queueRefreshLocked appId guard) := by
  unfold WorkerState.queueRefreshLocked
  split
  · next pending hpending =>
    have hmem : appId ∈ s.pendingRefreshes := by
      rw [← AList.lookup_isSome, hpending]
      rfl
    have hparked' : ∀ intent ∈ s.readsAfterRefresh.elems, s.Refreshing intent.appId := by
      intro intent hintent
      rcases hparked intent hintent with hrefreshing | rfl
      · exact hrefreshing
      · exact .inr hmem
    split
    · have hsame : ∀ app, app ∈ s.pendingRefreshes.adjust appId
          (fun pending => { pending with refreshGuard := guard }) ↔ app ∈ s.pendingRefreshes :=
        Assoc.mem_adjust _ _ _
      refine ⟨⟨h.reads_nodup, h.reads_mem, h.order_nodup, fun app => ?_, fun intent hintent => ?_⟩,
        fun intent hintent => ?_⟩
      · rw [h.order_mem, hsame]
      · show ¬ (_ ∨ _)
        rw [hsame]
        exact h.queued_idle intent hintent
      · show _ ∨ _
        rw [hsame]
        exact hparked' intent hintent
    · exact ⟨h, hparked'⟩
  next hnone =>
    have hnew : appId ∉ s.pendingRefreshes := by
      rw [← AList.lookup_isSome, hnone]
      exact Bool.false_ne_true
    have hrest : ∀ intent, intent ∈ (s.queuedReads.removeAll
        (s.queuedReads.elems.filter fun intent => intent.appId = appId)).elems ↔
        intent ∈ s.queuedReads.elems ∧ intent.appId ≠ appId := by
      intro intent
      rw [KeySet.mem_removeAll]
      refine and_congr_right fun hqueued => ?_
      constructor
      · intro hall happ
        exact hall intent (List.mem_filter.mpr ⟨hqueued, by simpa using happ⟩) rfl
      · intro happ other hother hkey
        have hothers := (List.mem_filter.mp hother).2
        rw [decide_eq_true_eq] at hothers
        exact happ ((StatsSnapshotIntent.appId_eq_of_key hkey).trans hothers)
    refine ⟨⟨?_, ?_, ?_, ?_, ?_⟩, ?_⟩
    · exact (List.filter_sublist.map _).nodup h.reads_nodup
    · intro intent
      rw [hrest, List.mem_filter, h.reads_mem, decide_eq_true_eq]
    · rw [List.nodup_append]
      refine ⟨h.order_nodup, List.nodup_singleton _, fun app happ app' happ' heq => hnew ?_⟩
      rw [← List.mem_singleton.mp happ', ← heq]
      exact (h.order_mem app).mp happ
    · intro app
      rw [List.mem_append, List.mem_singleton, h.order_mem, AList.mem_insert, or_comm]
    · intro intent hintent hrefreshing
      obtain ⟨hqueued, happ⟩ := (hrest intent).mp hintent
      rcases hrefreshing with hactive | hpending
      · exact h.queued_idle intent hqueued (.inl hactive)
      · rcases (AList.mem_insert _).mp hpending with hsame | hpending
        · exact happ hsame
        · exact h.queued_idle intent hqueued (.inr hpending)
    · intro intent hintent
      have hcovers : intent.appId = appId ∨ s.Refreshing intent.appId := by
        rcases KeySet.of_mem_insertAll hintent with hintent | hactive
        · rcases KeySet.of_mem_insertAll hintent with hold | hqueued
          · exact (hparked intent hold).symm
          · exact .inl (by simpa using (List.mem_filter.mp hqueued).2)
        · exact .inl (by simpa using (List.mem_filter.mp hactive).2)
      rcases hcovers with hsame | hactive | hpending
      · exact .inr ((AList.mem_insert _).mpr (.inl hsame))
      · exact .inl hactive
      · exact .inr ((AList.mem_insert _).mpr (.inr hpending))

theorem Inv.queueRefreshLocked (h : Inv s) (appId : Nat) (guard : Option StatsRefreshGuard) :
    Inv (s.queueRefreshLocked appId guard) :=
  h.toConsistent.queueRefreshLocked appId guard fun intent hintent =>
    .inl (h.parked_waits intent hintent)

theorem Inv.queueSnapshotLocked (h : Inv s) (intent : StatsSnapshotIntent)
    (request : SnapshotRequest) : Inv (s.queueSnapshotLocked intent request) := by
  cases request with
  | read => exact h.queueReadLocked intent
  | refreshThenRead =>
    unfold WorkerState.queueSnapshotLocked
    dsimp only
    split
    · exact h
    · -- the intent is parked before its refresh is queued
      have hparked : Consistent
          { s with readsAfterRefresh := s.readsAfterRefresh.insert intent } :=
        ⟨h.reads_nodup, h.reads_mem, h.order_nodup, h.order_mem, h.queued_idle⟩
      refine hparked.queueRefreshLocked _ _ fun parked hin => ?_
      rcases (KeySet.mem_insert ..).mp hin with hold | ⟨rfl, _⟩
      · exact .inl (h.parked_waits parked hold)
      · exact .inr rfl

theorem Inv.queueDurableStatsRecovery (h : Inv s) (intents : List StatsSnapshotIntent) :
    Inv (s.queueDurableStatsRecovery intents) := by
  induction intents generalizing s with
  | nil => exact h
  | cons intent intents ih => exact ih (h.queueSnapshotLocked intent .refreshThenRead)

theorem Inv.takeRead (h : Inv s) : Inv s.takeRead.2 := by
  unfold WorkerState.takeRead
  split
  · exact h
  next intent rest hreads =>
    have hnodup := h.reads_nodup
    have hmem := h.reads_mem
    rw [hreads, List.map_cons, List.nodup_cons] at hnodup
    rw [hreads] at hmem
    refine ⟨⟨hnodup.2, fun other => ?_, h.order_nodup, h.order_mem, fun other hother => ?_⟩,
      h.parked_waits⟩
    · rw [KeySet.mem_remove, ← hmem, List.mem_cons]
      constructor
      · intro hrest
        exact ⟨.inr hrest, fun hkey => hnodup.1 (List.mem_map.mpr ⟨other, hrest, hkey⟩)⟩
      · rintro ⟨rfl | hrest, hkey⟩
        · exact absurd rfl hkey
        · exact hrest
    · exact h.queued_idle other ((KeySet.mem_remove ..).mp hother).1

theorem Inv.finishRead (h : Inv s) (intent : StatsSnapshotIntent) : Inv (s.finishRead intent) :=
  ⟨⟨h.reads_nodup, h.reads_mem, h.order_nodup, h.order_mem, h.queued_idle⟩, h.parked_waits⟩

variable {appId : Nat} {rest : List Nat}

/-- One app goes to the back of the order. -/
theorem Inv.rotate (h : Inv s) (horder : s.pendingRefreshOrder = appId :: rest) :
    Inv { s with pendingRefreshOrder := rest ++ [appId] } := by
  have hperm : (rest ++ [appId]).Perm s.pendingRefreshOrder := by
    rw [horder]
    exact List.perm_append_singleton appId rest
  refine ⟨⟨h.reads_nodup, h.reads_mem, ?_, fun app => ?_, h.queued_idle⟩, h.parked_waits⟩
  · exact hperm.nodup_iff.mpr h.order_nodup
  · exact hperm.mem_iff.trans (h.order_mem app)

/-- One refresh starts: it stops pending and becomes active, which is still a refresh. -/
theorem Inv.admit (h : Inv s) (horder : s.pendingRefreshOrder = appId :: rest) :
    Inv { s with
      pendingRefreshOrder := rest
      pendingRefreshes := s.pendingRefreshes.erase appId
      activeRefreshes := insert appId s.activeRefreshes } := by
  have hnodup := h.order_nodup
  have hmem := h.order_mem
  rw [horder, List.nodup_cons] at hnodup
  rw [horder] at hmem
  have hpending : appId ∈ s.pendingRefreshes := (hmem appId).mp List.mem_cons_self
  have hsame : ∀ app, (app ∈ insert appId s.activeRefreshes ∨
      app ∈ s.pendingRefreshes.erase appId) ↔ s.Refreshing app := by
    intro app
    rw [Finset.mem_insert, AList.mem_erase]
    by_cases happ : app = appId
    · subst happ
      simp [Refreshing, hpending]
    · simp [Refreshing, happ]
  refine ⟨⟨h.reads_nodup, h.reads_mem, hnodup.2, fun app => ?_, fun intent hintent => ?_⟩,
    fun intent hintent => ?_⟩
  · rw [AList.mem_erase, ← hmem, List.mem_cons]
    constructor
    · intro hrest
      exact ⟨fun heq => hnodup.1 (heq ▸ hrest), .inr hrest⟩
    · rintro ⟨hne, heq | hrest⟩
      · exact absurd heq hne
      · exact hrest
  · exact fun hrefreshing => h.queued_idle intent hintent ((hsame _).mp hrefreshing)
  · exact (hsame _).mpr (h.parked_waits intent hintent)

theorem Inv.takeRefreshLoop (n : Nat) (h : Inv s) : Inv (takeRefreshLoop n s).2 := by
  induction n generalizing s with
  | zero => exact h
  | succ n ih =>
    rw [WorkerState.takeRefreshLoop]
    split
    · exact h
    next appId rest horder =>
    split
    · exact ih (h.rotate horder)
    split
    · -- the order lists only apps of the map
      next hnone =>
      have hpending := (h.order_mem appId).mp (horder ▸ List.mem_cons_self)
      rw [← AList.lookup_isSome, hnone] at hpending
      exact absurd hpending Bool.false_ne_true
    · exact h.admit horder

theorem Inv.lookup_isSome (h : Inv s) (hmem : appId ∈ s.pendingRefreshOrder) :
    (s.pendingRefreshes.lookup appId).isSome :=
  AList.lookup_isSome.mpr ((h.order_mem appId).mp hmem)

/-- The loop takes the first of the apps it still visits that is not being refreshed. -/
theorem takeRefreshLoop_eq (h : Inv s) (visits skipped : List Nat)
    (horder : s.pendingRefreshOrder = visits ++ skipped) :
    (takeRefreshLoop visits.length s).1 =
      (visits.find? (· ∉ s.activeRefreshes)).bind s.pendingRefreshes.lookup := by
  induction visits generalizing s skipped with
  | nil => rfl
  | cons appId visits ih =>
    rw [List.length_cons, takeRefreshLoop, horder, List.cons_append]
    dsimp only
    split
    · next hactive =>
      rw [List.find?_cons_of_neg (by simpa using hactive)]
      exact ih (h.rotate horder) (skipped ++ [appId]) (List.append_assoc ..)
    · next hidle =>
      have hwaits : (s.pendingRefreshes.lookup appId).isSome :=
        h.lookup_isSome (horder ▸ List.mem_cons_self)
      obtain ⟨request, hrequest⟩ := Option.isSome_iff_exists.mp hwaits
      rw [List.find?_cons_of_pos (by simpa using hidle), Option.bind_some, hrequest]

/-- The refresh of an app is over, and the reads that waited for it go. -/
theorem Inv.release (h : Inv s) {reads : List StatsSnapshotIntent}
    (hreads : ∀ intent, intent ∈ reads ↔ intent ∈ s.readsAfterRefresh.elems ∧ intent.appId = appId)
    :
    Inv { s with
      activeRefreshes := s.activeRefreshes.erase appId
      readsAfterRefresh := s.readsAfterRefresh.removeAll reads } := by
  refine ⟨⟨h.reads_nodup, h.reads_mem, h.order_nodup, h.order_mem, fun intent hintent => ?_⟩,
    fun intent hintent => ?_⟩
  · rintro (hactive | hpending)
    · exact h.queued_idle intent hintent (.inl (Finset.mem_of_mem_erase hactive))
    · exact h.queued_idle intent hintent (.inr hpending)
  · obtain ⟨hparked, hkept⟩ := (KeySet.mem_removeAll ..).mp hintent
    have hother : intent.appId ≠ appId := fun happ =>
      hkept intent ((hreads intent).mpr ⟨hparked, happ⟩) rfl
    rcases h.parked_waits intent hparked with hactive | hpending
    · exact .inl (Finset.mem_erase.mpr ⟨hother, hactive⟩)
    · exact .inr hpending

theorem Inv.foldl_queueReadLocked (h : Inv s) (reads : List StatsSnapshotIntent) :
    Inv (reads.foldl WorkerState.queueReadLocked s) := by
  induction reads generalizing s with
  | nil => exact h
  | cons intent reads ih => exact ih (h.queueReadLocked intent)

theorem mem_reads (order : Arrangement StatsSnapshotIntent) (s : WorkerState) (appId : Nat)
    (intent : StatsSnapshotIntent) :
    intent ∈ order.arrange (s.readsAfterRefresh.elems.filter fun i => i.appId = appId) ↔
      intent ∈ s.readsAfterRefresh.elems ∧ intent.appId = appId := by
  rw [order.mem_arrange, List.mem_filter, decide_eq_true_eq]

theorem Inv.finishRefresh (h : Inv s) (order : Arrangement StatsSnapshotIntent) (appId : Nat)
    (succeeded : Bool) : Inv (s.finishRefresh order appId succeeded) := by
  unfold WorkerState.finishRefresh
  dsimp only
  split
  · next hpending =>
    -- the app stays a refreshing one: another refresh is pending
    refine ⟨⟨h.reads_nodup, h.reads_mem, h.order_nodup, h.order_mem, fun intent hintent => ?_⟩,
      fun intent hintent => ?_⟩
    · rintro (hactive | hother)
      · exact h.queued_idle intent hintent (.inl (Finset.mem_of_mem_erase hactive))
      · exact h.queued_idle intent hintent (.inr hother)
    · rcases h.parked_waits intent hintent with hactive | hother
      · by_cases happ : intent.appId = appId
        · exact .inr (happ ▸ hpending)
        · exact .inl (Finset.mem_erase.mpr ⟨happ, hactive⟩)
      · exact .inr hother
  · have hreleased := h.release (mem_reads order s appId)
    split
    · exact hreleased.foldl_queueReadLocked _
    · exact hreleased

/-- Reads of apps nobody refreshes go to the queue, and the parked ones stay as they
are. -/
theorem foldl_queueReadLocked_idle (reads : List StatsSnapshotIntent)
    (hidle : ∀ intent ∈ reads, ¬ s.Refreshing intent.appId) :
    (reads.foldl queueReadLocked s).readsAfterRefresh = s.readsAfterRefresh ∧
      (∀ key, s.queuedReads.Has key → (reads.foldl queueReadLocked s).queuedReads.Has key) ∧
      ∀ intent ∈ reads, (reads.foldl queueReadLocked s).queuedReads.Has intent.key := by
  induction reads generalizing s with
  | nil => exact ⟨rfl, fun _ h => h, fun _ h => absurd h List.not_mem_nil⟩
  | cons intent reads ih =>
    rw [List.forall_mem_cons] at hidle
    have hstep : (s.queueReadLocked intent).readsAfterRefresh = s.readsAfterRefresh ∧
        (∀ app, (s.queueReadLocked intent).Refreshing app ↔ s.Refreshing app) ∧
        (∀ key, s.queuedReads.Has key → (s.queueReadLocked intent).queuedReads.Has key) ∧
        (s.queueReadLocked intent).queuedReads.Has intent.key := by
      unfold queueReadLocked
      rw [if_neg hidle.1]
      split
      · next hqueued => exact ⟨rfl, fun _ => Iff.rfl, fun _ h => h, (KeySet.contains_iff ..).mp hqueued⟩
      · refine ⟨rfl, fun _ => Iff.rfl, ?_, KeySet.has_insert ..⟩
        rintro key ⟨queued, hqueued, hkey⟩
        exact ⟨queued, (KeySet.mem_insert ..).mpr (.inl hqueued), hkey⟩
    obtain ⟨hparked, hsame, hkept, hqueued⟩ := hstep
    obtain ⟨hparked', hkept', hall⟩ := ih fun other hother => by
      rw [hsame]
      exact hidle.2 other hother
    rw [List.foldl_cons]
    refine ⟨hparked'.trans hparked, fun key hkey => hkept' key (hkept key hkey), ?_⟩
    exact List.forall_mem_cons.mpr ⟨hkept' _ hqueued, hall⟩

/-- When the refresh of its app is over and no further one is pending, a parked read is
not parked any more, and after a success it is queued. -/
theorem finishRefresh_released (order : Arrangement StatsSnapshotIntent)
    (hparked : intent ∈ s.readsAfterRefresh.elems) (hlast : intent.appId ∉ s.pendingRefreshes)
    (succeeded : Bool) :
    ¬ (s.finishRefresh order intent.appId succeeded).readsAfterRefresh.Has intent.key ∧
      (succeeded = true →
        (s.finishRefresh order intent.appId succeeded).queuedReads.Has intent.key) := by
  have hmem := mem_reads order s intent.appId
  have hgone : ¬ (s.readsAfterRefresh.removeAll (order.arrange
      (s.readsAfterRefresh.elems.filter fun i => i.appId = intent.appId))).Has intent.key := by
    rintro ⟨other, hother, hkey⟩
    obtain ⟨_, hkept⟩ := (KeySet.mem_removeAll ..).mp hother
    exact hkept intent ((hmem intent).mpr ⟨hparked, rfl⟩) hkey
  unfold WorkerState.finishRefresh
  dsimp only
  rw [if_neg hlast]
  cases succeeded with
  | false => exact ⟨hgone, fun hok => absurd hok Bool.false_ne_true⟩
  | true =>
    rw [if_pos rfl]
    obtain ⟨hsame, _, hall⟩ := foldl_queueReadLocked_idle (s := { s with
        activeRefreshes := s.activeRefreshes.erase intent.appId
        readsAfterRefresh := s.readsAfterRefresh.removeAll (order.arrange
          (s.readsAfterRefresh.elems.filter fun i => i.appId = intent.appId)) })
      (order.arrange (s.readsAfterRefresh.elems.filter fun i => i.appId = intent.appId)) (by
        intro other hother
        rw [((hmem other).mp hother).2]
        rintro (hactive | hpending)
        · exact absurd rfl (Finset.mem_erase.mp hactive).1
        · exact hlast hpending)
    refine ⟨?_, fun _ => hall intent ((hmem intent).mpr ⟨hparked, rfl⟩)⟩
    rw [hsame]
    exact hgone

end WorkerState

/-! ## Runs -/

/-- One critical section of the worker's mutex. -/
inductive WorkerCall where
  | queueSnapshot (intent : StatsSnapshotIntent) (request : SnapshotRequest)
  | queueRefresh (appId : Nat) (guard : Option StatsRefreshGuard)
  | queueDurableStatsRecovery (intents : List StatsSnapshotIntent)
  | takeRead
  | finishRead (intent : StatsSnapshotIntent)
  | takeRefresh
  | finishRefresh (order : Arrangement StatsSnapshotIntent) (appId : Nat) (succeeded : Bool)
  | notifyContextChanged

def WorkerCall.run (s : WorkerState) : WorkerCall → WorkerState
  | .queueSnapshot intent request => s.queueSnapshot intent request
  | .queueRefresh appId guard => s.queueRefresh appId guard
  | .queueDurableStatsRecovery intents => s.queueDurableStatsRecovery intents
  | .takeRead => s.takeRead.2
  | .finishRead intent => s.finishRead intent
  | .takeRefresh => s.takeRefresh.2
  | .finishRefresh order appId succeeded => s.finishRefresh order appId succeeded
  | .notifyContextChanged => .cleared

theorem WorkerCall.run_inv {s : WorkerState} (h : s.Inv) (call : WorkerCall) : (call.run s).Inv := by
  cases call with
  | queueSnapshot intent request =>
    show (s.queueSnapshot intent request).Inv
    unfold WorkerState.queueSnapshot
    split
    · exact h
    · exact h.queueSnapshotLocked intent request
  | queueRefresh appId guard =>
    show (s.queueRefresh appId guard).Inv
    unfold WorkerState.queueRefresh
    split
    · exact h
    · exact h.queueRefreshLocked appId guard
  | queueDurableStatsRecovery intents => exact h.queueDurableStatsRecovery intents
  | takeRead => exact h.takeRead
  | finishRead intent => exact h.finishRead intent
  | takeRefresh => exact h.takeRefreshLoop _
  | finishRefresh order appId succeeded => exact h.finishRefresh order appId succeeded
  | notifyContextChanged => exact WorkerState.inv_cleared

/-- The state after the calls, whoever made them. -/
def workerAfter (calls : List WorkerCall) : WorkerState :=
  calls.foldl WorkerCall.run .cleared

theorem workerAfter_inv (calls : List WorkerCall) : (workerAfter calls).Inv := by
  have hrun : ∀ (calls : List WorkerCall) (s : WorkerState), s.Inv →
      (calls.foldl WorkerCall.run s).Inv := by
    intro calls
    induction calls with
    | nil => exact fun _ h => h
    | cons call calls ih => exact fun s h => ih _ (call.run_inv h)
  exact hrun calls _ WorkerState.inv_cleared

/-- **No work is stranded or queued twice**, in any state the calls can lead to, in any
order and over any apps and intents. -/
theorem work_is_never_stranded (calls : List WorkerCall) :
    ((workerAfter calls).pendingReads.map StatsSnapshotIntent.key).Nodup ∧
    (∀ intent, intent ∈ (workerAfter calls).pendingReads ↔
      intent ∈ (workerAfter calls).queuedReads.elems) ∧
    (workerAfter calls).pendingRefreshOrder.Nodup ∧
    (∀ appId, appId ∈ (workerAfter calls).pendingRefreshOrder ↔
      appId ∈ (workerAfter calls).pendingRefreshes) ∧
    (∀ intent ∈ (workerAfter calls).queuedReads.elems,
      ¬ (workerAfter calls).Refreshing intent.appId) ∧
    (∀ intent ∈ (workerAfter calls).readsAfterRefresh.elems,
      (workerAfter calls).Refreshing intent.appId ∧
      (intent.appId ∉ (workerAfter calls).pendingRefreshes →
        ∀ (order : Arrangement StatsSnapshotIntent) (succeeded : Bool),
          ¬ ((workerAfter calls).finishRefresh order intent.appId
            succeeded).readsAfterRefresh.Has intent.key ∧
          (succeeded = true → ((workerAfter calls).finishRefresh order intent.appId
            succeeded).queuedReads.Has intent.key))) := by
  have h := workerAfter_inv calls
  refine ⟨h.reads_nodup, h.reads_mem, h.order_nodup, h.order_mem, h.queued_idle, ?_⟩
  intro intent hparked
  exact ⟨h.parked_waits intent hparked, fun hlast order succeeded =>
    WorkerState.finishRefresh_released order hparked hlast succeeded⟩

/-- After any calls, whoever asks for a refresh gets the request of the first app in the order
that is not being refreshed; every app in the order has one. -/
theorem first_idle_refresh_taken (calls : List WorkerCall) :
    let s := workerAfter calls
    s.takeRefresh.1 =
        (s.pendingRefreshOrder.find? (· ∉ s.activeRefreshes)).bind s.pendingRefreshes.lookup ∧
      ∀ appId ∈ s.pendingRefreshOrder, (s.pendingRefreshes.lookup appId).isSome :=
  ⟨WorkerState.takeRefreshLoop_eq (workerAfter_inv calls) _ [] (List.append_nil _).symm,
    fun _ => (workerAfter_inv calls).lookup_isSome⟩

end VaporForge.Client
