import VaporForge.Client.StatsWorker

/-!
# A read reflects the refreshes before it

A read of an app's stats that is queued or under way when a refresh of the app is queued would
give what was there before the refresh. The worker of `hooks/src/client/user_stats.rs` parks
it until the refresh is over.

> Such a read stays parked until that refresh has finished, and from then on it is queued or
> parked until it is taken; only a refresh of its app that fails, or a new context, drops it
> (`read_again_after_refresh`).

A second refresh that is queued while the first is pending changes nothing, and it need not:
every read under way is parked already (`ActiveParked`).
-/

namespace VaporForge.Client

open VaporForge.CloudCore
open Lib

namespace WorkerState

/-- The intent will be read: it is queued or parked. -/
def Waiting (s : WorkerState) (intent : StatsSnapshotIntent) : Prop :=
  s.queuedReads.Has intent.key ∨ s.readsAfterRefresh.Has intent.key

/-- The same reads are under way, what is parked stays parked, and what is queued keeps
waiting. -/
structure Keeps (s s' : WorkerState) : Prop where
  active : s'.activeReads = s.activeReads
  parked : ∀ key, s.readsAfterRefresh.Has key → s'.readsAfterRefresh.Has key
  queued : ∀ key, s.queuedReads.Has key → s'.queuedReads.Has key ∨ s'.readsAfterRefresh.Has key

theorem Keeps.refl (s : WorkerState) : Keeps s s := ⟨rfl, fun _ h => h, fun _ h => .inl h⟩

variable {s s' : WorkerState} {intent : StatsSnapshotIntent}

theorem Keeps.trans {s'' : WorkerState} (h : Keeps s s') (h' : Keeps s' s'') :
    Keeps s s'' where
  active := h'.active.trans h.active
  parked := fun key hkey => h'.parked key (h.parked key hkey)
  queued := fun key hkey => by
    rcases h.queued key hkey with hqueued | hparked
    · exact h'.queued key hqueued
    · exact .inr (h'.parked key hparked)

theorem Keeps.waiting (h : Keeps s s') (hwait : s.Waiting intent) : s'.Waiting intent := by
  rcases hwait with hqueued | hparked
  · exact h.queued _ hqueued
  · exact .inr (h.parked _ hparked)

/-- While a refresh of its app is pending, a read that is under way is parked. -/
def ActiveParked (s : WorkerState) : Prop :=
  ∀ intent ∈ s.activeReads.elems, intent.appId ∈ s.pendingRefreshes →
    s.readsAfterRefresh.Has intent.key

/-- No refresh is queued. -/
theorem ActiveParked.of_keeps (h : ActiveParked s) (hkeeps : Keeps s s')
    (hpending : ∀ appId, appId ∈ s'.pendingRefreshes → appId ∈ s.pendingRefreshes) :
    ActiveParked s' :=
  fun intent hintent happ =>
    hkeeps.parked _ (h intent (hkeeps.active ▸ hintent) (hpending _ happ))

/-! ## The calls -/

theorem keeps_queueReadLocked (s : WorkerState) (intent : StatsSnapshotIntent) :
    Keeps s (s.queueReadLocked intent) := by
  unfold queueReadLocked
  split
  · exact ⟨rfl, fun _ h => h.insert intent, fun _ h => .inl h⟩
  · split
    · exact .refl s
    · exact ⟨rfl, fun _ h => h, fun _ h => .inl (h.insert intent)⟩

theorem keeps_queueRefreshLocked (s : WorkerState) (appId : Nat)
    (guard : Option StatsRefreshGuard) : Keeps s (s.queueRefreshLocked appId guard) := by
  unfold queueRefreshLocked
  split
  · split
    · exact ⟨rfl, fun _ h => h, fun _ h => .inl h⟩
    · exact .refl s
  · refine ⟨rfl, fun _ h => (h.insertAll _).insertAll _, fun key h => ?_⟩
    obtain ⟨intent, hintent, rfl⟩ := h
    by_cases happ : intent.appId = appId
    · -- it moves from the queue to the parked ones
      have hmem : intent ∈ s.queuedReads.elems.filter fun i => i.appId = appId :=
        List.mem_filter.mpr ⟨hintent, decide_eq_true happ⟩
      exact .inr ((KeySet.has_insertAll _ hmem).insertAll _)
    · refine .inl ⟨intent, (KeySet.mem_removeAll ..).mpr ⟨hintent, ?_⟩, rfl⟩
      intro other hother hkey
      have hothers := of_decide_eq_true (List.mem_filter.mp hother).2
      exact happ ((StatsSnapshotIntent.appId_eq_of_key hkey).trans hothers)

theorem ActiveParked.queueRefreshLocked (h : ActiveParked s) (appId : Nat)
    (guard : Option StatsRefreshGuard) : ActiveParked (s.queueRefreshLocked appId guard) := by
  have hkeeps := s.keeps_queueRefreshLocked appId guard
  revert hkeeps
  unfold WorkerState.queueRefreshLocked
  split
  · split
    · exact fun hkeeps => h.of_keeps hkeeps fun app => (Assoc.mem_adjust ..).mp
    · exact fun _ => h
  · intro hkeeps intent hintent happ
    rcases (AList.mem_insert _).mp happ with hsame | hpending
    · have hmem : intent ∈ s.activeReads.elems.filter fun i => i.appId = appId :=
        List.mem_filter.mpr ⟨hintent, decide_eq_true hsame⟩
      exact KeySet.has_insertAll _ hmem
    · exact hkeeps.parked _ (h intent hintent hpending)

theorem queueReadLocked_pending (s : WorkerState) (intent : StatsSnapshotIntent) :
    (s.queueReadLocked intent).pendingRefreshes = s.pendingRefreshes := by
  unfold queueReadLocked
  split
  · rfl
  · split <;> rfl

theorem ActiveParked.queueReadLocked (h : ActiveParked s) (intent : StatsSnapshotIntent) :
    ActiveParked (s.queueReadLocked intent) :=
  h.of_keeps (s.keeps_queueReadLocked intent) fun _ happ =>
    s.queueReadLocked_pending intent ▸ happ

/-- One intent more is parked. -/
theorem keeps_park (s : WorkerState) (intent : StatsSnapshotIntent) :
    Keeps s { s with readsAfterRefresh := s.readsAfterRefresh.insert intent } :=
  ⟨rfl, fun _ h => h.insert intent, fun _ h => .inl h⟩

theorem queueSnapshotLocked_keeps (h : ActiveParked s) (intent : StatsSnapshotIntent)
    (request : SnapshotRequest) :
    Keeps s (s.queueSnapshotLocked intent request) ∧
      ActiveParked (s.queueSnapshotLocked intent request) := by
  cases request with
  | read => exact ⟨s.keeps_queueReadLocked intent, h.queueReadLocked intent⟩
  | refreshThenRead =>
    rw [queueSnapshotLocked]
    split
    · exact ⟨.refl s, h⟩
    · have hparked := h.of_keeps (s.keeps_park intent) fun _ happ => happ
      exact ⟨(s.keeps_park intent).trans (keeps_queueRefreshLocked _ _ _),
        hparked.queueRefreshLocked _ _⟩

theorem queueDurableStatsRecovery_keeps (h : ActiveParked s) (intents : List StatsSnapshotIntent) :
    Keeps s (s.queueDurableStatsRecovery intents) ∧
      ActiveParked (s.queueDurableStatsRecovery intents) := by
  induction intents generalizing s with
  | nil => exact ⟨.refl s, h⟩
  | cons intent intents ih =>
    obtain ⟨hkeeps, hactive⟩ := queueSnapshotLocked_keeps h intent .refreshThenRead
    obtain ⟨hrest, hresult⟩ := ih hactive
    exact ⟨hkeeps.trans hrest, hresult⟩

/-- A step of `take_refresh` moves no read and queues no refresh. -/
theorem takeRefreshLoop_keeps (n : Nat) (s : WorkerState) : Keeps s (takeRefreshLoop n s).2 ∧
    ∀ appId ∈ (takeRefreshLoop n s).2.pendingRefreshes, appId ∈ s.pendingRefreshes := by
  fun_induction takeRefreshLoop n s with
  | case1 | case2 => exact ⟨.refl _, fun _ h => h⟩
  | case3 _ _ _ _ _ _ ih =>
    exact ⟨⟨ih.1.active, ih.1.parked, ih.1.queued⟩, ih.2⟩
  | case4 _ _ _ _ _ _ _ ih =>
    exact ⟨⟨ih.1.active, ih.1.parked, ih.1.queued⟩, ih.2⟩
  | case5 =>
    exact ⟨⟨rfl, fun _ h => h, fun _ h => .inl h⟩, fun _ h => ((AList.mem_erase ..).mp h).2⟩

theorem keeps_foldl (reads : List StatsSnapshotIntent) (s : WorkerState) :
    Keeps s (reads.foldl queueReadLocked s) := by
  induction reads generalizing s with
  | nil => exact .refl s
  | cons intent reads ih => exact (s.keeps_queueReadLocked intent).trans (ih _)

theorem finishRefresh_queued (s : WorkerState) (order : Arrangement StatsSnapshotIntent)
    (appId : Nat) (succeeded : Bool) (h : s.queuedReads.Has intent.key) :
    (s.finishRefresh order appId succeeded).Waiting intent := by
  unfold finishRefresh
  dsimp only
  split
  · exact .inl h
  · split
    · exact (keeps_foldl _ _).waiting (.inl h)
    · exact .inl h

/-- The end of a refresh: of another app, or before a further one, it leaves a parked read where
it is, and otherwise it queues the read, or drops it when it failed. -/
theorem finishRefresh_parked (order : Arrangement StatsSnapshotIntent) (appId : Nat)
    (succeeded : Bool) (hparked : s.readsAfterRefresh.Has intent.key) :
    (s.finishRefresh order appId succeeded).readsAfterRefresh.Has intent.key ∨
      appId = intent.appId ∧ appId ∉ s.pendingRefreshes ∧
        (succeeded = true →
          (s.finishRefresh order appId succeeded).queuedReads.Has intent.key) := by
  obtain ⟨stored, hstored, hkey⟩ := hparked
  have happ := StatsSnapshotIntent.appId_eq_of_key hkey
  by_cases hpending : appId ∈ s.pendingRefreshes
  · refine .inl ⟨stored, ?_, hkey⟩
    unfold WorkerState.finishRefresh
    dsimp only
    rwa [if_pos hpending]
  by_cases hsame : appId = intent.appId
  · have hreleased := finishRefresh_released order hstored (by rwa [happ, ← hsame]) succeeded
    rw [happ, hkey, ← hsame] at hreleased
    exact .inr ⟨hsame, hpending, hreleased.2⟩
  · have hkept : stored ∈ (s.readsAfterRefresh.removeAll (order.arrange
        (s.readsAfterRefresh.elems.filter fun i => i.appId = appId))).elems := by
      refine (KeySet.mem_removeAll ..).mpr ⟨hstored, fun other hother hothers => hsame ?_⟩
      rw [← ((mem_reads order s appId other).mp hother).2, ← happ]
      exact (StatsSnapshotIntent.appId_eq_of_key hothers).symm
    refine .inl ?_
    unfold WorkerState.finishRefresh
    dsimp only
    rw [if_neg hpending]
    split
    · exact (keeps_foldl _ _).parked _ ⟨stored, hkept, hkey⟩
    · exact ⟨stored, hkept, hkey⟩

theorem takeRead_waiting (h : s.Waiting intent) : s.takeRead.2.Waiting intent ∨
      ∃ taken, s.takeRead.1 = some taken ∧ taken.key = intent.key := by
  rw [takeRead]
  split
  · exact .inl h
  · next taken rest _ =>
    by_cases htaken : taken.key = intent.key
    · exact .inr ⟨taken, rfl, htaken⟩
    · refine .inl (h.imp_left fun hqueued => ?_)
      obtain ⟨queued, hmem, hkey⟩ := hqueued
      refine ⟨queued, (KeySet.mem_remove ..).mpr ⟨hmem, fun hsame => htaken ?_⟩, hkey⟩
      exact hsame.symm.trans hkey

theorem ActiveParked.takeRead (h : ActiveParked s) (hinv : Inv s) : ActiveParked s.takeRead.2 := by
  rw [WorkerState.takeRead]
  split
  · exact h
  · next taken rest hreads =>
    intro intent hintent happ
    rcases (KeySet.mem_insert ..).mp hintent with hold | ⟨rfl, _⟩
    · exact h intent hold happ
    · -- a queued read has no refresh
      have hqueued := (hinv.reads_mem intent).mp (hreads ▸ List.mem_cons_self)
      exact absurd (.inr happ) (hinv.queued_idle intent hqueued)

theorem finishRefresh_same (s : WorkerState) (order : Arrangement StatsSnapshotIntent)
    (appId : Nat) (succeeded : Bool) :
    (s.finishRefresh order appId succeeded).activeReads = s.activeReads ∧
      (s.finishRefresh order appId succeeded).pendingRefreshes = s.pendingRefreshes := by
  have hpending : ∀ (reads : List StatsSnapshotIntent) (s : WorkerState),
      (reads.foldl queueReadLocked s).pendingRefreshes = s.pendingRefreshes := by
    intro reads
    induction reads with
    | nil => exact fun _ => rfl
    | cons intent reads ih => exact fun s => (ih _).trans (s.queueReadLocked_pending intent)
  unfold finishRefresh
  dsimp only
  split
  · exact ⟨rfl, rfl⟩
  · split
    · exact ⟨(keeps_foldl _ _).active, hpending _ _⟩
    · exact ⟨rfl, rfl⟩

theorem ActiveParked.finishRefresh (h : ActiveParked s) (order : Arrangement StatsSnapshotIntent)
    (appId : Nat) (succeeded : Bool) : ActiveParked (s.finishRefresh order appId succeeded) := by
  have hsame := s.finishRefresh_same order appId succeeded
  intro intent hintent happ
  rw [hsame.1] at hintent
  rw [hsame.2] at happ
  rcases finishRefresh_parked order appId succeeded (h intent hintent happ) with
    hparked | ⟨rfl, hnone, _⟩
  · exact hparked
  · exact absurd happ hnone

end WorkerState

/-! ## Runs -/

namespace WorkerCall

open WorkerState

/-- The two ways a waiting read is given up. -/
def Drops (appId : Nat) : WorkerCall → Prop
  | .finishRefresh _ app succeeded => app = appId ∧ succeeded = false
  | .notifyContextChanged => True
  | _ => False

variable {s : WorkerState}

/-- The calls that only add work. -/
def Adds : WorkerCall → Prop
  | .queueSnapshot .. | .queueRefresh .. | .queueDurableStatsRecovery _ | .takeRefresh => True
  | _ => False

variable {call : WorkerCall}

theorem Adds.keeps (hadds : call.Adds) (h : s.ActiveParked) :
    s.Keeps (call.run s) ∧ (call.run s).ActiveParked := by
  cases call with
  | queueSnapshot intent request =>
    rw [run, WorkerState.queueSnapshot]
    split
    · exact ⟨.refl s, h⟩
    · exact queueSnapshotLocked_keeps h intent request
  | queueRefresh appId guard =>
    rw [run, WorkerState.queueRefresh]
    split
    · exact ⟨.refl s, h⟩
    · exact ⟨s.keeps_queueRefreshLocked appId guard, h.queueRefreshLocked appId guard⟩
  | queueDurableStatsRecovery intents => exact queueDurableStatsRecovery_keeps h intents
  | takeRefresh =>
    obtain ⟨hkeeps, hpending⟩ := takeRefreshLoop_keeps s.pendingRefreshOrder.length s
    exact ⟨hkeeps, h.of_keeps hkeeps hpending⟩
  | _ => exact hadds.elim

theorem run_activeParked (hinv : s.Inv) (h : s.ActiveParked) (call : WorkerCall) :
    (call.run s).ActiveParked := by
  cases call with
  | takeRead => exact h.takeRead hinv
  | finishRead intent =>
    exact fun other hother => h other ((KeySet.mem_remove ..).mp hother).1
  | finishRefresh order appId succeeded => exact h.finishRefresh order appId succeeded
  | notifyContextChanged => exact fun intent hintent => absurd hintent List.not_mem_nil
  | _ => exact (Adds.keeps (by trivial) h).2

variable {intent : StatsSnapshotIntent}

/-- A parked read stays parked until its refresh is over, or is dropped. -/
theorem run_parked (h : s.ActiveParked) (hparked : s.readsAfterRefresh.Has intent.key)
    (call : WorkerCall) :
    (call.run s).readsAfterRefresh.Has intent.key ∨
      call.Drops intent.appId ∧ intent.appId ∉ (call.run s).pendingRefreshes ∨
      (∃ order, call = .finishRefresh order intent.appId true) ∧
        intent.appId ∉ s.pendingRefreshes ∧ (call.run s).queuedReads.Has intent.key := by
  cases call with
  | takeRead =>
    refine .inl ?_
    rw [run, WorkerState.takeRead]
    split <;> exact hparked
  | finishRead other => exact .inl hparked
  | finishRefresh order appId succeeded =>
    rcases finishRefresh_parked order appId succeeded hparked with
      hkept | ⟨rfl, hnone, hqueued⟩
    · exact .inl hkept
    · cases succeeded with
      | false =>
        refine .inr (.inl ⟨⟨rfl, rfl⟩, ?_⟩)
        rwa [run, (s.finishRefresh_same order _ false).2]
      | true => exact .inr (.inr ⟨⟨order, rfl⟩, hnone, hqueued rfl⟩)
  | notifyContextChanged => exact .inr (.inl ⟨trivial, AList.notMem_empty _⟩)
  | _ => exact .inl ((Adds.keeps (by trivial) h).1.parked _ hparked)

/-- A read that waits does so until it is taken or dropped. -/
theorem run_waiting (h : s.ActiveParked) (hwait : s.Waiting intent) (call : WorkerCall) :
    (call.run s).Waiting intent ∨ call.Drops intent.appId ∨
      call = .takeRead ∧ ∃ taken, s.takeRead.1 = some taken ∧ taken.key = intent.key := by
  cases call with
  | takeRead => exact (takeRead_waiting hwait).imp_right fun htaken => .inr ⟨rfl, htaken⟩
  | finishRead other => exact .inl hwait
  | finishRefresh order appId succeeded =>
    rcases hwait with hqueued | hparked
    · exact .inl (s.finishRefresh_queued order appId succeeded hqueued)
    · rcases run_parked h hparked (.finishRefresh order appId succeeded) with
        hkept | hdrops | ⟨-, -, hqueued⟩
      · exact .inl (.inr hkept)
      · exact .inr (.inl hdrops.1)
      · exact .inl (.inl hqueued)
  | notifyContextChanged => exact .inr (.inl trivial)
  | _ => exact .inl ((Adds.keeps (by trivial) h).1.waiting hwait)

end WorkerCall

section Reread
variable {s : WorkerState} {intent : StatsSnapshotIntent}

/-- The state after further calls. -/
def workerFrom (s : WorkerState) (calls : List WorkerCall) : WorkerState :=
  calls.foldl WorkerCall.run s

/-- A `take_read` of these calls takes the intent. -/
def TakenIn (s : WorkerState) (intent : StatsSnapshotIntent) (calls : List WorkerCall) : Prop :=
  ∃ before after taken, calls = before ++ .takeRead :: after ∧
    (workerFrom s before).takeRead.1 = some taken ∧ taken.key = intent.key

theorem TakenIn.cons {calls : List WorkerCall} (h : TakenIn (call.run s) intent calls) :
    TakenIn s intent (call :: calls) := by
  obtain ⟨before, after, taken, rfl, htaken⟩ := h
  exact ⟨call :: before, after, taken, rfl, htaken⟩

theorem waiting_or_taken : ∀ (calls : List WorkerCall) {s : WorkerState}, s.Inv →
    s.ActiveParked → s.Waiting intent → (∀ call ∈ calls, ¬ call.Drops intent.appId) →
      (workerFrom s calls).Waiting intent ∨ TakenIn s intent calls
  | [], _, _, _, hwait, _ => .inl hwait
  | call :: calls, s, hinv, hactive, hwait, hkept => by
    rw [List.forall_mem_cons] at hkept
    rcases call.run_waiting hactive hwait with hnext | hdrops | ⟨rfl, taken, htaken⟩
    · exact (waiting_or_taken calls (call.run_inv hinv) (call.run_activeParked hinv hactive) hnext
        hkept.2).imp_right TakenIn.cons
    · exact absurd hdrops hkept.1
    · exact .inr ⟨[], calls, taken, rfl, htaken⟩

/-- The refresh of the app is over in these calls, and after it the intent waits until it is
taken. -/
def ReadAfter (s : WorkerState) (intent : StatsSnapshotIntent) (calls : List WorkerCall) : Prop :=
  ∃ before order after, calls = before ++ .finishRefresh order intent.appId true :: after ∧
    intent.appId ∉ (workerFrom s before).pendingRefreshes ∧
    ((workerFrom s calls).Waiting intent ∨
      TakenIn ((workerFrom s before).finishRefresh order intent.appId true) intent after)

theorem parked_or_readAfter : ∀ (calls : List WorkerCall) {s : WorkerState}, s.Inv →
    s.ActiveParked → s.readsAfterRefresh.Has intent.key →
    (∀ call ∈ calls, ¬ call.Drops intent.appId) →
      (workerFrom s calls).readsAfterRefresh.Has intent.key ∨ ReadAfter s intent calls
  | [], _, _, _, hparked, _ => .inl hparked
  | call :: calls, s, hinv, hactive, hparked, hkept => by
    rw [List.forall_mem_cons] at hkept
    have hinv' := call.run_inv hinv
    have hactive' := call.run_activeParked hinv hactive
    rcases call.run_parked hactive hparked with hnext | hdrops | ⟨⟨order, rfl⟩, hnone, hqueued⟩
    · refine (parked_or_readAfter calls hinv' hactive' hnext hkept.2).imp_right fun hafter => ?_
      obtain ⟨before, order, after, rfl, hread⟩ := hafter
      exact ⟨call :: before, order, after, rfl, hread⟩
    · exact absurd hdrops.1 hkept.1
    · refine .inr ⟨[], order, calls, rfl, hnone, ?_⟩
      exact waiting_or_taken calls hinv' hactive' (.inl hqueued) hkept.2

theorem activeParked_after (calls : List WorkerCall) : (workerAfter calls).ActiveParked := by
  have hrun : ∀ (calls : List WorkerCall) (s : WorkerState), s.Inv → s.ActiveParked →
      (calls.foldl WorkerCall.run s).ActiveParked := by
    intro calls
    induction calls with
    | nil => exact fun _ _ h => h
    | cons call calls ih =>
      exact fun s hinv h => ih _ (call.run_inv hinv) (call.run_activeParked hinv h)
  refine hrun calls _ WorkerState.inv_cleared ?_
  exact fun intent hintent => absurd hintent List.not_mem_nil

/-- A read that is queued or under way is parked by the call that makes a refresh of its app
pending. -/
theorem parked_of_pending (hinv : s.Inv) (hactive : s.ActiveParked)
    (hread : s.queuedReads.Has intent.key ∨ s.activeReads.Has intent.key) (call : WorkerCall)
    (hpending : intent.appId ∈ (call.run s).pendingRefreshes) :
    (call.run s).readsAfterRefresh.Has intent.key := by
  have hinv' := call.run_inv hinv
  have hactive' := call.run_activeParked hinv hactive
  have hidle : ∀ {s : WorkerState}, s.Inv → intent.appId ∈ s.pendingRefreshes →
      ¬ s.queuedReads.Has intent.key := by
    intro s hinv hpending hqueued
    obtain ⟨queued, hmem, hkey⟩ := hqueued
    rw [← StatsSnapshotIntent.appId_eq_of_key hkey] at hpending
    exact hinv.queued_idle queued hmem (.inr hpending)
  by_cases hbefore : intent.appId ∈ s.pendingRefreshes
  · -- it was pending before, and the read is parked already
    obtain ⟨stored, hmem, hkey⟩ := hread.resolve_left (hidle hinv hbefore)
    have happ := StatsSnapshotIntent.appId_eq_of_key hkey
    have hparked := hkey ▸ hactive stored hmem (happ ▸ hbefore)
    rcases call.run_parked hactive hparked with hkept | hdrops | ⟨-, hnone, -⟩
    · exact hkept
    · exact absurd hpending hdrops.2
    · exact absurd hbefore hnone
  · have hadds : call.Adds := by
      cases call with
      | takeRead =>
        refine absurd ?_ hbefore
        rw [WorkerCall.run, WorkerState.takeRead] at hpending
        split at hpending <;> exact hpending
      | finishRead other => exact absurd hpending hbefore
      | finishRefresh order appId succeeded =>
        rw [WorkerCall.run, (s.finishRefresh_same order appId succeeded).2] at hpending
        exact absurd hpending hbefore
      | notifyContextChanged => exact absurd hpending (AList.notMem_empty _)
      | _ => trivial
    have hkeeps := (hadds.keeps hactive).1
    rcases hread with hqueued | ⟨stored, hmem, hkey⟩
    · exact (hkeeps.queued _ hqueued).resolve_left (hidle hinv' hpending)
    · have happ := StatsSnapshotIntent.appId_eq_of_key hkey
      exact hkey ▸ hactive' stored (hkeeps.active ▸ hmem) (happ ▸ hpending)

/-- A read that is queued or under way when a refresh of its app is queued is parked until that
refresh is over, and then waits until it is taken. -/
theorem read_again_after_refresh (earlier : List WorkerCall) (call : WorkerCall)
    (later : List WorkerCall) (intent : StatsSnapshotIntent)
    (hread : (workerAfter earlier).queuedReads.Has intent.key ∨
      (workerAfter earlier).activeReads.Has intent.key)
    (hpending : intent.appId ∈ (workerAfter (earlier ++ [call])).pendingRefreshes)
    (hkept : ∀ call ∈ later, ¬ call.Drops intent.appId) :
    (workerAfter (earlier ++ call :: later)).readsAfterRefresh.Has intent.key ∨
      ReadAfter (workerAfter (earlier ++ [call])) intent later := by
  have hstep : workerAfter (earlier ++ [call]) = call.run (workerAfter earlier) := by
    rw [workerAfter, List.foldl_append]
    rfl
  have hall : workerAfter (earlier ++ call :: later) =
      workerFrom (workerAfter (earlier ++ [call])) later := by
    rw [hstep, workerAfter, List.foldl_append]
    rfl
  have hparked := parked_of_pending (workerAfter_inv earlier) (activeParked_after earlier) hread
    call (hstep ▸ hpending)
  rw [← hstep] at hparked
  rw [hall]
  exact parked_or_readAfter later (workerAfter_inv _) (activeParked_after _) hparked hkept

end Reread

/-- A read of app 5. -/
def sampleRead : StatsSnapshotIntent := ⟨⟨"", "", "", 5, none, [], 0⟩, ⟨"", 0, 0, 0, 0⟩⟩

theorem read_under_way_again :
    let earlier := [.queueSnapshot sampleRead .read, .takeRead]
    let later := [.finishRead sampleRead, .takeRefresh, .finishRefresh .stored 5 true]
    (workerAfter earlier).activeReads.Has sampleRead.key ∧
      ((workerAfter (earlier ++ .queueRefresh 5 none :: later)).readsAfterRefresh.Has
          sampleRead.key ∨
        ReadAfter (workerAfter (earlier ++ [.queueRefresh 5 none])) sampleRead later) ∧
      (workerAfter (earlier ++ .queueRefresh 5 none :: later)).pendingReads = [sampleRead] := by
  intro earlier later
  have hactive : (workerAfter earlier).activeReads.Has sampleRead.key := by decide
  refine ⟨hactive, ?_, by decide⟩
  refine read_again_after_refresh earlier (.queueRefresh 5 none) later sampleRead (.inr hactive)
    (by decide) ?_
  simp [later, WorkerCall.Drops]

end VaporForge.Client
