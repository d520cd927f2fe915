import Mathlib.Data.List.Basic

/-!
# Donor responses and the requests they answer

A stats request that goes to a donor waits in a queue (`hooks/src/netpacket/stats_proxy.rs`).
Its entry is of the connection generation in which it was sent; a response names a job, or an
app if it is an old one, and takes the first entry that fits.

> A response takes the entry of the live connection if and only if no entry of an earlier
> connection fits it as well (`response_correlated_iff`).

Entries of an earlier connection are dropped when the queue is told of the new one, which is
after the generation has advanced. Until then they stand before the new ones. The generation
is a 64-bit counter of connections; it does not come round here.
-/

namespace VaporForge.Netpacket

/-! ## The queue -/

/-- `MAX_BACKEND_STATS_REQUESTS` -/
def maxBackendStatsRequests : Nat := 64

inductive RequestKind where
  | service
  | legacy
  deriving DecidableEq, Repr

/-- `PendingStatsRequest`, with what the queue looks at; `generation` is the guard's. -/
structure PendingStatsRequest where
  appId : Nat
  queuedAt : Nat
  requestJobId : Option Nat
  terminalResponseSent : Bool
  generation : Nat
  kind : RequestKind
  deriving DecidableEq, Repr

def samePendingStatsCorrelation (left right : PendingStatsRequest) : Bool :=
  left.generation = right.generation &&
    match left.kind, right.kind with
    | .service, .service => left.requestJobId.isSome && left.requestJobId = right.requestJobId
    | .legacy, .legacy =>
      match left.requestJobId, right.requestJobId with
      | some left, some right => left = right
      | none, none => left.appId = right.appId
      | _, _ => false
    | _, _ => false

/-- The `queue[position] = pending` of `merge_pending_stats`. -/
def replaceCorrelated (pending : PendingStatsRequest) :
    List PendingStatsRequest → List PendingStatsRequest
  | [] => []
  | entry :: queue =>
    if samePendingStatsCorrelation entry pending then pending :: queue
    else entry :: replaceCorrelated pending queue

/-- `merge_pending_stats`, as what it leaves of the queue. -/
def mergePendingStats (queue : List PendingStatsRequest) (pending : PendingStatsRequest) :
    List PendingStatsRequest :=
  match queue.find? (samePendingStatsCorrelation · pending) with
  | some entry => if entry.terminalResponseSent then queue else replaceCorrelated pending queue
  | none => if queue.length ≥ maxBackendStatsRequests then queue else queue ++ [pending]

/-- The loop of `take_expired_pending_stats`, as what it leaves of the queue. -/
def markExpired (now lifetime : Nat) (queue : List PendingStatsRequest) :
    List PendingStatsRequest :=
  queue.map fun entry =>
    if entry.terminalResponseSent || now - entry.queuedAt < lifetime then entry
    else { entry with terminalResponseSent := true }

/-- `terminalize_pending_stats`, as what it leaves of the queue. -/
def terminalizePendingStats (currentGeneration : Nat) (queue : List PendingStatsRequest) :
    List PendingStatsRequest :=
  (queue.filter (·.generation = currentGeneration)).map ({ · with terminalResponseSent := true })

/-- A donor's response, by what it is looked up with. -/
inductive DonorResponse where
  | service (jobId : Nat)
  | legacy (jobId appId : Option Nat)
  deriving DecidableEq, Repr

/-- The conditions of `pending_service_position` and `pending_legacy_position`. -/
def DonorResponse.fits : DonorResponse → PendingStatsRequest → Bool
  | .service jobId, entry => entry.kind = .service && entry.requestJobId = some jobId
  | .legacy (some jobId) _, entry => entry.kind = .legacy && entry.requestJobId = some jobId
  | .legacy none appId, entry => appId = some entry.appId && entry.kind = .legacy

/-- `take_pending_stats` -/
def takePendingStats (response : DonorResponse) (queue : List PendingStatsRequest) :
    Option PendingStatsRequest × List PendingStatsRequest :=
  (queue.find? response.fits, queue.eraseP response.fits)

/-! ## Runs -/

structure World where
  generation : Nat
  queue : List PendingStatsRequest

inductive Event where
  /-- The connection changes. -/
  | advance
  /-- The send path; `surroundings` says whether the rest of the guard is current. -/
  | push (pending : PendingStatsRequest) (surroundings : Bool)
  | expire (now lifetime : Nat)
  /-- The queue is told, by a thread that read the generation before it had the lock. -/
  | told (read : Nat)
  | respond (response : DonorResponse)

def World.step (w : World) : Event → World
  | .advance => { w with generation := w.generation + 1 }
  | .push pending surroundings =>
    if surroundings && pending.generation = w.generation then
      { w with queue := mergePendingStats w.queue pending }
    else w
  | .expire now lifetime => { w with queue := markExpired now lifetime w.queue }
  | .told read => { w with queue := terminalizePendingStats read w.queue }
  | .respond response => { w with queue := (takePendingStats response w.queue).2 }

def World.run (events : List Event) : World := events.foldl World.step ⟨1, []⟩

/-- A response that fits an entry of the live connection takes the first such entry. -/
def Correlated (w : World) (response : DonorResponse) : Prop :=
  ∀ entry, w.queue.find? (fun e => e.generation = w.generation && response.fits e) = some entry →
    (takePendingStats response w.queue).1 = some entry

/-! ## The order of the queue -/

/-- Entries stand in the order of their connections. -/
structure Ordered (w : World) : Prop where
  sorted : (w.queue.map (·.generation)).Pairwise (· ≤ ·)
  past : ∀ entry ∈ w.queue, entry.generation ≤ w.generation

theorem Ordered.of_sublist {w w' : World} (h : Ordered w)
    (hgeneration : w'.generation = w.generation)
    (hqueue : (w'.queue.map (·.generation)).Sublist (w.queue.map (·.generation))) : Ordered w' := by
  refine ⟨h.sorted.sublist hqueue, fun entry hentry => ?_⟩
  have hmem := hqueue.subset (List.mem_map_of_mem hentry)
  obtain ⟨before, hbefore, heq⟩ := List.mem_map.mp hmem
  rw [hgeneration, ← heq]
  exact h.past before hbefore

theorem generations_replaceCorrelated (pending : PendingStatsRequest)
    (queue : List PendingStatsRequest) :
    (replaceCorrelated pending queue).map (·.generation) = queue.map (·.generation) := by
  induction queue with
  | nil => rfl
  | cons entry queue ih =>
    rw [replaceCorrelated]
    split
    · next hsame =>
      have hgeneration : entry.generation = pending.generation := by
        simp only [samePendingStatsCorrelation, Bool.and_eq_true, decide_eq_true_iff] at hsame
        exact hsame.1
      rw [List.map_cons, List.map_cons, hgeneration]
    · rw [List.map_cons, List.map_cons, ih]

theorem step_ordered {w : World} (h : Ordered w) (event : Event) : Ordered (w.step event) := by
  cases event with
  | advance => exact ⟨h.sorted, fun entry hentry => Nat.le_succ_of_le (h.past entry hentry)⟩
  | push pending surroundings =>
    rw [World.step]
    split
    · next hguard =>
      have hcurrent : pending.generation = w.generation := by
        simp only [Bool.and_eq_true, decide_eq_true_iff] at hguard
        exact hguard.2
      unfold mergePendingStats
      split
      · split
        · exact h
        · exact h.of_sublist rfl (generations_replaceCorrelated pending w.queue ▸ .refl _)
      · split
        · exact h
        · -- what is appended is of the live connection
          refine ⟨?_, fun entry hentry => ?_⟩
          · rw [List.map_append, List.pairwise_append]
            refine ⟨h.sorted, List.pairwise_singleton _ _, fun a ha b hb => ?_⟩
            obtain ⟨entry, hentry, rfl⟩ := List.mem_map.mp ha
            obtain rfl : b = pending.generation := List.mem_singleton.mp hb
            rw [hcurrent]
            exact h.past entry hentry
          · rcases List.mem_append.mp hentry with hold | hnew
            · exact h.past entry hold
            · rw [List.mem_singleton.mp hnew]
              exact Nat.le_of_eq hcurrent
    · exact h
  | expire now lifetime =>
    refine h.of_sublist rfl ?_
    have hsame : (markExpired now lifetime w.queue).map (·.generation) =
        w.queue.map (·.generation) := by
      rw [markExpired, List.map_map]
      refine List.map_congr_left fun entry _ => ?_
      simp only [Function.comp_apply]
      split <;> rfl
    exact hsame ▸ .refl _
  | told read =>
    refine h.of_sublist rfl ?_
    show ((terminalizePendingStats read w.queue).map (·.generation)).Sublist _
    rw [terminalizePendingStats, List.map_map]
    exact List.filter_sublist.map _
  | respond response => exact h.of_sublist rfl (List.eraseP_sublist.map _)

theorem run_ordered (events : List Event) : Ordered (World.run events) := by
  have hruns : ∀ (events : List Event) (w : World), Ordered w →
      Ordered (events.foldl World.step w) := by
    intro events
    induction events with
    | nil => exact fun _ h => h
    | cons event events ih => exact fun w h => ih _ (step_ordered h event)
  exact hruns events _ ⟨List.Pairwise.nil, nofun⟩

/-! ## Correlation -/

/-- **A response takes the entry of the live connection** if and only if there is none, or no
entry of an earlier connection fits as well. -/
theorem response_correlated_iff (events : List Event) (response : DonorResponse) :
    Correlated (World.run events) response ↔
      (∃ entry ∈ (World.run events).queue,
        entry.generation = (World.run events).generation ∧ response.fits entry) →
      ∀ entry ∈ (World.run events).queue, response.fits entry →
        entry.generation = (World.run events).generation := by
  generalize hw : World.run events = w
  have hordered : Ordered w := hw ▸ run_ordered events
  constructor
  · rintro hcorrelated ⟨live, hlive, hgeneration, hfits⟩ other hother hfits'
    cases hfind : w.queue.find? fun e => e.generation = w.generation && response.fits e with
    | none =>
      have hmiss := List.find?_eq_none.mp hfind live hlive
      exact absurd (by simp [hgeneration, hfits]) hmiss
    | some entry =>
      have hcurrent := List.find?_some hfind
      simp only [Bool.and_eq_true, decide_eq_true_iff] at hcurrent
      -- what fits stands at the entry that is taken or behind it
      obtain ⟨_, front, rest, hqueue, hfront⟩ :=
        List.find?_eq_some_iff_append.mp (hcorrelated entry hfind)
      have hsorted := hordered.sorted
      have hpast := hordered.past other hother
      rw [hqueue, List.map_append, List.pairwise_append, List.map_cons,
        List.pairwise_cons] at hsorted
      rw [hqueue] at hother
      rcases List.mem_append.mp hother with hbefore | hbehind
      · exact absurd hfits' (by simpa using hfront other hbefore)
      · rcases List.mem_cons.mp hbehind with rfl | hbehind
        · exact hcurrent.1
        · have hle := hsorted.2.1.1 _ (List.mem_map_of_mem hbehind)
          exact Nat.le_antisymm hpast (hcurrent.1 ▸ hle)
  · intro hall entry hfirst
    have hentry := List.find?_some hfirst
    simp only [Bool.and_eq_true, decide_eq_true_iff] at hentry
    have honly := hall ⟨entry, List.mem_of_find?_eq_some hfirst, hentry⟩
    have hsame : w.queue.filter (fun e => e.generation = w.generation && response.fits e) =
        w.queue.filter response.fits := by
      refine List.filter_congr fun e he => ?_
      cases hfits : response.fits e with
      | false => rw [Bool.and_false]
      | true => rw [honly e he hfits, decide_eq_true rfl, Bool.and_true]
    rw [takePendingStats, ← List.head?_filter, ← hsame, List.head?_filter]
    exact hfirst

/-- A service request of app 480 under job 42. -/
def request42 (generation : Nat) : PendingStatsRequest :=
  ⟨480, 0, some 42, false, generation, .service⟩

/-- The connection changes, and the game asks again under the same job before the queue has been
told: the response takes the entry of the connection that is gone. -/
theorem response_takes_old_entry :
    ¬Correlated (World.run [.push (request42 1) true, .advance, .push (request42 2) true])
      (.service 42) := by
  intro h
  exact absurd (h (request42 2) (by decide)) (by decide)

end VaporForge.Netpacket
