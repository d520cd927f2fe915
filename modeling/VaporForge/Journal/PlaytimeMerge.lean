import Mathlib.Data.List.Induction
import VaporForge.Journal.Acknowledge

/-!
# Folding playtime observations

`enqueue_playtime` keeps one record per `(scope, account, app)` and folds every
further observation into it. What the record should hold:

> the maxima of the counters, and the two-weeks value of the last enqueued
> observation among the newest ones.

The maxima hold in every run. The two-weeks value does not: an observation that
moves no value is skipped as a whole, its time stamp included, so the record
goes on looking older than what it has absorbed and lets a later, older
observation in. `playtime_newest_iff` says that this is the only way to lose it.
-/

namespace VaporForge.Journal

open VaporForge.CloudCore
open Lib (Table FetchOrder)

/-! ## One record -/

/-- `(owner_scope, owner_steam_id64, app_id)`: what `enqueue_playtime` looks an
observation's record up by. -/
structure PlaytimeKey where
  ownerScope : String
  ownerSteamId64 : String
  appId : Nat
  deriving DecidableEq, Repr

def playtimeKey (entry : PlaytimeEntry) : PlaytimeKey :=
  ⟨entry.ownerScope, entry.ownerSteamId64, entry.appId⟩

def PlaytimeRecord.key (r : PlaytimeRecord) : PlaytimeKey := playtimeKey r.value

/-- `merge`, seen from the value a record holds. -/
def mergeValue (stored incoming : PlaytimeEntry) : PlaytimeEntry :=
  let playtimeMinutes := max stored.playtimeMinutes incoming.playtimeMinutes
  let lastPlayedAt := maxOption stored.lastPlayedAt incoming.lastPlayedAt
  let playtime2weeksMinutes :=
    if incoming.observedAt ≥ stored.observedAt then incoming.playtime2weeksMinutes
    else stored.playtime2weeksMinutes
  if playtimeMinutes = stored.playtimeMinutes ∧ lastPlayedAt = stored.lastPlayedAt ∧
      playtime2weeksMinutes = stored.playtime2weeksMinutes then stored
  else
    { stored with
      playtimeMinutes, lastPlayedAt, playtime2weeksMinutes
      observedAt := max stored.observedAt incoming.observedAt }

theorem value_merge (r : PlaytimeRecord) (incoming : PlaytimeEntry) :
    (r.merge incoming).1.value = mergeValue r.value incoming := by
  show _ = mergeValue ⟨r.ownerScope, r.ownerSteamId64, r.appId, r.playtimeMinutes,
    r.playtime2weeksMinutes, r.lastPlayedAt, r.observedAt⟩ incoming
  unfold PlaytimeRecord.merge mergeValue
  dsimp only
  generalize (if incoming.observedAt ≥ r.observedAt then incoming.playtime2weeksMinutes
    else r.playtime2weeksMinutes) = weeks
  split <;> rfl

/-- Whether or not the write is skipped, the three values come out the same. The time stamp
does depend on the skipping, but never runs ahead. -/
theorem mergeValue_values (stored incoming : PlaytimeEntry) :
    playtimeKey (mergeValue stored incoming) = playtimeKey stored ∧
      (mergeValue stored incoming).playtimeMinutes =
        max stored.playtimeMinutes incoming.playtimeMinutes ∧
      (mergeValue stored incoming).lastPlayedAt =
        maxOption stored.lastPlayedAt incoming.lastPlayedAt ∧
      (mergeValue stored incoming).playtime2weeksMinutes =
        (if incoming.observedAt ≥ stored.observedAt then incoming.playtime2weeksMinutes
        else stored.playtime2weeksMinutes) ∧
      (mergeValue stored incoming).observedAt ≤ max stored.observedAt incoming.observedAt := by
  unfold mergeValue
  dsimp only
  generalize (if incoming.observedAt ≥ stored.observedAt then incoming.playtime2weeksMinutes
    else stored.playtime2weeksMinutes) = weeks
  split
  · next hsame =>
    exact ⟨rfl, hsame.1.symm, hsame.2.1.symm, hsame.2.2.symm, Int.le_max_left _ _⟩
  · exact ⟨rfl, rfl, rfl, rfl, Int.le_refl _⟩

/-- What the record of a key holds after one more observation of it. -/
def absorb (stored : Option PlaytimeEntry) (incoming : PlaytimeEntry) : PlaytimeEntry :=
  match stored with
  | none => incoming
  | some stored => mergeValue stored incoming

/-! ## The record of a key along a run -/

/-- The value the journal holds for a key. -/
def storedPlaytime (t : Table PlaytimeRecord) (key : PlaytimeKey) : Option PlaytimeEntry :=
  (t.find PlaytimeRecord.key key).map PlaytimeRecord.value

/-- `enqueue_playtime` looks one entry up after the other, so a run of calls is
a run of single observations. Deliveries may fail and be deferred in between. -/
inductive PlaytimeStep where
  | observe (order : FetchOrder PlaytimeRecord) (entry : PlaytimeEntry)
  | postpone (items : List (Queued PlaytimeEntry)) (now : Int)

namespace PlaytimeStep

def run (t : Table PlaytimeRecord) : PlaytimeStep → Table PlaytimeRecord
  | observe order entry => enqueuePlaytimeOne order t entry
  | postpone items now => Journal.postpone t items now

def observation? (key : PlaytimeKey) : PlaytimeStep → Option PlaytimeEntry
  | observe _ entry => if playtimeKey entry = key then some entry else none
  | postpone _ _ => none

end PlaytimeStep

def playtimeAfter (t : Table PlaytimeRecord) (steps : List PlaytimeStep) :
    Table PlaytimeRecord :=
  steps.foldl PlaytimeStep.run t

/-- The observations of one key, in the order they were enqueued. -/
def observations (key : PlaytimeKey) (steps : List PlaytimeStep) : List PlaytimeEntry :=
  steps.filterMap (PlaytimeStep.observation? key)

/-- The lookup of `enqueue_playtime` is a lookup by key. -/
theorem lookup_iff (incoming : PlaytimeEntry) (r : PlaytimeRecord) :
    (r.ownerScope == incoming.ownerScope && r.ownerSteamId64 == incoming.ownerSteamId64 &&
      r.appId == incoming.appId) = true ↔ r.key = playtimeKey incoming := by
  unfold PlaytimeRecord.key playtimeKey
  simp only [Bool.and_eq_true, beq_iff_eq, PlaytimeKey.mk.injEq, PlaytimeRecord.value, and_assoc]

variable {t : Table PlaytimeRecord} {seen : List PlaytimeEntry}

/-- **One observation** keeps the keys unique and folds into the record of its
own key. -/
theorem enqueuePlaytimeOne_stored (h : t.Unique PlaytimeRecord.key)
    (order : FetchOrder PlaytimeRecord) (incoming : PlaytimeEntry) :
    (enqueuePlaytimeOne order t incoming).Unique PlaytimeRecord.key ∧
      ∀ key, storedPlaytime (enqueuePlaytimeOne order t incoming) key =
        if playtimeKey incoming = key then some (absorb (storedPlaytime t key) incoming)
        else storedPlaytime t key := by
  unfold enqueuePlaytimeOne
  dsimp only
  split
  · next id stored hrow =>
    obtain ⟨hread, hkey⟩ := (h.head?_fetch_iff (lookup_iff incoming)).mp hrow
    have hfound : ∀ key, playtimeKey incoming = key →
        storedPlaytime t key = some stored.value := by
      intro key hk
      unfold storedPlaytime
      rw [h.find_eq_some.mpr ⟨id, hread, hkey.trans hk⟩]
      rfl
    have hmerged : (stored.merge incoming).1.key = playtimeKey incoming := by
      unfold PlaytimeRecord.key
      rw [value_merge, (mergeValue_values _ _).1]
      exact hkey
    split
    · next merged hmerge =>
      rw [hmerge] at hmerged
      have hvalue := value_merge stored incoming
      rw [hmerge] at hvalue
      have hsame : stored.key = merged.key := hkey.trans hmerged.symm
      refine ⟨h.update fun r hr => ?_, fun key => ?_⟩
      · rw [hread, Option.some.injEq] at hr
        exact hr ▸ hsame
      · unfold storedPlaytime
        rw [h.find_update hread hsame, hmerged]
        split
        · next hk =>
          show some merged.value = some (absorb (storedPlaytime t key) incoming)
          rw [hfound key hk, hvalue]
          rfl
        · rfl
    · next kept hmerge =>
      -- skipped: the merge moved nothing, so the record already holds its result
      have hsame : mergeValue stored.value incoming = stored.value := by
        rcases stored.merge_cases incoming with heq | ⟨htrue, _⟩
        · rw [← value_merge, heq]
        · rw [hmerge] at htrue
          exact absurd htrue (by simp)
      refine ⟨h, fun key => ?_⟩
      split
      · next hk =>
        rw [hfound key hk]
        exact congrArg some hsame.symm
      · rfl
  · next hnone =>
    have hnew : ∀ id s, t.read id = some s → s.key ≠ (PlaytimeRecord.new incoming).key := by
      intro id s hs hk
      have hmiss := Table.head?_fetch_eq_none.mp hnone id s hs
      rw [(lookup_iff incoming s).mpr hk] at hmiss
      exact absurd hmiss (by simp)
    refine ⟨h.insert hnew, fun key => ?_⟩
    unfold storedPlaytime
    rw [h.find_insert hnew]
    show Option.map _ (if playtimeKey incoming = key then _ else _) = _
    split
    · next hk =>
      have habsent : t.find PlaytimeRecord.key key = none :=
        Table.find_eq_none.mpr fun id s hs => hk ▸ hnew id s hs
      rw [habsent]
      rfl
    · rfl

theorem postpone_stored (h : t.Unique PlaytimeRecord.key) (items : List (Queued PlaytimeEntry))
    (now : Int) :
    (postpone t items now).Unique PlaytimeRecord.key ∧
      ∀ key, storedPlaytime (postpone t items now) key = storedPlaytime t key := by
  have hread : ∀ id, ((postpone t items now).read id).map PlaytimeRecord.value =
      (t.read id).map PlaytimeRecord.value := postpone_map (fun _ _ => rfl) t items now
  constructor
  · refine h.of_read fun id r' hr' => ?_
    have hid := hread id
    rw [hr', Option.map_some] at hid
    obtain ⟨r, hr, hvalue⟩ := Option.map_eq_some_iff.mp hid.symm
    exact ⟨r, hr, congrArg playtimeKey hvalue⟩
  · exact h.map_find_congr (fun _ _ hvalue => congrArg playtimeKey hvalue) hread

theorem PlaytimeStep.run_stored (h : t.Unique PlaytimeRecord.key) (step : PlaytimeStep) :
    (step.run t).Unique PlaytimeRecord.key ∧
      ∀ key, storedPlaytime (step.run t) key =
        ((step.observation? key).map (absorb (storedPlaytime t key))).or (storedPlaytime t key) := by
  cases step with
  | observe order entry =>
    obtain ⟨hunique, hstored⟩ := enqueuePlaytimeOne_stored h order entry
    refine ⟨hunique, fun key => (hstored key).trans ?_⟩
    show _ = ((if playtimeKey entry = key then some entry else none).map _).or _
    by_cases hk : playtimeKey entry = key
    · rw [if_pos hk, if_pos hk]
      rfl
    · rw [if_neg hk, if_neg hk]
      rfl
  | postpone items now =>
    obtain ⟨hunique, hstored⟩ := postpone_stored h items now
    exact ⟨hunique, hstored⟩

theorem playtimeAfter_unique (h : t.Unique PlaytimeRecord.key) (steps : List PlaytimeStep) :
    (playtimeAfter t steps).Unique PlaytimeRecord.key := by
  induction steps generalizing t with
  | nil => exact h
  | cons step steps ih => exact ih (step.run_stored h).1

theorem playtimeAfter_concat (t : Table PlaytimeRecord) (steps : List PlaytimeStep)
    (step : PlaytimeStep) :
    playtimeAfter t (steps ++ [step]) = step.run (playtimeAfter t steps) := by
  unfold playtimeAfter
  rw [List.foldl_append, List.foldl_cons, List.foldl_nil]

theorem storedPlaytime_concat (h : t.Unique PlaytimeRecord.key) (steps : List PlaytimeStep)
    (step : PlaytimeStep) (key : PlaytimeKey) :
    storedPlaytime (playtimeAfter t (steps ++ [step])) key =
      ((step.observation? key).map (absorb (storedPlaytime (playtimeAfter t steps) key))).or
        (storedPlaytime (playtimeAfter t steps) key) := by
  rw [playtimeAfter_concat]
  exact (step.run_stored (playtimeAfter_unique h steps)).2 key

theorem observations_concat (key : PlaytimeKey) (steps : List PlaytimeStep)
    (step : PlaytimeStep) :
    observations key (steps ++ [step]) =
      observations key steps ++ (step.observation? key).toList := by
  unfold observations
  rw [List.filterMap_append]
  cases hobs : step.observation? key with
  | none => simp [hobs]
  | some entry => simp [hobs]

/-! ## What the record should hold -/

/-- The last enqueued observation among those with the greatest `observed_at`. -/
def LastNewest (seen : List PlaytimeEntry) (entry : PlaytimeEntry) : Prop :=
  ∃ before after, seen = before ++ entry :: after ∧
    (∀ other ∈ before, other.observedAt ≤ entry.observedAt) ∧
    ∀ other ∈ after, other.observedAt < entry.observedAt

/-- The maxima of the counters over what was seen. -/
structure MaximalCounters (seen : List PlaytimeEntry) (stored : PlaytimeEntry) : Prop where
  minutes : stored.playtimeMinutes = (seen.map PlaytimeEntry.playtimeMinutes).foldl max 0
  lastPlayed : stored.lastPlayedAt = (seen.map PlaytimeEntry.lastPlayedAt).foldl maxOption none

structure NewestPlaytime (seen : List PlaytimeEntry) (stored : PlaytimeEntry) : Prop
    extends MaximalCounters seen stored where
  twoWeeks : ∀ newest, LastNewest seen newest →
    stored.playtime2weeksMinutes = newest.playtime2weeksMinutes

variable {newest stored : PlaytimeEntry}

/-- One more observation is either the newest itself, or leaves it alone. -/
theorem lastNewest_concat {late : PlaytimeEntry} :
    LastNewest (seen ++ [late]) newest ↔
      (newest = late ∧ ∀ other ∈ seen, other.observedAt ≤ late.observedAt) ∨
        (LastNewest seen newest ∧ late.observedAt < newest.observedAt) := by
  constructor
  · rintro ⟨before, after, hsplit, hbefore, hafter⟩
    rcases List.eq_nil_or_concat' after with hnil | ⟨after', last, hlast⟩
    · subst hnil
      obtain ⟨hseen, hnewest⟩ := List.append_inj' hsplit rfl
      cases hnewest
      exact Or.inl ⟨rfl, hseen ▸ hbefore⟩
    · subst hlast
      rw [← List.cons_append, ← List.append_assoc] at hsplit
      obtain ⟨hseen, heq⟩ := List.append_inj' hsplit rfl
      cases heq
      refine Or.inr ⟨⟨before, after', hseen, hbefore, fun other hother => ?_⟩, ?_⟩
      · exact hafter other (List.mem_append_left _ hother)
      · exact hafter late (List.mem_append_right _ (List.mem_singleton_self _))
  · intro hcases
    rcases hcases with ⟨heq, holder⟩ | ⟨⟨before, after, hsplit, hbefore, hafter⟩, hlt⟩
    · subst heq
      exact ⟨seen, [], rfl, holder, fun _ h => absurd h List.not_mem_nil⟩
    · refine ⟨before, after ++ [late], by rw [hsplit]; simp, hbefore, fun other hother => ?_⟩
      rcases List.mem_append.mp hother with hother | hother
      · exact hafter other hother
      · exact List.mem_singleton.mp hother ▸ hlt

theorem LastNewest.observedAt_le (h : LastNewest seen newest) :
    ∀ other ∈ seen, other.observedAt ≤ newest.observedAt := by
  obtain ⟨before, after, rfl, hbefore, hafter⟩ := h
  intro other hother
  rcases List.mem_append.mp hother with hother | hother
  · exact hbefore other hother
  · rcases List.mem_cons.mp hother with heq | hother
    · exact heq ▸ Int.le_refl _
    · exact Int.le_of_lt (hafter other hother)

theorem exists_lastNewest (seen : List PlaytimeEntry) (h : seen ≠ []) :
    ∃ newest, LastNewest seen newest := by
  induction seen using List.reverseRecOn with
  | nil => exact absurd rfl h
  | append_singleton seen late ih =>
    by_cases holder : ∀ other ∈ seen, other.observedAt ≤ late.observedAt
    · exact ⟨late, lastNewest_concat.mpr (Or.inl ⟨rfl, holder⟩)⟩
    · push Not at holder
      obtain ⟨other, hother, hlt⟩ := holder
      obtain ⟨newest, hnewest⟩ := ih (List.ne_nil_of_mem hother)
      have hle := hnewest.observedAt_le other hother
      exact ⟨newest, lastNewest_concat.mpr (Or.inr ⟨hnewest, by omega⟩)⟩

/-! ## What the record does hold -/

/-- What is true of the record after every run: the maxima, and a time stamp
that lags behind the newest observation or meets it. -/
structure Absorbed (seen : List PlaytimeEntry) (stored : PlaytimeEntry) : Prop
    extends MaximalCounters seen stored where
  behind : ∃ other ∈ seen, stored.observedAt ≤ other.observedAt

theorem absorbed_singleton (entry : PlaytimeEntry) : Absorbed [entry] entry where
  minutes := (Nat.zero_max _).symm
  lastPlayed := by
    show _ = maxOption none entry.lastPlayedAt
    cases entry.lastPlayedAt <;> rfl
  behind := ⟨entry, List.mem_singleton_self _, Int.le_refl _⟩

theorem Absorbed.concat (h : Absorbed seen stored) (late : PlaytimeEntry) :
    Absorbed (seen ++ [late]) (mergeValue stored late) := by
  obtain ⟨_, hminutes, hlast, _, hstamp⟩ := mergeValue_values stored late
  obtain ⟨other, hother, hle⟩ := h.behind
  refine ⟨⟨?_, ?_⟩, ?_⟩
  · rw [hminutes, h.minutes, List.map_append, List.foldl_append]
    rfl
  · rw [hlast, h.lastPlayed, List.map_append, List.foldl_append]
    rfl
  · by_cases hlate : stored.observedAt ≤ late.observedAt
    · refine ⟨late, List.mem_append_right _ (List.mem_singleton_self _), ?_⟩
      omega
    · refine ⟨other, List.mem_append_left _ hother, ?_⟩
      omega

/-- The record of a key and the observations of it, after any run. -/
def RecordOf (seen : List PlaytimeEntry) : Option PlaytimeEntry → Prop
  | none => seen = []
  | some stored => Absorbed seen stored

theorem recordOf_playtimeAfter (h : t.Unique PlaytimeRecord.key) {key : PlaytimeKey}
    (habsent : storedPlaytime t key = none) (steps : List PlaytimeStep) :
    RecordOf (observations key steps) (storedPlaytime (playtimeAfter t steps) key) := by
  induction steps using List.reverseRecOn with
  | nil =>
    show RecordOf [] (storedPlaytime t key)
    rw [habsent]
    rfl
  | append_singleton steps step ih =>
    rw [storedPlaytime_concat h, observations_concat]
    cases step.observation? key with
    | none =>
      rw [Option.toList_none, List.append_nil]
      exact ih
    | some late =>
      cases hstored : storedPlaytime (playtimeAfter t steps) key with
      | none =>
        rw [hstored] at ih
        have hnil : observations key steps = [] := ih
        rw [hnil]
        exact absorbed_singleton late
      | some stored =>
        rw [hstored] at ih
        exact Absorbed.concat ih late

theorem newestPlaytime_singleton (entry : PlaytimeEntry) : NewestPlaytime [entry] entry := by
  refine ⟨(absorbed_singleton entry).toMaximalCounters, fun newest hnewest => ?_⟩
  obtain ⟨before, after, hsplit, _⟩ := hnewest
  have hmem : newest ∈ [entry] := by
    rw [hsplit]
    exact List.mem_append_right _ (List.mem_cons_self ..)
  rw [List.mem_singleton.mp hmem]

/-- One more observation keeps the newest two-weeks value unless it is let in
although something newer has been seen. -/
theorem newestPlaytime_concat (hrecord : Absorbed seen stored) (h : NewestPlaytime seen stored)
    (late : PlaytimeEntry) :
    NewestPlaytime (seen ++ [late]) (mergeValue stored late) ↔
      ((∃ other ∈ seen, late.observedAt < other.observedAt) →
        stored.observedAt ≤ late.observedAt →
        late.playtime2weeksMinutes = stored.playtime2weeksMinutes) := by
  have hweeks := (mergeValue_values stored late).2.2.2.1
  constructor
  · intro hnew ⟨other, hother, hlt⟩ hlate
    obtain ⟨newest, hnewest⟩ := exists_lastNewest seen (List.ne_nil_of_mem hother)
    have hle := hnewest.observedAt_le other hother
    have hstill := hnew.twoWeeks newest
      (lastNewest_concat.mpr (Or.inr ⟨hnewest, by omega⟩))
    rw [hweeks, if_pos hlate] at hstill
    exact hstill.trans (h.twoWeeks newest hnewest).symm
  · intro hadmit
    refine ⟨(hrecord.concat late).toMaximalCounters, fun newest hnewest => ?_⟩
    rw [hweeks]
    rcases lastNewest_concat.mp hnewest with ⟨heq, holder⟩ | ⟨hnewest, hlt⟩
    · -- the record's time stamp is no newer than something already seen
      obtain ⟨other, hother, hle⟩ := hrecord.behind
      have hother := holder other hother
      rw [if_pos (show late.observedAt ≥ stored.observedAt by omega), heq]
    · rw [← h.twoWeeks newest hnewest]
      split
      · next hlate =>
        obtain ⟨before, after, hsplit, _⟩ := hnewest
        refine hadmit ⟨newest, ?_, hlt⟩ hlate
        rw [hsplit]
        exact List.mem_append_right _ (List.mem_cons_self ..)
      · rfl

/-- The record of `key` holds what it should. -/
def KeepsNewest (t : Table PlaytimeRecord) (key : PlaytimeKey) (seen : List PlaytimeEntry) :
    Prop :=
  seen ≠ [] → ∃ stored, storedPlaytime t key = some stored ∧ NewestPlaytime seen stored

/-- An observation that is older than one already seen, but no older than the
record's own time stamp, brings no other two-weeks value. -/
def OlderBringNothing (t : Table PlaytimeRecord) (key : PlaytimeKey)
    (steps : List PlaytimeStep) : Prop :=
  ∀ done order late stored, done ++ [.observe order late] <+: steps →
    playtimeKey late = key → storedPlaytime (playtimeAfter t done) key = some stored →
    (∃ other ∈ observations key done, late.observedAt < other.observedAt) →
    stored.observedAt ≤ late.observedAt →
    late.playtime2weeksMinutes = stored.playtime2weeksMinutes

/-- **When the newest two-weeks value is kept.** Along a run of observations
and deferrals, starting without a record of the key, the record holds at every
moment what it should exactly when the lagging time stamp lets nothing in. -/
theorem playtime_newest_iff {t : Table PlaytimeRecord} (hunique : t.Unique PlaytimeRecord.key)
    {key : PlaytimeKey} (habsent : storedPlaytime t key = none) (steps : List PlaytimeStep) :
    (∀ done, done <+: steps → KeepsNewest (playtimeAfter t done) key (observations key done)) ↔
      OlderBringNothing t key steps := by
  constructor
  · intro hkeeps done order late stored hpre hkey hstored
    have hobs : (PlaytimeStep.observe order late).observation? key = some late := if_pos hkey
    have hrecord := recordOf_playtimeAfter hunique habsent done
    rw [hstored] at hrecord
    obtain ⟨other, hother, _⟩ := Absorbed.behind hrecord
    obtain ⟨stored', hstored', hnewest⟩ :=
      hkeeps done ((List.prefix_append _ _).trans hpre) (List.ne_nil_of_mem hother)
    obtain rfl : stored = stored' := Option.some.inj (hstored.symm.trans hstored')
    have hnext := hkeeps _ hpre
    rw [KeepsNewest, observations_concat, storedPlaytime_concat hunique, hobs, hstored] at hnext
    obtain ⟨merged, hmerged, hnew⟩ := hnext (by simp)
    obtain rfl : mergeValue stored late = merged := Option.some.inj hmerged
    exact (newestPlaytime_concat hrecord hnewest late).mp hnew
  · intro hadmit done
    -- along the prefixes of the run, one step at a time
    induction done using List.reverseRecOn with
    | nil => exact fun _ hne => absurd rfl hne
    | append_singleton done step ih =>
      intro hpre
      have hdone := ih ((List.prefix_append _ _).trans hpre)
      have hrecord := recordOf_playtimeAfter hunique habsent done
      rw [KeepsNewest, observations_concat, storedPlaytime_concat hunique]
      cases hobs : step.observation? key with
      | none =>
        rw [Option.toList_none, List.append_nil]
        exact hdone
      | some late =>
        intro _
        cases hstored : storedPlaytime (playtimeAfter t done) key with
        | none =>
          rw [hstored] at hrecord
          have hnil : observations key done = [] := hrecord
          rw [hnil]
          exact ⟨late, rfl, newestPlaytime_singleton late⟩
        | some stored =>
          rw [hstored] at hrecord
          obtain ⟨other, hother, _⟩ := Absorbed.behind hrecord
          obtain ⟨stored', hstored', hnewest⟩ := hdone (List.ne_nil_of_mem hother)
          obtain rfl : stored = stored' := Option.some.inj (hstored.symm.trans hstored')
          refine ⟨mergeValue stored late, rfl, ?_⟩
          refine (newestPlaytime_concat hrecord hnewest late).mpr ?_
          cases step with
          | postpone items now => exact absurd hobs (by simp [PlaytimeStep.observation?])
          | observe order entry =>
            unfold PlaytimeStep.observation? at hobs
            obtain ⟨hkey, heq⟩ := Option.ite_none_right_eq_some.mp hobs
            obtain rfl := Option.some.inj heq
            exact hadmit done order entry stored hpre hkey hstored

/-- An observation of one fixed account and app. -/
def twoWeeksSample (playtime2weeksMinutes : Nat) (observedAt : Int) : PlaytimeEntry :=
  ⟨"scope", "76561198000000001", 480, 60, playtime2weeksMinutes, none, observedAt⟩

theorem playtime_newest_iff_two_samples :
    Table.Unique PlaytimeRecord.key (Table.empty : Table PlaytimeRecord) ∧
      storedPlaytime .empty (playtimeKey (twoWeeksSample 5 10)) = none ∧
      ((∀ done, done <+: [.observe .minted (twoWeeksSample 5 10),
            .observe .minted (twoWeeksSample 7 20)] →
          KeepsNewest (playtimeAfter .empty done) (playtimeKey (twoWeeksSample 5 10))
            (observations (playtimeKey (twoWeeksSample 5 10)) done)) ↔
        OlderBringNothing .empty (playtimeKey (twoWeeksSample 5 10))
          [.observe .minted (twoWeeksSample 5 10), .observe .minted (twoWeeksSample 7 20)]) :=
  ⟨Table.unique_empty, by decide, playtime_newest_iff Table.unique_empty (by decide) _⟩

/-- The observation of time 20 brings nothing new and is skipped with its time
stamp, so the one of time 15 overwrites what was true at time 20. -/
theorem older_observation_overwrites :
    ¬ KeepsNewest
      (playtimeAfter .empty [.observe .minted (twoWeeksSample 5 10),
        .observe .minted (twoWeeksSample 5 20), .observe .minted (twoWeeksSample 7 15)])
      (playtimeKey (twoWeeksSample 5 10))
      (observations (playtimeKey (twoWeeksSample 5 10))
        [.observe .minted (twoWeeksSample 5 10), .observe .minted (twoWeeksSample 5 20),
          .observe .minted (twoWeeksSample 7 15)]) := by
  intro hkeeps
  obtain ⟨stored, hstored, hnewest⟩ := hkeeps (by decide)
  have hseven : storedPlaytime (playtimeAfter .empty [.observe .minted (twoWeeksSample 5 10),
      .observe .minted (twoWeeksSample 5 20), .observe .minted (twoWeeksSample 7 15)])
      (playtimeKey (twoWeeksSample 5 10)) = some (twoWeeksSample 7 15) := by decide
  have hfive := hnewest.twoWeeks (twoWeeksSample 5 20)
    ⟨[twoWeeksSample 5 10], [twoWeeksSample 7 15], by decide, by decide, by decide⟩
  rw [hseven] at hstored
  cases hstored
  exact absurd hfive (by decide)

end VaporForge.Journal
