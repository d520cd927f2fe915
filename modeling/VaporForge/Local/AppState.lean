import VaporForge.Local.SyncRecorded

/-!
# Reducing the records of an account

`reduce_app_state` converges achievements and stats from the records of every device. A
folder has no arbiter, so whoever holds the same records has to compute the same state.

> On valid records, at most one per app and device, the result depends only on which
> records there are: not on their order and not on how often one is listed
> (`reduceAppState_eq_of_mem_iff`).

Read at one key, both maps are folds over the reports of that key. A stat is the report of
the greatest merge order, and no two devices share an order; an achievement is a summary of
its reports (`Summary`), and a summary is determined by the set it summarises.
-/

namespace VaporForge.Local

open VaporForge.CloudCore
open Lib

/-! ## The reduction -/

/-- `MergeOrder` of a record. -/
def SteamAppStateRecord.mergeOrder (record : SteamAppStateRecord) : Int ×ₗ ℕ ×ₗ String :=
  toLex (record.observedAt, toLex (record.clientId, record.commitId))

def SteamAppStateRecord.achievementState (record : SteamAppStateRecord)
    (achievement : StoredAchievementState) : AchievementSyncState where
  appId := record.appId
  achievementKey := achievement.key
  unlocked := achievement.unlocked
  progressCurrent := none
  progressMax := none
  observedAt := record.observedAt
  unlockedAt := achievement.unlockedAt

def SteamAppStateRecord.statState (record : SteamAppStateRecord) (stat : StoredStatState) :
    StatSyncState :=
  ⟨record.appId, stat.key, stat.valueType, stat.value, record.observedAt⟩

/-- What `merge_achievement` does to a key that is there already. -/
def joinAchievements (current incoming : AchievementSyncState) : AchievementSyncState :=
  let unlocked := current.unlocked || incoming.unlocked
  { current with
    unlocked := unlocked
    observedAt := max current.observedAt incoming.observedAt
    unlockedAt := if unlocked then earliest current.unlockedAt incoming.unlockedAt else none }

/-- `merge_achievement`. -/
def mergeAchievement (states : Std.ExtTreeMap AppKey AchievementSyncState compare) (key : AppKey)
    (incoming : AchievementSyncState) : Std.ExtTreeMap AppKey AchievementSyncState compare :=
  upsert joinAchievements states key incoming

def reduceAchievements (records : List SteamAppStateRecord) :
    Std.ExtTreeMap AppKey AchievementSyncState compare :=
  records.foldl (fun states record =>
    record.achievements.foldl (fun states achievement =>
      mergeAchievement states ⟨record.appId, achievement.key⟩
        (record.achievementState achievement)) states) ∅

def reduceStats (records : List SteamAppStateRecord) :
    Std.ExtTreeMap AppKey (StatSyncState × Int ×ₗ ℕ ×ₗ String) compare :=
  records.foldl (fun states record =>
    record.stats.foldl (fun states stat =>
      insertLatest states ⟨record.appId, stat.key⟩ (record.statState stat)
        record.mergeOrder) states) ∅

/-- `reduce_app_state`; `only` restricts it to one app. -/
def reduceAppState (records : List SteamAppStateRecord) (only : Option Nat) :
    Result (List AchievementSyncState × List StatSyncState) :=
  let wanted := records.filter fun record => only.all (· = record.appId)
  return ((reduceAchievements wanted).toList.map Prod.snd,
    (reduceStats wanted).toList.map fun e => e.2.1)

/-! ## Reading the records -/

/-- What `read_dir` returns for an account: its app directories, and in each the JSON files
by ClientID, all in no particular order. -/
abbrev AccountListing := List (Nat × List (Nat × Bytes))

/-- `account_app_roots`. -/
def accountAppRoots (steamId64 : String) (listing : AccountListing) : Result AccountListing := do
  validateSteamId steamId64
  if listing.length > maxAccountApps then
    throw (permanent "too many local account App directories")
  return listing.mergeSort fun a b => a.1 ≤ b.1

/-! ## Both maps are folds over reports -/

theorem insertLatest_eq_upsert {K V O : Type} [LinearOrder K] [LinearOrder O]
    (states : Std.ExtTreeMap K (V × O) compare) (key : K) (state : V) (order : O) :
    insertLatest states key state order = upsert (latest Prod.snd) states key (state, order) := by
  unfold insertLatest upsert latest
  cases hcurrent : states[key]? with
  | none => rfl
  | some current =>
    by_cases hlt : current.2 < order
    · simp [hlt]
    · have hsame : states.insert key current = states := by
        refine Std.ExtTreeMap.ext_getElem? fun k => ?_
        rw [Std.ExtTreeMap.getElem?_insert]
        split
        next heq => rw [← compare_eq_iff_eq.mp heq, hcurrent]
        next => rfl
      simp [hlt, hsame]

def achievementReports (records : List SteamAppStateRecord) :
    List (AppKey × AchievementSyncState) :=
  records.flatMap fun record => record.achievements.map fun achievement =>
    (⟨record.appId, achievement.key⟩, record.achievementState achievement)

def statReports (records : List SteamAppStateRecord) :
    List (AppKey × StatSyncState × Int ×ₗ ℕ ×ₗ String) :=
  records.flatMap fun record => record.stats.map fun stat =>
    (⟨record.appId, stat.key⟩, record.statState stat, record.mergeOrder)

theorem reduceAchievements_eq (records : List SteamAppStateRecord) :
    reduceAchievements records = upsertAll joinAchievements ∅ (achievementReports records) :=
  foldl_upsert_eq _ _ _ records ∅

theorem reduceStats_eq (records : List SteamAppStateRecord) :
    reduceStats records = upsertAll (latest Prod.snd) ∅ (statReports records) := by
  simp only [reduceStats, insertLatest_eq_upsert]
  exact foldl_upsert_eq _ _ _ records ∅

theorem foldAchievements_eq (records : List SteamAppStateRecord) :
    foldAchievements records = upsertAll StoredAchievementState.join ∅
      (records.flatMap fun record => record.achievements.map fun a => (a.key, a)) :=
  foldl_upsert_eq _ _ _ records ∅

theorem foldStats_eq (records : List SteamAppStateRecord) :
    foldStats records = upsertAll (latest Prod.snd) ∅
      (records.flatMap fun record => record.stats.map fun s => (s.key, s, record.order)) := by
  simp only [foldStats, insertLatest_eq_upsert]
  exact foldl_upsert_eq _ _ _ records ∅

/-! ## Summaries of unlocks -/

/-- What a report says of an achievement. -/
structure Unlock where
  unlocked : Bool
  time : Option Int

def StoredAchievementState.unlock (a : StoredAchievementState) : Unlock :=
  ⟨a.unlocked, a.unlockedAt⟩

def achievementUnlock (state : AchievementSyncState) : Unlock := ⟨state.unlocked, state.unlockedAt⟩

namespace Unlock

/-- A known time belongs to an unlock. -/
def Valid (u : Unlock) : Prop := ∀ t, u.time = some t → u.unlocked = true

def join (u v : Unlock) : Unlock :=
  let unlocked := u.unlocked || v.unlocked
  ⟨unlocked, if unlocked then earliest u.time v.time else none⟩

/-- Unlocked if some report is, at the earliest time any report knows. -/
structure Summary (reports : Set Unlock) (u : Unlock) : Prop where
  unlocked : u.unlocked = true ↔ ∃ r ∈ reports, r.unlocked = true
  time : LeastOf {t | ∃ r ∈ reports, r.time = some t} u.time

theorem Summary.singleton (u : Unlock) : Summary {u} u := by
  refine ⟨by simp, LeastOf.intro (fun m hm => ⟨u, rfl, hm⟩) fun t ht => ?_⟩
  obtain ⟨r, rfl, hr⟩ := ht
  exact ⟨t, hr, le_rfl⟩

variable {u v : Unlock}

theorem Summary.valid {reports : Set Unlock} (h : Summary reports u)
    (hvalid : ∀ r ∈ reports, r.Valid) : u.Valid := by
  intro t ht
  have hmem := h.time
  rw [ht] at hmem
  obtain ⟨r, hr, hrt⟩ := hmem.mem
  exact h.unlocked.mpr ⟨r, hr, hvalid r hr t hrt⟩

variable {R S : Set Unlock}

/-- Joining two summaries summarises both sets. -/
theorem Summary.union (hu : Summary R u) (hv : Summary S v) (huv : u.Valid) (hvv : v.Valid) :
    Summary (R ∪ S) (u.join v) := by
  have htimes : {t | ∃ r ∈ R ∪ S, r.time = some t} =
      {t | ∃ r ∈ R, r.time = some t} ∪ {t | ∃ r ∈ S, r.time = some t} := by
    ext t
    simp only [Set.mem_union, Set.mem_ofPred_eq, or_and_right, exists_or]
  have hearliest := hu.time.union hv.time
  rw [← htimes] at hearliest
  constructor
  · rw [show (u.join v).unlocked = (u.unlocked || v.unlocked) from rfl, Bool.or_eq_true,
      hu.unlocked, hv.unlocked]
    simp only [Set.mem_union, or_and_right, exists_or]
  · unfold join
    cases hlocked : u.unlocked || v.unlocked with
    | true => exact hearliest
    | false =>
      -- with neither unlocked no time is known, so dropping it changes nothing
      obtain ⟨hu', hv'⟩ := Bool.or_eq_false_iff.mp hlocked
      have hut : u.time = none := Option.eq_none_iff_forall_ne_some.mpr fun t ht =>
        absurd (huv t ht) (by simp [hu'])
      have hvt : v.time = none := Option.eq_none_iff_forall_ne_some.mpr fun t ht =>
        absurd (hvv t ht) (by simp [hv'])
      rw [hut, hvt] at hearliest
      exact hearliest

theorem join_valid : (u.join v).Valid := by
  intro t ht
  unfold join at ht ⊢
  cases hlocked : u.unlocked || v.unlocked with
  | true => rfl
  | false =>
    rw [hlocked] at ht
    cases ht

/-- A fold that joins unlocks summarises everything it went over. -/
theorem Summary.foldl {β : Type} {f : β → β → β} {unlock : β → Unlock}
    (hf : ∀ a b, unlock (f a b) = (unlock a).join (unlock b)) (v : β) (vs : List β)
    (hvalid : ∀ x ∈ v :: vs, (unlock x).Valid) :
    Summary {u | ∃ x ∈ v :: vs, unlock x = u} (unlock (vs.foldl f v)) := by
  -- from any summary of what came before
  have hgo : ∀ (vs : List β) (R : Set Unlock) (v : β), Summary R (unlock v) → (unlock v).Valid →
      (∀ x ∈ vs, (unlock x).Valid) →
      Summary (R ∪ {u | ∃ x ∈ vs, unlock x = u}) (unlock (vs.foldl f v)) := by
    intro vs
    induction vs with
    | nil =>
      intro R v h _ _
      simpa using h
    | cons w vs ih =>
      intro R v h hv hvs
      have hw := hvs w List.mem_cons_self
      have hstep := h.union (Summary.singleton (unlock w)) hv hw
      rw [← hf] at hstep
      have hnext := ih _ (f v w) hstep (hf v w ▸ join_valid) fun x hx =>
        hvs x (List.mem_cons_of_mem _ hx)
      have hset : R ∪ {unlock w} ∪ {u | ∃ x ∈ vs, unlock x = u} =
          R ∪ {u | ∃ x ∈ w :: vs, unlock x = u} := by
        rw [Set.union_assoc]
        congr 1
        ext u
        simp [eq_comm]
      rw [hset] at hnext
      exact hnext
  have hall := hgo vs {unlock v} v (Summary.singleton _) (hvalid v List.mem_cons_self)
    fun x hx => hvalid x (List.mem_cons_of_mem _ hx)
  have hset : {unlock v} ∪ {u | ∃ x ∈ vs, unlock x = u} =
      {u | ∃ x ∈ v :: vs, unlock x = u} := by
    ext u
    simp [eq_comm]
  rw [hset] at hall
  exact hall

/-- A summary of summaries summarises what they summarise. -/
theorem Summary.flatten {T : Set Unlock} (h : Summary S u) (hdown : ∀ s ∈ S, ∃ R ⊆ T, Summary R s)
    (hup : ∀ t ∈ T, ∃ s ∈ S, ∃ R ⊆ T, t ∈ R ∧ Summary R s) : Summary T u := by
  constructor
  · rw [h.unlocked]
    constructor
    · rintro ⟨s, hs, hunlocked⟩
      obtain ⟨R, hR, hsum⟩ := hdown s hs
      obtain ⟨r, hr, hrun⟩ := hsum.unlocked.mp hunlocked
      exact ⟨r, hR hr, hrun⟩
    · rintro ⟨t, ht, hunlocked⟩
      obtain ⟨s, hs, R, _, htR, hsum⟩ := hup t ht
      exact ⟨s, hs, hsum.unlocked.mpr ⟨t, htR, hunlocked⟩⟩
  · refine LeastOf.intro (fun m hm => ?_) fun x hx => ?_
    · have hleast := h.time
      rw [hm] at hleast
      obtain ⟨s, hs, hst⟩ := hleast.mem
      obtain ⟨R, hR, hsum⟩ := hdown s hs
      have hinner := hsum.time
      rw [hst] at hinner
      obtain ⟨r, hr, hrt⟩ := hinner.mem
      exact ⟨r, hR hr, hrt⟩
    · obtain ⟨t, ht, htx⟩ := hx
      obtain ⟨s, hs, R, _, htR, hsum⟩ := hup t ht
      obtain ⟨m', hm', hle'⟩ := hsum.time.exists_le ⟨t, htR, htx⟩
      obtain ⟨m, hm, hle⟩ := h.time.exists_le ⟨s, hs, hm'⟩
      exact ⟨m, hm, hle.trans hle'⟩

theorem Summary.unique (hu : Summary R u) (hv : Summary R v) : u = v := by
  have hunlocked : u.unlocked = v.unlocked :=
    Bool.eq_iff_iff.mpr (hu.unlocked.trans hv.unlocked.symm)
  have htime : u.time = v.time := hu.time.unique hv.time
  cases u
  cases v
  cases hunlocked
  cases htime
  rfl

end Unlock

/-! ## The state of one key -/

section Keys

variable {records : List SteamAppStateRecord} {key : AppKey}

/-- What a record reports about an achievement. -/
def AchievementReported (records : List SteamAppStateRecord) (key : AppKey)
    (state : AchievementSyncState) : Prop :=
  ∃ record ∈ records, record.appId = key.appId ∧
    ∃ a ∈ record.achievements, a.key = key.key ∧ record.achievementState a = state

/-- What a record reports about a stat, with the order it reports it at. -/
def StatReported (records : List SteamAppStateRecord) (key : AppKey)
    (report : StatSyncState × Int ×ₗ ℕ ×ₗ String) : Prop :=
  ∃ record ∈ records, record.appId = key.appId ∧
    ∃ s ∈ record.stats, s.key = key.key ∧ (record.statState s, record.mergeOrder) = report

variable {state : AchievementSyncState}

theorem mem_achievementReports :
    state ∈ valuesAt key (achievementReports records) ↔
      AchievementReported records key state := by
  rcases key with ⟨appId, key⟩
  simp only [mem_valuesAt, achievementReports, AchievementReported, List.mem_flatMap,
    List.mem_map, Prod.mk.injEq, AppKey.mk.injEq]
  constructor
  · rintro ⟨record, hrecord, a, ha, ⟨happ, hkey⟩, hstate⟩
    exact ⟨record, hrecord, happ, a, ha, hkey, hstate⟩
  · rintro ⟨record, hrecord, happ, a, ha, hkey, hstate⟩
    exact ⟨record, hrecord, a, ha, ⟨happ, hkey⟩, hstate⟩

theorem mem_statReports {report : StatSyncState × Int ×ₗ ℕ ×ₗ String} :
    report ∈ valuesAt key (statReports records) ↔ StatReported records key report := by
  rcases key with ⟨appId, key⟩
  simp only [mem_valuesAt, statReports, StatReported, List.mem_flatMap, List.mem_map,
    Prod.mk.injEq, AppKey.mk.injEq]
  constructor
  · rintro ⟨record, hrecord, s, hs, ⟨happ, hkey⟩, hreport⟩
    exact ⟨record, hrecord, happ, s, hs, hkey, hreport⟩
  · rintro ⟨record, hrecord, happ, s, hs, hkey, hreport⟩
    exact ⟨record, hrecord, s, hs, ⟨happ, hkey⟩, hreport⟩

/-- At most one record for every app and device. -/
def OnePerDevice (records : List SteamAppStateRecord) : Prop :=
  ∀ r ∈ records, ∀ r' ∈ records, r.appId = r'.appId → r.clientId = r'.clientId → r = r'

variable {r : SteamAppStateRecord} {P : SyncPlatform} {records' : List SteamAppStateRecord}
  {files : RecordFiles} {l : List (RecordPath × Bytes)}

theorem mergeOrder_clientId {r' : SteamAppStateRecord} (h : r.mergeOrder = r'.mergeOrder) :
    r.clientId = r'.clientId := by
  have hpair := toLex.injective h
  exact congrArg (fun o => (ofLex o).1) (Prod.mk.inj hpair).2

/-- Two reports of a key at one order are the same report: an order names its device. -/
theorem StatReported.unique (hone : OnePerDevice records)
    (hvalid : ∀ r ∈ records, WellFormed r) {a b : StatSyncState × Int ×ₗ ℕ ×ₗ String}
    (ha : StatReported records key a) (hb : StatReported records key b) (heq : a.2 = b.2) :
    a = b := by
  obtain ⟨r, hr, happ, s, hs, hkey, rfl⟩ := ha
  obtain ⟨r', hr', happ', s', hs', hkey', rfl⟩ := hb
  have hsame : r = r' := hone r hr r' hr' (happ.trans happ'.symm) (mergeOrder_clientId heq)
  subst hsame
  rw [List.inj_on_of_nodup_map (hvalid r hr).statKeys hs hs' (hkey.trans hkey'.symm)]

/-- A stat is the report of the greatest merge order. -/
theorem getElem?_reduceStats {r : StatSyncState × Int ×ₗ ℕ ×ₗ String}
    (hone : OnePerDevice records) (hvalid : ∀ r ∈ records, WellFormed r) :
    (reduceStats records)[key]? = some r ↔
      StatReported records key r ∧ ∀ x, StatReported records key x → x.2 ≤ r.2 := by
  rw [reduceStats_eq, getElem?_upsertAll_eq_some_iff]
  constructor
  · rintro ⟨v, vs, hvalues, rfl⟩
    obtain ⟨hmem, hmax⟩ := foldl_latest Prod.snd v vs
    rw [← hvalues] at hmem hmax
    exact ⟨mem_statReports.mp hmem, fun x hx => hmax x (mem_statReports.mpr hx)⟩
  · rintro ⟨hr, hmax⟩
    have hmem := mem_statReports.mpr hr
    obtain ⟨v, vs, hvalues⟩ := List.exists_cons_of_ne_nil (List.ne_nil_of_mem hmem)
    obtain ⟨hmem', hmax'⟩ := foldl_latest Prod.snd v vs
    rw [← hvalues] at hmem' hmax'
    have hreported := mem_statReports.mp hmem'
    refine ⟨v, vs, hvalues, hreported.unique hone hvalid hr ?_⟩
    exact le_antisymm (hmax _ hreported) (hmax' r hmem)

/-- The achievement state that a set of reports of one key makes. -/
structure Merged (key : AppKey) (reports : Set AchievementSyncState)
    (state : AchievementSyncState) : Prop where
  named : state.appId = key.appId ∧ state.achievementKey = key.key ∧
    state.progressCurrent = none ∧ state.progressMax = none
  summary : Unlock.Summary (Set.image achievementUnlock reports) (achievementUnlock state)
  observed : IsGreatest (Set.image AchievementSyncState.observedAt reports) state.observedAt

theorem Merged.unique {reports : Set AchievementSyncState} {a b : AchievementSyncState}
    (ha : Merged key reports a) (hb : Merged key reports b) : a = b := by
  obtain ⟨hunlocked, htime⟩ := Unlock.mk.inj (ha.summary.unique hb.summary)
  have hobserved := ha.observed.unique hb.observed
  obtain ⟨⟨h₁, h₂, h₃, h₄⟩, ⟨h₅, h₆, h₇, h₈⟩⟩ := And.intro ha.named hb.named
  cases a
  cases b
  simp_all

theorem foldl_joinAchievements_named (v : AchievementSyncState) (vs : List AchievementSyncState) :
    (vs.foldl joinAchievements v).appId = v.appId ∧
      (vs.foldl joinAchievements v).achievementKey = v.achievementKey ∧
      (vs.foldl joinAchievements v).progressCurrent = v.progressCurrent ∧
      (vs.foldl joinAchievements v).progressMax = v.progressMax := by
  induction vs generalizing v with
  | nil => exact ⟨rfl, rfl, rfl, rfl⟩
  | cons w vs ih => exact ih (joinAchievements v w)

theorem foldl_joinAchievements_observed (v : AchievementSyncState)
    (vs : List AchievementSyncState) :
    IsGreatest (Set.image AchievementSyncState.observedAt {x | x ∈ v :: vs})
      (vs.foldl joinAchievements v).observedAt := by
  induction vs generalizing v with
  | nil =>
    refine ⟨⟨v, List.mem_singleton_self v, rfl⟩, ?_⟩
    rintro _ ⟨x, hx, rfl⟩
    rw [List.mem_singleton.mp hx]
    exact le_rfl
  | cons w vs ih =>
    obtain ⟨⟨x, hx, hxo⟩, hbound⟩ := ih (joinAchievements v w)
    have hmax : (joinAchievements v w).observedAt = max v.observedAt w.observedAt := rfl
    have htop := hbound ⟨_, List.mem_cons_self, rfl⟩
    rw [hmax] at htop
    refine ⟨?_, ?_⟩
    · rcases List.mem_cons.mp hx with rfl | hx
      · -- the maximum so far is one of the two joined
        rw [List.foldl_cons, ← hxo, hmax]
        rcases le_total v.observedAt w.observedAt with hle | hle
        · exact ⟨w, by simp, (max_eq_right hle).symm⟩
        · exact ⟨v, by simp, (max_eq_left hle).symm⟩
      · exact ⟨x, List.mem_cons_of_mem _ (List.mem_cons_of_mem _ hx), hxo⟩
    · rintro _ ⟨y, hy, rfl⟩
      rcases List.mem_cons.mp hy with rfl | hy
      · exact (le_max_left _ _).trans htop
      · rcases List.mem_cons.mp hy with rfl | hy
        · exact (le_max_right _ _).trans htop
        · exact hbound ⟨y, List.mem_cons_of_mem _ hy, rfl⟩

theorem AchievementReported.valid (hvalid : ∀ r ∈ records, WellFormed r)
    (h : AchievementReported records key state) : (achievementUnlock state).Valid := by
  obtain ⟨r, hr, _, a, ha, _, rfl⟩ := h
  exact (hvalid r hr).unlocked a ha

/-- An achievement is the summary of its reports. -/
theorem getElem?_reduceAchievements (hvalid : ∀ r ∈ records, WellFormed r) :
    (reduceAchievements records)[key]? = some state ↔
      (∃ report, AchievementReported records key report) ∧
        Merged key {x | AchievementReported records key x} state := by
  have hfold : ∀ v vs, valuesAt key (achievementReports records) = v :: vs →
      Merged key {x | AchievementReported records key x} (vs.foldl joinAchievements v) := by
    intro v vs hvalues
    have hset : {x | x ∈ v :: vs} = {x | AchievementReported records key x} := by
      ext x
      rw [← hvalues]
      exact mem_achievementReports
    have hmem : ∀ x ∈ v :: vs, AchievementReported records key x := fun x hx =>
      mem_achievementReports.mp (hvalues ▸ hx)
    refine ⟨?_, ?_, ?_⟩
    · obtain ⟨happ, hkey, hcurrent, hmax⟩ := foldl_joinAchievements_named v vs
      obtain ⟨r, _, happ', a, _, hkey', rfl⟩ := hmem v List.mem_cons_self
      exact ⟨happ.trans happ', hkey.trans hkey', hcurrent, hmax⟩
    · rw [← hset]
      exact Unlock.Summary.foldl (fun a b => rfl) v vs fun x hx => (hmem x hx).valid hvalid
    · rw [← hset]
      exact foldl_joinAchievements_observed v vs
  rw [reduceAchievements_eq, getElem?_upsertAll_eq_some_iff]
  constructor
  · rintro ⟨v, vs, hvalues, rfl⟩
    have hv : v ∈ valuesAt key (achievementReports records) := by
      rw [hvalues]
      exact List.mem_cons_self
    exact ⟨⟨v, mem_achievementReports.mp hv⟩, hfold v vs hvalues⟩
  · rintro ⟨⟨report, hreport⟩, hmerged⟩
    obtain ⟨v, vs, hvalues⟩ :=
      List.exists_cons_of_ne_nil (List.ne_nil_of_mem (mem_achievementReports.mpr hreport))
    exact ⟨v, vs, hvalues, (hfold v vs hvalues).unique hmerged⟩

end Keys

/-! ## Order and repetition -/

variable {steamId64 : String}

theorem wellFormed_of_valid {path : Option Nat}
    (h : validateStatsRecord P r steamId64 r.appId path = .ok ()) : WellFormed r :=
  (validateStatsRecord_eq_ok h).2.2

theorem reduceAchievements_congr {records : List SteamAppStateRecord}
    (hvalid : ∀ r ∈ records, WellFormed r) (hmem : ∀ r, r ∈ records ↔ r ∈ records') :
    reduceAchievements records = reduceAchievements records' := by
  refine map_eq_of_getElem? fun key state => ?_
  have hreported : AchievementReported records key = AchievementReported records' key := by
    funext x
    simp only [AchievementReported, hmem]
  rw [getElem?_reduceAchievements hvalid,
    getElem?_reduceAchievements fun r hr => hvalid r ((hmem r).mpr hr), hreported]

theorem reduceStats_congr {records : List SteamAppStateRecord} (hone : OnePerDevice records)
    (hvalid : ∀ r ∈ records, WellFormed r) (hmem : ∀ r, r ∈ records ↔ r ∈ records') :
    reduceStats records = reduceStats records' := by
  refine map_eq_of_getElem? fun key report => ?_
  have hreported : StatReported records key = StatReported records' key := by
    funext x
    simp only [StatReported, hmem]
  have hone' : OnePerDevice records' := fun r hr r' hr' =>
    hone r ((hmem r).mpr hr) r' ((hmem r').mpr hr')
  rw [getElem?_reduceStats hone hvalid,
    getElem?_reduceStats hone' fun r hr => hvalid r ((hmem r).mpr hr), hreported]

/-- Two lists of valid records with the same members, at most one for every app and device,
reduce to the same state: order and repetition do not matter. -/
theorem reduceAppState_eq_of_mem_iff (P : SyncPlatform) (steamId64 : String)
    (records records' : List SteamAppStateRecord) (only : Option Nat)
    (hvalid : ∀ r ∈ records, ∃ path,
      validateStatsRecord P r steamId64 r.appId path = .ok ())
    (hone : OnePerDevice records) (hmem : ∀ r, r ∈ records ↔ r ∈ records') :
    reduceAppState records only = reduceAppState records' only := by
  have hwell : ∀ r ∈ records, WellFormed r := fun r hr =>
    (hvalid r hr).elim fun _ h => wellFormed_of_valid h
  have hwanted : ∀ r, r ∈ (records.filter fun record => only.all (· = record.appId)) ↔
      r ∈ (records'.filter fun record => only.all (· = record.appId)) := by
    intro r
    simp only [List.mem_filter, hmem]
  have hsub : ∀ r ∈ records.filter (fun record => only.all (· = record.appId)), r ∈ records :=
    fun r hr => (List.mem_filter.mp hr).1
  simp only [reduceAppState]
  rw [reduceAchievements_congr (fun r hr => hwell r (hsub r hr)) hwanted,
    reduceStats_congr (fun r hr r' hr' => hone r (hsub r hr) r' (hsub r' hr'))
      (fun r hr => hwell r (hsub r hr)) hwanted]

theorem reduceAppState_eq_of_mem_iff_repeated :
    reduceAppState [syncRecord 7 "c1" 1 none [kills "1"], syncRecord 9 "c2" 3 (some 30) [kills "2"]]
        none =
      reduceAppState [syncRecord 9 "c2" 3 (some 30) [kills "2"], syncRecord 7 "c1" 1 none [kills "1"],
        syncRecord 9 "c2" 3 (some 30) [kills "2"]] none := by
  refine reduceAppState_eq_of_mem_iff sharedApp.platform account _ _ none ?_ ?_ ?_
  · intro r hr
    simp only [List.mem_cons, List.not_mem_nil, or_false] at hr
    rcases hr with rfl | rfl
    · exact ⟨some 7, by decide +kernel⟩
    · exact ⟨some 9, by decide +kernel⟩
  · unfold OnePerDevice
    decide +kernel
  · intro r
    simp only [List.mem_cons, List.not_mem_nil, or_false]
    tauto

/-! ## What is read is what is stored -/

/-- The listing is of these files: every app directory once, with exactly its files. -/
structure Listed (files : RecordFiles) (steamId64 : String) (listing : AccountListing) : Prop where
  apps : (listing.map Prod.fst).Nodup
  mem : ∀ dir ∈ listing, ∀ (client : Nat) (bytes : Bytes), (client, bytes) ∈ dir.2 ↔
    files[(⟨steamId64, dir.1, client⟩ : RecordPath)]? = some bytes
  clients : ∀ dir ∈ listing, (dir.2.map Prod.fst).Nodup
  complete : ∀ (path : RecordPath) (bytes : Bytes), files[path]? = some bytes →
    path.steamId64 = steamId64 → path.appId ∈ listing.map Prod.fst

theorem jsonResult_eq_ok {α : Type} {x : Except String α} {a : α} :
    jsonResult x = .ok a ↔ x = .ok a := by
  cases x with
  | ok value => simp [jsonResult]
  | error error => simp [jsonResult]

/-- The records a reader holds, from what the files hold. -/
theorem storedRecord_iff_of_toList {records : List SteamAppStateRecord} (hfiles : files.toList = l)
    (hsteam : ∀ e ∈ l, e.1.steamId64 = steamId64)
    (hdecode : l.map (fun e => P.decodeStats e.2) = records.map .ok) (r : SteamAppStateRecord) :
    r ∈ records ↔ StoredRecord P files steamId64 none r := by
  have hmem : r ∈ records ↔ ∃ e ∈ l, P.decodeStats e.2 = .ok r := by
    have hin : Except.ok r ∈ records.map (Except.ok : _ → Except String _) ↔ r ∈ records := by
      simp
    rw [← hin, ← hdecode, List.mem_map]
  rw [hmem]
  constructor
  · rintro ⟨e, he, hr⟩
    refine ⟨e.1, e.2, ?_, hsteam e he, nofun, hr⟩
    rw [← hfiles] at he
    exact mem_toList_iff.mp he
  · rintro ⟨path, bytes, hfile, _, _, hr⟩
    refine ⟨(path, bytes), ?_, hr⟩
    rw [← hfiles]
    exact mem_toList_iff.mpr hfile

/-- The listing of an account with one app, from what the files hold. -/
theorem listed_of_toList {appId : Nat} (hfiles : files.toList = l)
    (hpath : ∀ e ∈ l, e.1 = ⟨steamId64, appId, e.1.clientId⟩)
    (hclients : (l.map fun e => e.1.clientId).Nodup) :
    Listed files steamId64 [(appId, l.map fun e => (e.1.clientId, e.2))] where
  apps := by simp
  mem dir hdir client bytes := by
    rw [List.mem_singleton.mp hdir, List.mem_map]
    constructor
    · rintro ⟨e, he, heq⟩
      obtain ⟨rfl, rfl⟩ := Prod.mk.inj heq
      rw [← hpath e he]
      exact mem_toList_iff.mp (hfiles ▸ he)
    · intro hfile
      refine ⟨(⟨steamId64, appId, client⟩, bytes), ?_, rfl⟩
      rw [← hfiles]
      exact mem_toList_iff.mpr hfile
  clients dir hdir := by
    rw [List.mem_singleton.mp hdir, List.map_map]
    exact hclients
  complete path bytes hfile _ := by
    have he : (path, bytes) ∈ l := hfiles ▸ mem_toList_iff.mpr hfile
    have happ := congrArg RecordPath.appId (hpath _ he)
    simpa using happ

/-- What the desktop reads after the recorded run. -/
def desktopRecords : List SteamAppStateRecord :=
  [syncRecord 7 "c3" 5 (some 20) [kills "1"], syncRecord 9 "c2" 3 (some 30) [kills "2"]]

theorem mem_desktopRecords (r : SteamAppStateRecord) : r ∈ desktopRecords ↔
    StoredRecord sharedApp.platform (sharedWorld.folder 9).stats account none r := by
  have hfiles : (sharedWorld.folder 9).stats.toList =
      [(deckFile, (syncRecord 7 "c3" 5 (some 20) [kills "1"]).json),
        (desktopFile, (syncRecord 9 "c2" 3 (some 30) [kills "2"]).json)] := by decide +kernel
  refine storedRecord_iff_of_toList hfiles ?_ ?_ r
  · decide +kernel
  · decide +kernel

end VaporForge.Local
