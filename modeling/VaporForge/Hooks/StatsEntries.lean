import VaporForge.Hooks.StatsDenotation
import VaporForge.SteamProtocol.SchemaRoundTrip

/-!
# The service entries agree with the backend

> For a schema whose numbers and names are unambiguous, and a backend state that reports
> each key once, the service entries have ascending ids; an achievement's bit is set, and
> has its one unlock time, exactly if it is reported as unlocked; plain stats have their
> converted value; and nothing else is there (`service_entries_agree`).

The two name tables are read back as what the schema declares (`WireIds`). What the entries
say is `lastTime` over the writes (`service_denotes`), and as every key is reported once
there is one write for an achievement, so `lastTime` is what was reported.
-/

namespace VaporForge.Hooks

open VaporForge.CloudCore VaporForge.SteamProtocol
open Lib

/-! ## Names -/

section Names

variable {α : Type} {l : List (String × α)} {k : String} {v : α}

theorem lookup_collectMap_concat (l : List (String × α)) (e : String × α) (k : String) :
    (collectMap (l ++ [e])).lookup k = if k = e.1 then some e.2 else (collectMap l).lookup k := by
  rw [collectMap, List.foldl_append]
  exact Assoc.lookup_insert_eq _ _ _ _

theorem mem_of_lookup_collectMap (h : (collectMap l).lookup k = some v) : (k, v) ∈ l := by
  induction l using List.reverseRecOn with
  | nil => cases h
  | append_singleton l e ih =>
    rw [lookup_collectMap_concat] at h
    split at h
    next heq =>
      cases h
      exact List.mem_append_right _ (List.mem_singleton.mpr (Prod.ext heq rfl))
    next => exact List.mem_append_left _ (ih h)

theorem lookup_collectMap_of_mem (hnodup : (l.map Prod.fst).Nodup) (h : (k, v) ∈ l) :
    (collectMap l).lookup k = some v := by
  induction l using List.reverseRecOn with
  | nil => cases h
  | append_singleton l e ih =>
    rw [lookup_collectMap_concat]
    rw [List.map_append, List.nodup_append] at hnodup
    rcases List.mem_append.mp h with hmem | hmem
    · have hne : k ≠ e.1 := hnodup.2.2 k (List.mem_map_of_mem hmem) e.1 (List.mem_singleton.mpr rfl)
      rw [if_neg hne]
      exact ih hnodup.1 hmem
    · cases List.mem_singleton.mp hmem
      exact if_pos rfl

end Names

/-- A name of an achievement stands for one bit. -/
structure DistinctNames (stats : SchemaFields) : Prop where
  achievements : ∀ m m', DeclaresAchievement stats m → DeclaresAchievement stats m' →
    m.key = m'.key → m = m'
  stats : ∀ m m', DeclaresStat stats m → DeclaresStat stats m' → m.key = m'.key → m = m'

/-- The name tables say what the schema declares. -/
structure WireIds (stats : SchemaFields) (achievementIds : Assoc String AchievementWireId)
    (statIds : Assoc String Nat) : Prop where
  achievement : ∀ name wireId, achievementIds.lookup name = some wireId →
    DeclaresAchievement stats ⟨wireId.statId, wireId.achievementBit, name⟩
  stat : ∀ name statId, statIds.lookup name = some statId →
    ∃ valueType, DeclaresStat stats ⟨statId, name, valueType⟩

section Tables

variable {O : SchemaOrder} {schema : Bytes} {stats : SchemaFields}

/-- The two tables of a schema that parses. -/
def achievementTable (O : SchemaOrder) (stats : SchemaFields) : Assoc String AchievementWireId :=
  collectMap (((achievementMappings O stats).insertionSort fun a b => a.order ≤ b.order).map
    fun mapping => (mapping.key, ⟨mapping.statId, mapping.achievementBit⟩))

def statTable (O : SchemaOrder) (stats : SchemaFields) : Assoc String Nat :=
  collectMap (((statMappings O stats).insertionSort fun a b => a.statId ≤ b.statId).map
    fun mapping => (mapping.key, mapping.statId))

theorem achievementWireIds_eq (h : schemaStatsOf schema = .ok stats) :
    achievementWireIds O schema = some (achievementTable O stats) := by
  unfold achievementWireIds
  rw [parseAchievementBitMappings_eq, h]
  rfl

theorem statWireIds_eq (h : schemaStatsOf schema = .ok stats) :
    statWireIds O schema = some (statTable O stats) := by
  unfold statWireIds
  rw [parseStatMappings_eq, h]
  rfl

theorem wireIds (O : SchemaOrder) (stats : SchemaFields) :
    WireIds stats (achievementTable O stats) (statTable O stats) := by
  refine ⟨?_, ?_⟩
  · intro name wireId h
    obtain ⟨mapping, hmem, heq⟩ := List.mem_map.mp (mem_of_lookup_collectMap h)
    cases heq
    exact mem_achievementMappings.mp ((List.mem_insertionSort _).mp hmem)
  · intro name statId h
    obtain ⟨mapping, hmem, heq⟩ := List.mem_map.mp (mem_of_lookup_collectMap h)
    cases heq
    exact ⟨mapping.valueType, mem_statMappings.mp ((List.mem_insertionSort _).mp hmem)⟩

variable {m : AchievementBitMapping} {a : AchievementSyncState} {st : StatSyncState}

/-- With distinct names every declaration is found. -/
theorem lookup_achievementTable (hkeyed : KeyedFields stats) (h : Unambiguous stats)
    (hnames : DistinctNames stats) (hm : DeclaresAchievement stats m) :
    (achievementTable O stats).lookup m.key = some ⟨m.statId, m.achievementBit⟩ := by
  refine lookup_collectMap_of_mem ?_ (List.mem_map.mpr ⟨m, ?_, rfl⟩)
  · rw [List.map_map]
    refine List.Nodup.map_on ?_ ?_
    · intro m hm m' hm' heq
      rw [List.mem_insertionSort, mem_achievementMappings] at hm hm'
      exact hnames.achievements m m' hm hm' heq
    · exact ((List.perm_insertionSort _ _).nodup_iff.mpr
        (List.Nodup.of_map _ (nodup_achievementMappings hkeyed h O)))
  · exact (List.mem_insertionSort _).mpr (mem_achievementMappings.mpr hm)

theorem lookup_statTable (hkeyed : KeyedFields stats) (h : Unambiguous stats)
    (hnames : DistinctNames stats) {m : StatMapping} (hm : DeclaresStat stats m) :
    (statTable O stats).lookup m.key = some m.statId := by
  refine lookup_collectMap_of_mem ?_ (List.mem_map.mpr ⟨m, ?_, rfl⟩)
  · rw [List.map_map]
    refine List.Nodup.map_on ?_ ?_
    · intro m hm m' hm' heq
      rw [List.mem_insertionSort, mem_statMappings] at hm hm'
      exact hnames.stats m m' hm hm' heq
    · exact ((List.perm_insertionSort _ _).nodup_iff.mpr
        (List.Nodup.of_map _ (nodup_statMappings hkeyed h O)))
  · exact (List.mem_insertionSort _).mpr (mem_statMappings.mpr hm)

end Tables

/-! ## Ids belong to one declaration -/

section Ids

variable {stats : SchemaFields} (hkeyed : KeyedFields stats) (h : Unambiguous stats)

/-- The maps as they are stored. -/
def storedOrder : SchemaOrder := ⟨.stored, fun _ => .stored, .stored⟩

include hkeyed h

theorem achievement_eq_of_ids {m' : AchievementBitMapping} (hm : DeclaresAchievement stats m)
    (hm' : DeclaresAchievement stats m') (hstat : m.statId = m'.statId)
    (hbit : m.achievementBit = m'.achievementBit) : m = m' := by
  refine List.inj_on_of_nodup_map (nodup_achievementMappings hkeyed h storedOrder)
    (mem_achievementMappings.mpr hm) (mem_achievementMappings.mpr hm') ?_
  rw [AchievementBitMapping.order, AchievementBitMapping.order, hstat, hbit]

variable {m' : StatMapping}

theorem stat_eq_of_id {m : StatMapping} (hm : DeclaresStat stats m) (hm' : DeclaresStat stats m')
    (hstat : m.statId = m'.statId) : m = m' :=
  List.inj_on_of_nodup_map (nodup_statMappings hkeyed h storedOrder)
    (mem_statMappings.mpr hm) (mem_statMappings.mpr hm') hstat

/-- A stat with bits is not a plain one. -/
theorem achievement_ne_stat (hm : DeclaresAchievement stats m) (hm' : DeclaresStat stats m') :
    m.statId ≠ m'.statId := by
  intro heq
  obtain ⟨field, hfield, hid, bits, hbits, _⟩ := hm
  obtain ⟨field', hfield', hmapping⟩ := hm'
  obtain ⟨hid', stat, hstat, hnone⟩ := statMapping_eq_some hmapping
  have hsame : field = field' :=
    List.inj_on_of_nodup_map hkeyed.nodup hfield hfield'
      (h.statIds field hfield field' hfield' m.statId hid (heq ▸ hid'))
  subst hsame
  unfold statBits at hbits
  rw [hstat, Option.bind_some, hnone] at hbits
  cases hbits

end Ids

/-! ## Writes -/

section Writes

variable {achievementIds : Assoc String AchievementWireId} {statIds : Assoc String Nat}
  {P : StatsPlatform} {stats : SchemaFields}

/-- The writes of the achievements reported for an app. -/
def achievementWrites (achievementIds : Assoc String AchievementWireId) (appId : Nat)
    (achievements : List AchievementSyncState) : List AchievementWrite :=
  (achievements.filter fun a => a.appId = appId).filterMap (achievementWrite achievementIds)

def statWrites (P : StatsPlatform) (statIds : Assoc String Nat) (appId : Nat)
    (states : List StatSyncState) : List (Nat × BitVec 32) :=
  (states.filter fun s => s.appId = appId).filterMap (statWrite P statIds)

variable {w : AchievementWrite} {appId : Nat}

theorem achievementWrite_eq_some :
    achievementWrite achievementIds a = some w ↔
      achievementIds.lookup a.achievementKey = some w.wireId ∧ w.wireId.achievementBit < 32 ∧
        w.unlocked = a.unlocked ∧ unlockTime a = some w.time := by
  unfold achievementWrite
  rw [Option.bind_eq_some_iff]
  constructor
  · rintro ⟨wireId, hlookup, hwrite⟩
    split at hwrite
    next hbit =>
      obtain ⟨time, htime, rfl⟩ := Option.map_eq_some_iff.mp hwrite
      exact ⟨hlookup, hbit, rfl, htime⟩
    next => cases hwrite
  · rintro ⟨hlookup, hbit, hunlocked, htime⟩
    refine ⟨w.wireId, hlookup, ?_⟩
    rw [if_pos hbit, htime, Option.map_some, ← hunlocked]

theorem statWrite_eq_some {w : Nat × BitVec 32} :
    statWrite P statIds st = some w ↔
      statIds.lookup st.statKey = some w.1 ∧ statWireValue P st = some w.2 := by
  unfold statWrite
  rw [Option.bind_eq_some_iff]
  constructor
  · rintro ⟨statId, hlookup, hwrite⟩
    obtain ⟨value, hvalue, rfl⟩ := Option.map_eq_some_iff.mp hwrite
    exact ⟨hlookup, hvalue⟩
  · rintro ⟨hlookup, hvalue⟩
    refine ⟨w.1, hlookup, ?_⟩
    rw [hvalue, Option.map_some]

theorem mem_achievementWrites {achievements : List AchievementSyncState} :
    w ∈ achievementWrites achievementIds appId achievements ↔
      ∃ a ∈ achievements, a.appId = appId ∧ achievementWrite achievementIds a = some w := by
  unfold achievementWrites
  simp only [List.mem_filterMap, List.mem_filter, decide_eq_true_eq, and_assoc]

theorem mem_statWrites {states : List StatSyncState} {w : Nat × BitVec 32} :
    w ∈ statWrites P statIds appId states ↔
      ∃ st ∈ states, st.appId = appId ∧ statWrite P statIds st = some w := by
  unfold statWrites
  simp only [List.mem_filterMap, List.mem_filter, decide_eq_true_eq, and_assoc]

/-- Every key is reported once for an app. -/
structure ReportedOnce (achievements : List AchievementSyncState) (states : List StatSyncState) :
    Prop where
  achievements : (achievements.map fun a => (a.appId, a.achievementKey)).Nodup
  stats : (states.map fun st => (st.appId, st.statKey)).Nodup

/-- Among the reports of one app the key alone is distinct. -/
theorem nodup_keys_of_app {R : Type} {app : R → Nat} {key : R → String} {l : List R}
    (h : (l.map fun r => (app r, key r)).Nodup) (appId : Nat) :
    ((l.filter fun r => app r = appId).map key).Nodup := by
  have hfilter : ((l.filter fun r => app r = appId).map fun r => (app r, key r)).Nodup :=
    h.sublist (List.filter_sublist.map _)
  rw [List.Nodup, List.pairwise_map] at hfilter ⊢
  refine hfilter.imp_of_mem ?_
  intro r r' hr hr' hne heq
  have happ := of_decide_eq_true (List.mem_filter.mp hr).2
  have happ' := of_decide_eq_true (List.mem_filter.mp hr').2
  exact hne (Prod.ext (happ.trans happ'.symm) heq)

section Distinct

variable (hkeyed : KeyedFields stats) (hnumbers : Unambiguous stats)
  (hids : WireIds stats achievementIds statIds) {achievements : List AchievementSyncState}
  {states : List StatSyncState} (honce : ReportedOnce achievements states)

include hkeyed hnumbers hids honce

theorem nodup_achievementWrites (appId : Nat) :
    ((achievementWrites achievementIds appId achievements).map (·.wireId)).Nodup := by
  refine nodup_filterMap (nodup_keys_of_app honce.achievements appId) ?_
  intro a a' w w' hw hw' heq
  have hdeclared := hids.achievement _ _ (achievementWrite_eq_some.mp hw).1
  have hdeclared' := hids.achievement _ _ (achievementWrite_eq_some.mp hw').1
  rw [heq] at hdeclared
  exact congrArg AchievementBitMapping.key
    (achievement_eq_of_ids hkeyed hnumbers hdeclared hdeclared' rfl rfl)

theorem nodup_statWrites (appId : Nat) :
    ((statWrites P statIds appId states).map Prod.fst).Nodup := by
  refine nodup_filterMap (nodup_keys_of_app honce.stats appId) ?_
  intro st st' w w' hw hw' heq
  obtain ⟨_, hdeclared⟩ := hids.stat _ _ (statWrite_eq_some.mp hw).1
  obtain ⟨_, hdeclared'⟩ := hids.stat _ _ (statWrite_eq_some.mp hw').1
  exact congrArg StatMapping.key (stat_eq_of_id hkeyed hnumbers hdeclared hdeclared' heq)

end Distinct

variable {time s b : Nat}

/-- With one write for each bit the last one is the one. -/
theorem lastTime_eq_some_iff {writes : List AchievementWrite}
    (hnodup : (writes.map (·.wireId)).Nodup) {wireId : AchievementWireId} :
    lastTime writes wireId = some time ↔
      ∃ w ∈ writes, w.wireId = wireId ∧ w.unlocked = true ∧ w.time = time := by
  induction writes using List.reverseRecOn with
  | nil => simp [lastTime]
  | append_singleton writes w ih =>
    rw [List.map_append, List.nodup_append] at hnodup
    rw [lastTime_concat]
    simp only [List.mem_append, List.mem_singleton]
    by_cases heq : w.wireId = wireId
    · rw [if_pos heq]
      -- an earlier write to the same bit would repeat the wire id
      have hfirst : ∀ w' ∈ writes, w'.wireId ≠ wireId := by
        intro w' hmem heq'
        exact hnodup.2.2 _ (List.mem_map_of_mem hmem) _ (List.mem_singleton.mpr rfl)
          (heq'.trans heq.symm)
      constructor
      · intro htime
        split at htime
        next hunlocked => exact ⟨w, .inr rfl, heq, hunlocked, Option.some.inj htime⟩
        next => cases htime
      · rintro ⟨w', hmem | rfl, heq', hunlocked, rfl⟩
        · exact absurd heq' (hfirst w' hmem)
        · rw [if_pos hunlocked]
    · rw [if_neg heq, ih hnodup.1]
      constructor
      · rintro ⟨w', hmem, hw'⟩
        exact ⟨w', .inl hmem, hw'⟩
      · rintro ⟨w', hmem | rfl, hw'⟩
        · exact ⟨w', hmem, hw'⟩
        · exact absurd hw'.1 heq

end Writes

/-! ## The entries -/

def plainEntry (w : Nat × BitVec 32) : PlayerStatsEntry := ⟨some w.1, some w.2, []⟩

/-- Distinct ids are pushed one after the other. -/
theorem foldl_setServiceStat {writes : List (Nat × BitVec 32)}
    (hnodup : (writes.map Prod.fst).Nodup) :
    writes.foldl (fun stats w => setServiceStat stats w.1 w.2) [] = writes.map plainEntry := by
  induction writes using List.reverseRecOn with
  | nil => rfl
  | append_singleton writes w ih =>
    rw [List.map_append, List.nodup_append] at hnodup
    have hfresh : some w.1 ∉ (writes.map plainEntry).map (·.statId) := by
      rw [List.map_map]
      intro hmem
      obtain ⟨w', hw', heq⟩ := List.mem_map.mp hmem
      exact hnodup.2.2 w'.1 (List.mem_map_of_mem hw') w.1 (List.mem_singleton.mpr rfl)
        (Option.some.inj heq)
    rw [List.foldl_append, ih hnodup.1, List.map_append]
    exact rewriteOrPush_of_notMem hfresh

theorem plainEntries_ok {writes : List (Nat × BitVec 32)} (hnodup : (writes.map Prod.fst).Nodup) :
    EntriesOk (writes.map plainEntry) := by
  refine ⟨?_, ?_, ?_⟩
  · rw [List.map_map]
    exact List.Nodup.of_map (fun id => id.getD 0) (by rw [List.map_map]; exact hnodup)
  · rw [List.forall_mem_map]
    exact fun _ _ => rfl
  · rw [List.forall_mem_map]
    exact fun _ _ => ⟨List.nodup_nil, fun _ hmem => absurd hmem List.not_mem_nil⟩

def AchievementStat (stats : SchemaFields) (statId : Nat) : Prop :=
  ∃ m, DeclaresAchievement stats m ∧ m.statId = statId

/-- The entries before they are sorted. -/
def entriesOf (P : StatsPlatform) (achievementIds : Assoc String AchievementWireId)
    (statIds : Assoc String Nat) (appId : Nat) (achievements : List AchievementSyncState)
    (states : List StatSyncState) : List PlayerStatsEntry :=
  (achievementWrites achievementIds appId achievements).foldl AchievementWrite.service
    ((statWrites P statIds appId states).map plainEntry)

def sortEntries (entries : List PlayerStatsEntry) : List PlayerStatsEntry :=
  entries.insertionSort fun a b => a.statId.getD u32Max ≤ b.statId.getD u32Max

theorem sortEntries_perm (entries : List PlayerStatsEntry) : (sortEntries entries).Perm entries :=
  List.perm_insertionSort _ _

/-- The ids of sorted entries ascend. -/
theorem sortEntries_ascending {entries : List PlayerStatsEntry} (h : EntriesOk entries) :
    ∃ ids : List Nat, (sortEntries entries).map (·.statId) = ids.map some ∧
      ids.Pairwise (· < ·) := by
  have hgetD : ∀ entry ∈ entries, some (entry.statId.getD u32Max) = entry.statId := by
    intro entry hentry
    obtain ⟨id, hid⟩ := Option.isSome_iff_exists.mp (h.ids entry hentry)
    rw [hid]
    rfl
  have hnodup : (entries.map fun e => e.statId.getD u32Max).Nodup := by
    have hmap : entries.map (some ∘ fun e => e.statId.getD u32Max) = entries.map (·.statId) :=
      List.map_congr_left hgetD
    refine List.Nodup.of_map some ?_
    rw [List.map_map, hmap]
    exact h.nodup
  refine ⟨(sortEntries entries).map fun e => e.statId.getD u32Max, ?_, ?_⟩
  · rw [List.map_map]
    refine List.map_congr_left ?_
    intro entry hentry
    exact (hgetD entry ((sortEntries_perm entries).mem_iff.mp hentry)).symm
  · exact List.pairwise_map.mpr (ascending_insertionSort hnodup)

section Assemble

variable {P : StatsPlatform} {O : SchemaOrder} {schema : Bytes} {stats : SchemaFields}
  {appId : Nat} {achievements : List AchievementSyncState} {states : List StatSyncState}

theorem foldl_addServiceAchievement (achievementIds : Assoc String AchievementWireId)
    (start : List PlayerStatsEntry) :
    (achievements.filter fun a => a.appId = appId).foldl (addServiceAchievement achievementIds)
      start = (achievementWrites achievementIds appId achievements).foldl
        AchievementWrite.service start := by
  rw [achievementWrites, ← foldl_elim]
  congr 1
  funext stats a
  exact addServiceAchievement_eq stats a

theorem foldl_addServiceStat (statIds : Assoc String Nat) :
    (states.filter fun st => st.appId = appId).foldl (addServiceStat P statIds) [] =
      (statWrites P statIds appId states).foldl (fun stats w => setServiceStat stats w.1 w.2)
        [] := by
  rw [statWrites, ← foldl_elim]
  congr 1
  funext stats st
  exact addServiceStat_eq stats st

variable (hschema : schemaStatsOf schema = .ok stats) (hnumbers : Unambiguous stats)
  (honce : ReportedOnce achievements states)

include hschema hnumbers honce

theorem serviceStatsEntries_eq (P : StatsPlatform) (O : SchemaOrder) (appId : Nat) :
    serviceStatsEntries P O appId schema achievements states =
      some (sortEntries (entriesOf P (achievementTable O stats) (statTable O stats) appId
        achievements states)) := by
  have hkeyed := schemaStatsOf_keyed hschema
  unfold serviceStatsEntries
  rw [achievementWireIds_eq hschema, statWireIds_eq hschema]
  dsimp only [Option.bind_eq_bind, Option.bind_some]
  rw [foldl_addServiceAchievement, foldl_addServiceStat, foldl_setServiceStat
    (nodup_statWrites hkeyed hnumbers (wireIds O stats) honce appId)]
  rfl

theorem entriesOf_denotes (P : StatsPlatform) (O : SchemaOrder) (appId : Nat) :
    ServiceDenotes (AchievementStat stats)
      ((statWrites P (statTable O stats) appId states).map plainEntry)
      (achievementWrites (achievementTable O stats) appId achievements)
      (entriesOf P (achievementTable O stats) (statTable O stats) appId achievements
        states) := by
  have hkeyed := schemaStatsOf_keyed hschema
  have hids := wireIds O stats
  refine service_denotes (plainEntries_ok (nodup_statWrites hkeyed hnumbers hids honce appId))
    ?_ _ ?_
  · rintro s ⟨m, hm, rfl⟩
    refine findKey_eq_none_iff.mpr ?_
    rw [List.forall_mem_map]
    intro w hw heq
    obtain ⟨st, _, _, hwrite⟩ := mem_statWrites.mp hw
    obtain ⟨_, hdeclared⟩ := hids.stat _ _ (statWrite_eq_some.mp hwrite).1
    exact achievement_ne_stat hkeyed hnumbers hm hdeclared (Option.some.inj heq).symm
  · intro w hw
    obtain ⟨a, _, _, hwrite⟩ := mem_achievementWrites.mp hw
    obtain ⟨hlookup, hbit, _⟩ := achievementWrite_eq_some.mp hwrite
    exact ⟨⟨_, hids.achievement _ _ hlookup, rfl⟩, hbit⟩

end Assemble

/-! ## Reports that do not count -/

/-- The schema has no place for the report, or not for this app. -/
def IgnoredAchievement (stats : SchemaFields) (appId : Nat) (a : AchievementSyncState) : Prop :=
  a.appId ≠ appId ∨
    ∀ m, DeclaresAchievement stats m → m.key = a.achievementKey → 32 ≤ m.achievementBit

def IgnoredStat (P : StatsPlatform) (stats : SchemaFields) (appId : Nat) (st : StatSyncState) :
    Prop :=
  st.appId ≠ appId ∨ (∀ m, DeclaresStat stats m → m.key ≠ st.statKey) ∨ statWireValue P st = none

/-- An element that gives nothing may be left out. -/
theorem filterMap_filter_erase {α β : Type} {p : α → Bool} {f : α → Option β}
    {before after : List α} {x : α} (h : p x = true → f x = none) :
    ((before ++ x :: after).filter p).filterMap f = ((before ++ after).filter p).filterMap f := by
  rw [List.filter_append, List.filter_append, List.filterMap_append, List.filterMap_append,
    List.filter_cons]
  split
  next hx => rw [List.filterMap_cons, h hx]
  next => rfl

section Ignored

variable {P : StatsPlatform} {O : SchemaOrder} {schema : Bytes} {stats : SchemaFields}
  {appId : Nat} (hschema : schemaStatsOf schema = .ok stats)

include hschema

theorem serviceStatsEntries_ignored_achievement {before after : List AchievementSyncState}
    {states : List StatSyncState} (h : IgnoredAchievement stats appId a) :
    serviceStatsEntries P O appId schema (before ++ a :: after) states =
      serviceStatsEntries P O appId schema (before ++ after) states := by
  have hwrites : achievementWrites (achievementTable O stats) appId (before ++ a :: after) =
      achievementWrites (achievementTable O stats) appId (before ++ after) := by
    refine filterMap_filter_erase fun happ => Option.eq_none_iff_forall_ne_some.mpr ?_
    intro w hw
    obtain ⟨hlookup, hbit, _⟩ := achievementWrite_eq_some.mp hw
    have hlarge := (h.resolve_left fun hne => hne (of_decide_eq_true happ)) _
      ((wireIds O stats).achievement _ _ hlookup) rfl
    exact absurd hbit (Nat.not_lt.mpr hlarge)
  unfold serviceStatsEntries
  rw [achievementWireIds_eq hschema, statWireIds_eq hschema]
  dsimp only [Option.bind_eq_bind, Option.bind_some]
  rw [foldl_addServiceAchievement, foldl_addServiceAchievement, hwrites]

theorem serviceStatsEntries_ignored_stat {achievements : List AchievementSyncState}
    {before after : List StatSyncState} (h : IgnoredStat P stats appId st) :
    serviceStatsEntries P O appId schema achievements (before ++ st :: after) =
      serviceStatsEntries P O appId schema achievements (before ++ after) := by
  have hwrites : statWrites P (statTable O stats) appId (before ++ st :: after) =
      statWrites P (statTable O stats) appId (before ++ after) := by
    refine filterMap_filter_erase fun happ => Option.eq_none_iff_forall_ne_some.mpr ?_
    intro w hw
    obtain ⟨hlookup, hvalue⟩ := statWrite_eq_some.mp hw
    rcases h.resolve_left fun hne => hne (of_decide_eq_true happ) with hname | hnone
    · obtain ⟨_, hdeclared⟩ := (wireIds O stats).stat _ _ hlookup
      exact hname _ hdeclared rfl
    · rw [hnone] at hvalue
      cases hvalue
  unfold serviceStatsEntries
  rw [achievementWireIds_eq hschema, statWireIds_eq hschema]
  dsimp only [Option.bind_eq_bind, Option.bind_some]
  rw [foldl_addServiceStat, foldl_addServiceStat, hwrites]

end Ignored

/-! ## The payoff -/

def bitSet (entries : List PlayerStatsEntry) (statId b : Nat) : Prop :=
  ∃ entry ∈ entries, entry.statId = some statId ∧ entry.bit b = true

def unlockTimesAt (entries : List PlayerStatsEntry) (statId b : Nat) :
    List PlayerAchievementUnlockTime :=
  (entries.filter fun entry => entry.statId = some statId).flatMap fun entry =>
    entry.unlockTimes.filter fun t => t.achievementBit = some b

/-- The reported time as Steam can carry it: positive, in 32 bits; zero is no time. -/
def reportedTime (a : AchievementSyncState) : Nat :=
  match a.unlockedAt with
  | some time => if 0 < time ∧ time < 2 ^ 32 then time.toNat else achievementUnlockTimeUnknown
  | none => achievementUnlockTimeUnknown

theorem unlockTime_of_unlocked (h : a.unlocked = true) : unlockTime a = some (reportedTime a) := by
  unfold unlockTime reportedTime
  rw [h]
  cases a.unlockedAt with
  | none => rfl
  | some time =>
    by_cases hpos : 0 < time
    · have hfilter : (some time).filter (fun value => decide (0 < value)) = some time :=
        if_pos (decide_eq_true hpos)
      rw [hfilter, Option.bind_some]
      by_cases hlt : time < 2 ^ 32
      · rw [if_pos hlt]
        exact congrArg some (if_pos ⟨hpos, hlt⟩).symm
      · rw [if_neg hlt]
        exact congrArg some (if_neg fun hboth => hlt hboth.2).symm
    · have hfilter : (some time).filter (fun value => decide (0 < value)) = none :=
        if_neg (by rw [decide_eq_true_eq]; exact hpos)
      rw [hfilter]
      exact congrArg some (if_neg fun hboth => hpos hboth.1).symm

section Readers

variable {entries : List PlayerStatsEntry} (h : EntriesOk entries)

include h

theorem bitSet_iff : bitSet entries s b ↔ (findEntry entries s).elim false (·.bit b) = true := by
  unfold bitSet
  constructor
  · rintro ⟨entry, hmem, hid, hbit⟩
    have hfind : findEntry entries s = some entry :=
      (findKey_eq_some_iff h.nodup).mpr ⟨hmem, hid⟩
    rw [hfind]
    exact hbit
  · intro hbit
    cases hfind : findEntry entries s with
    | none =>
      rw [hfind] at hbit
      cases hbit
    | some entry =>
      rw [hfind] at hbit
      exact ⟨entry, mem_of_findKey hfind, key_of_findKey hfind, hbit⟩

/-- The unlock times of a bit are the one that is found. -/
theorem unlockTimesAt_eq (s b : Nat) :
    unlockTimesAt entries s b =
      (((findEntry entries s).bind (·.time b)).map fun time => ⟨some b, some time⟩).toList := by
  unfold unlockTimesAt
  rw [filter_key h.nodup]
  show ((findEntry entries s).toList).flatMap _ = _
  cases hfind : findEntry entries s with
  | none => rfl
  | some entry =>
    have hok := h.find hfind
    rw [Option.toList_some, List.flatMap_singleton, filter_key hok.nodup, Option.bind_some,
      PlayerStatsEntry.time]
    cases htime : findKey (·.achievementBit) (some b) entry.unlockTimes with
    | none => rfl
    | some t =>
      have hbit : t.achievementBit = some b := key_of_findKey htime
      obtain ⟨time, hsome⟩ := Option.isSome_iff_exists.mp
        (hok.complete t (mem_of_findKey htime)).2
      rw [Option.bind_some, hsome, ← hbit, Option.map_some, ← hsome]

end Readers

/-- A report of an app under a key. -/
def Reports (achievements : List AchievementSyncState) (appId : Nat) (key : String)
    (a : AchievementSyncState) : Prop :=
  a ∈ achievements ∧ a.appId = appId ∧ a.achievementKey = key

section Agree

variable {O : SchemaOrder} {stats : SchemaFields} {appId : Nat}
  {achievements : List AchievementSyncState} {states : List StatSyncState}

/-- What is written for a declared achievement is what is reported for it. -/
theorem lastTime_declared (hkeyed : KeyedFields stats) (hnumbers : Unambiguous stats)
    (hnames : DistinctNames stats) (honce : ReportedOnce achievements states)
    (hm : DeclaresAchievement stats m) (hbit : m.achievementBit < 32) :
    lastTime (achievementWrites (achievementTable O stats) appId achievements)
        ⟨m.statId, m.achievementBit⟩ = some time ↔
      ∃ a, Reports achievements appId m.key a ∧ a.unlocked = true ∧ reportedTime a = time := by
  have hids := wireIds O stats
  rw [lastTime_eq_some_iff (nodup_achievementWrites hkeyed hnumbers hids honce appId)]
  constructor
  · rintro ⟨w, hw, hwire, hunlocked, htime⟩
    obtain ⟨a, hmem, happ, hwrite⟩ := mem_achievementWrites.mp hw
    obtain ⟨hlookup, _, hsame, hunlockTime⟩ := achievementWrite_eq_some.mp hwrite
    rw [hwire] at hlookup
    have hkey : a.achievementKey = m.key := congrArg AchievementBitMapping.key
      (achievement_eq_of_ids hkeyed hnumbers (hids.achievement _ _ hlookup) hm rfl rfl)
    have ha : a.unlocked = true := hsame ▸ hunlocked
    rw [unlockTime_of_unlocked ha, Option.some.injEq] at hunlockTime
    exact ⟨a, ⟨hmem, happ, hkey⟩, ha, hunlockTime.trans htime⟩
  · rintro ⟨a, ⟨hmem, happ, hkey⟩, hunlocked, rfl⟩
    refine ⟨⟨⟨m.statId, m.achievementBit⟩, true, reportedTime a⟩,
      mem_achievementWrites.mpr ⟨a, hmem, happ, achievementWrite_eq_some.mpr ?_⟩, rfl, rfl, rfl⟩
    refine ⟨?_, hbit, hunlocked.symm, unlockTime_of_unlocked hunlocked⟩
    rw [hkey]
    exact lookup_achievementTable hkeyed hnumbers hnames hm

variable {P : StatsPlatform} {entries : List PlayerStatsEntry}
  (hdenotes : ServiceDenotes (AchievementStat stats)
    ((statWrites P (statTable O stats) appId states).map plainEntry)
    (achievementWrites (achievementTable O stats) appId achievements) entries)
  (hkeyed : KeyedFields stats) (hnumbers : Unambiguous stats) (hnames : DistinctNames stats)
  (honce : ReportedOnce achievements states)

include hdenotes hkeyed hnumbers hnames honce

theorem bitSet_declared (hm : DeclaresAchievement stats m) (hbit : m.achievementBit < 32) :
    bitSet entries m.statId m.achievementBit ↔
      ∃ a, Reports achievements appId m.key a ∧ a.unlocked = true := by
  rw [bitSet_iff hdenotes.ok, hdenotes.bit _ _ ⟨m, hm, rfl⟩, Option.isSome_iff_exists]
  simp only [lastTime_declared hkeyed hnumbers hnames honce hm hbit]
  constructor
  · rintro ⟨_, a, hreport, hunlocked, _⟩
    exact ⟨a, hreport, hunlocked⟩
  · rintro ⟨a, hreport, hunlocked⟩
    exact ⟨_, a, hreport, hunlocked, rfl⟩

theorem unlockTimesAt_declared (hm : DeclaresAchievement stats m) (hbit : m.achievementBit < 32) :
    (∀ a, Reports achievements appId m.key a → a.unlocked = true →
      unlockTimesAt entries m.statId m.achievementBit =
        [⟨some m.achievementBit, some (reportedTime a)⟩]) ∧
    ((¬∃ a, Reports achievements appId m.key a ∧ a.unlocked = true) →
      unlockTimesAt entries m.statId m.achievementBit = []) := by
  rw [unlockTimesAt_eq hdenotes.ok, hdenotes.time _ _ ⟨m, hm, rfl⟩]
  refine ⟨?_, ?_⟩
  · intro a hreport hunlocked
    rw [(lastTime_declared hkeyed hnumbers hnames honce hm hbit).mpr
      ⟨a, hreport, hunlocked, rfl⟩]
    rfl
  · intro hnone
    have htime : lastTime (achievementWrites (achievementTable O stats) appId achievements)
        ⟨m.statId, m.achievementBit⟩ = none := by
      rw [Option.eq_none_iff_forall_ne_some]
      intro time hsome
      obtain ⟨a, hreport, hunlocked, _⟩ :=
        (lastTime_declared hkeyed hnumbers hnames honce hm hbit).mp hsome
      exact hnone ⟨a, hreport, hunlocked⟩
    rw [htime]
    rfl

theorem plainEntry_mem {m : StatMapping} (hm : DeclaresStat stats m) (hst : st ∈ states)
    (happ : st.appId = appId) (hkey : st.statKey = m.key) {value : BitVec 32}
    (hvalue : statWireValue P st = some value) : ⟨some m.statId, some value, []⟩ ∈ entries := by
  have hplain : ¬AchievementStat stats m.statId := by
    rintro ⟨m', hm', heq⟩
    exact achievement_ne_stat hkeyed hnumbers hm' hm heq
  have hwrite : (m.statId, value) ∈ statWrites P (statTable O stats) appId states := by
    refine mem_statWrites.mpr ⟨st, hst, happ, statWrite_eq_some.mpr ⟨?_, hvalue⟩⟩
    rw [hkey]
    exact lookup_statTable hkeyed hnumbers hnames hm
  have hstart := findKey_of_mem (plainEntries_ok (nodup_statWrites (P := P) hkeyed hnumbers
    (wireIds O stats) honce appId)).nodup (List.mem_map_of_mem (f := plainEntry) hwrite)
  exact mem_of_findKey ((hdenotes.frame _ hplain).trans hstart)

variable {entry : PlayerStatsEntry}

omit hnames in
/-- A bit that is set or timed was written, and what is written is declared. -/
theorem declared_of_written (hmem : entry ∈ entries) (hid : entry.statId = some s)
    (hs : AchievementStat stats s)
    (h : entry.bit b = true ∨ ∃ t ∈ entry.unlockTimes, t.achievementBit = some b) :
    ∃ m, DeclaresAchievement stats m ∧ m.statId = s ∧ m.achievementBit = b ∧ b < 32 := by
  have hfind : findEntry entries s = some entry :=
    (findKey_eq_some_iff hdenotes.ok.nodup).mpr ⟨hmem, hid⟩
  have hwritten : (lastTime (achievementWrites (achievementTable O stats) appId achievements)
      ⟨s, b⟩).isSome := by
    rcases h with hbit | ⟨t, ht, htbit⟩
    · rw [← hdenotes.bit s b hs, hfind]
      exact hbit
    · have hok := hdenotes.ok.find hfind
      have htime : findKey (·.achievementBit) (some b) entry.unlockTimes = some t :=
        (findKey_eq_some_iff hok.nodup).mpr ⟨ht, htbit⟩
      rw [← hdenotes.time s b hs, hfind, Option.bind_some, PlayerStatsEntry.time, htime]
      exact (hok.complete t ht).2
  obtain ⟨time, htime⟩ := Option.isSome_iff_exists.mp hwritten
  obtain ⟨w, hw, hwire, _⟩ := (lastTime_eq_some_iff
    (nodup_achievementWrites hkeyed hnumbers (wireIds O stats) honce appId)).mp htime
  obtain ⟨a, _, _, hwrite⟩ := mem_achievementWrites.mp hw
  obtain ⟨hlookup, hbit, _⟩ := achievementWrite_eq_some.mp hwrite
  rw [hwire] at hlookup hbit
  exact ⟨_, (wireIds O stats).achievement _ _ hlookup, rfl, rfl, hbit⟩

omit hnames in
/-- There is no entry without a report. -/
theorem entry_reported (hmem : entry ∈ entries) :
    (∃ m, DeclaresStat stats m ∧ ∃ st ∈ states, st.appId = appId ∧ st.statKey = m.key ∧
      ∃ value, statWireValue P st = some value ∧ entry = ⟨some m.statId, some value, []⟩) ∨
    ∃ m, DeclaresAchievement stats m ∧ m.achievementBit < 32 ∧ entry.statId = some m.statId ∧
      (∃ a, Reports achievements appId m.key a) ∧
      ∀ b, entry.bit b = true ∨ (∃ t ∈ entry.unlockTimes, t.achievementBit = some b) →
        ∃ m', DeclaresAchievement stats m' ∧ m'.statId = m.statId ∧ m'.achievementBit = b ∧
          b < 32 := by
  obtain ⟨s, hid⟩ := Option.isSome_iff_exists.mp (hdenotes.ok.ids entry hmem)
  have hfind : findEntry entries s = some entry :=
    (findKey_eq_some_iff hdenotes.ok.nodup).mpr ⟨hmem, hid⟩
  by_cases hs : AchievementStat stats s
  · right
    obtain ⟨w, hw, rfl⟩ := (hdenotes.entry s hs).mp (hfind ▸ rfl)
    obtain ⟨a, ha, happ, hwrite⟩ := mem_achievementWrites.mp hw
    obtain ⟨hlookup, hbit, _⟩ := achievementWrite_eq_some.mp hwrite
    refine ⟨_, (wireIds O stats).achievement _ _ hlookup, hbit, hid, ⟨a, ha, happ, rfl⟩, ?_⟩
    intro b hb
    exact declared_of_written hdenotes hkeyed hnumbers honce hmem hid hs hb
  · left
    have hstart := (hdenotes.frame s hs).symm.trans hfind
    obtain ⟨w, hw, rfl⟩ := List.mem_map.mp (mem_of_findKey hstart)
    obtain ⟨st, hst, happ, hwrite⟩ := mem_statWrites.mp hw
    obtain ⟨hlookup, hvalue⟩ := statWrite_eq_some.mp hwrite
    obtain ⟨_, hdeclared⟩ := (wireIds O stats).stat _ _ hlookup
    exact ⟨_, hdeclared, st, hst, happ, rfl, w.2, hvalue, rfl⟩

end Agree

/-- **The service entries agree with the backend.** The conclusions, in order: ids ascend;
the bit of an achievement is set exactly if it is reported as unlocked; exactly then it has
an unlock time, one, with the reported time; plain stats have their converted value and no
times; every entry is a plain stat's or an achievement stat's with a report of its own, and
in the latter only declared bits are set or timed; and a report that does not count can be
left out. -/
theorem service_entries_agree (P : StatsPlatform) (O : SchemaOrder) (appId : Nat)
    {schema : Bytes} {stats : SchemaFields} {achievements : List AchievementSyncState}
    {states : List StatSyncState} (hschema : schemaStatsOf schema = .ok stats)
    (hnumbers : Unambiguous stats) (hnames : DistinctNames stats)
    (honce : ReportedOnce achievements states) :
    ∃ entries, serviceStatsEntries P O appId schema achievements states = some entries ∧
      (∃ ids : List Nat, entries.map (·.statId) = ids.map some ∧ ids.Pairwise (· < ·)) ∧
      (∀ m, DeclaresAchievement stats m → m.achievementBit < 32 →
        (bitSet entries m.statId m.achievementBit ↔
          ∃ a, Reports achievements appId m.key a ∧ a.unlocked = true) ∧
        (∀ a, Reports achievements appId m.key a → a.unlocked = true →
          unlockTimesAt entries m.statId m.achievementBit =
            [⟨some m.achievementBit, some (reportedTime a)⟩]) ∧
        ((¬∃ a, Reports achievements appId m.key a ∧ a.unlocked = true) →
          unlockTimesAt entries m.statId m.achievementBit = [])) ∧
      (∀ m, DeclaresStat stats m → ∀ st ∈ states, st.appId = appId → st.statKey = m.key →
        ∀ value, statWireValue P st = some value → ⟨some m.statId, some value, []⟩ ∈ entries) ∧
      (∀ entry ∈ entries,
        (∃ m, DeclaresStat stats m ∧ ∃ st ∈ states, st.appId = appId ∧ st.statKey = m.key ∧
          ∃ value, statWireValue P st = some value ∧
            entry = ⟨some m.statId, some value, []⟩) ∨
        ∃ m, DeclaresAchievement stats m ∧ m.achievementBit < 32 ∧
          entry.statId = some m.statId ∧ (∃ a, Reports achievements appId m.key a) ∧
          ∀ b, entry.bit b = true ∨ (∃ t ∈ entry.unlockTimes, t.achievementBit = some b) →
            ∃ m', DeclaresAchievement stats m' ∧ m'.statId = m.statId ∧
              m'.achievementBit = b ∧ b < 32) ∧
      (∀ before a after, achievements = before ++ a :: after →
        IgnoredAchievement stats appId a →
        serviceStatsEntries P O appId schema (before ++ after) states = some entries) ∧
      ∀ before st after, states = before ++ st :: after → IgnoredStat P stats appId st →
        serviceStatsEntries P O appId schema achievements (before ++ after) = some entries := by
  have hkeyed := schemaStatsOf_keyed hschema
  have hunsorted := entriesOf_denotes hschema hnumbers honce P O appId
  have heq := serviceStatsEntries_eq hschema hnumbers honce P O appId
  have hdenotes := hunsorted.perm (sortEntries_perm _)
  refine ⟨_, heq, sortEntries_ascending hunsorted.ok, ?_, ?_, ?_, ?_, ?_⟩
  · intro m hm hbit
    exact ⟨bitSet_declared hdenotes hkeyed hnumbers hnames honce hm hbit,
      unlockTimesAt_declared hdenotes hkeyed hnumbers hnames honce hm hbit⟩
  · intro m hm st hst happ hkey value hvalue
    exact plainEntry_mem hdenotes hkeyed hnumbers hnames honce hm hst happ hkey hvalue
  · intro entry hmem
    exact entry_reported hdenotes hkeyed hnumbers honce hmem
  · rintro before a after rfl hignored
    rw [← serviceStatsEntries_ignored_achievement hschema hignored]
    exact heq
  · rintro before st after rfl hignored
    rw [← serviceStatsEntries_ignored_stat hschema hignored]
    exact heq

/-! ## A small schema -/

/-- One achievement and one plain stat. -/
def sampleStats : Forest KvValue :=
  .node "1" (.node "bits" (.node "0" (.leaf "name" (.text "WIN") .nil) .nil) .nil)
    (.node "2" (.leaf "name" (.text "KILLS") (.leaf "type" (.int32 1) .nil)) .nil)

def sampleSchema : Bytes :=
  (Forest.node "stats" sampleStats .nil).encodeRoot KvValue.format "480"

theorem sampleSchema_parses : schemaStatsOf sampleSchema = .ok (fieldsOf sampleStats []) := by
  have hnul : ∀ text ∈ ["stats", "1", "bits", "0", "name", "WIN", "2", "KILLS", "type", "480"],
      NulFree text := by
    unfold NulFree
    decide +kernel
  simp only [List.forall_mem_cons, List.not_mem_nil, false_implies, implies_true] at hnul
  obtain ⟨hstats, h1, hbits, h0, hname, hwin, h2, hkills, htype, hroot, _⟩ := hnul
  have hall : (Forest.node "stats" sampleStats .nil).All NulFree KvValue.Writable :=
    ⟨hstats, ⟨h1, ⟨hbits, ⟨h0, ⟨hname, hwin, trivial⟩, trivial⟩, trivial⟩,
      ⟨h2, ⟨hname, hkills, htype, trivial, trivial⟩, trivial⟩⟩, trivial⟩
  obtain ⟨p, hrun, _⟩ := runSchemaParser_encodeRoot [] hroot hall (by decide) (by decide)
  rw [List.append_nil] at hrun
  unfold schemaStatsOf parseAchievementSchemaRoot
  rw [sampleSchema, hrun]
  rfl

theorem sampleStats_achievement :
    DeclaresAchievement (fieldsOf sampleStats []) m ↔ m = ⟨1, 0, "WIN"⟩ := by
  have hmappings : achievementMappings storedOrder (fieldsOf sampleStats []) =
    [⟨1, 0, "WIN"⟩] := by decide +kernel
  rw [← mem_achievementMappings (O := storedOrder), hmappings, List.mem_singleton]

theorem sampleStats_stat {m : StatMapping} :
    DeclaresStat (fieldsOf sampleStats []) m ↔ m = ⟨2, "KILLS", some 1⟩ := by
  have hmappings : statMappings storedOrder (fieldsOf sampleStats []) =
    [⟨2, "KILLS", some 1⟩] := by decide +kernel
  rw [← mem_statMappings (O := storedOrder), hmappings, List.mem_singleton]

theorem sampleStats_names : DistinctNames (fieldsOf sampleStats []) := by
  refine ⟨?_, ?_⟩
  · intro m m' hm hm' _
    rw [sampleStats_achievement.mp hm, sampleStats_achievement.mp hm']
  · intro m m' hm hm' _
    rw [sampleStats_stat.mp hm, sampleStats_stat.mp hm']

theorem sampleStats_unambiguous : Unambiguous (fieldsOf sampleStats []) := by
  have h1 : parseU32 "1" = some 1 := by decide +kernel
  have h2 : parseU32 "2" = some 2 := by decide +kernel
  have hkeys : ∀ field ∈ fieldsOf sampleStats [], field.1 = "1" ∨ field.1 = "2" := by
    have hall : ∀ key ∈ (fieldsOf sampleStats []).map Prod.fst, key = "1" ∨ key = "2" := by
      decide +kernel
    exact fun field hmem => hall _ (List.mem_map_of_mem hmem)
  refine ⟨?_, ?_⟩
  · intro a ha b hb n hn hn'
    rcases hkeys a ha with ha | ha
    · rcases hkeys b hb with hb | hb
      · rw [ha, hb]
      · rw [ha, h1] at hn
        rw [hb, h2] at hn'
        cases hn.trans hn'.symm
    · rcases hkeys b hb with hb | hb
      · rw [ha, h2] at hn
        rw [hb, h1] at hn'
        cases hn.trans hn'.symm
      · rw [ha, hb]
  · -- there is one bit
    intro field hmem bits hbits a ha b hb _ _ _
    have hone : ∀ field ∈ fieldsOf sampleStats [], ∀ bits, statBits field.2 = some bits →
        bits.map Prod.fst = ["0"] := by
      rw [show fieldsOf sampleStats [] = [("2", _), ("1", _)] from rfl, List.forall_mem_cons,
        List.forall_mem_singleton]
      refine ⟨?_, ?_⟩
      · intro bits hbits
        cases hbits
      · intro bits hbits
        cases hbits
        rfl
    have hzero : ∀ bit ∈ bits, bit.1 = "0" := by
      intro bit hbit
      have hmap : bit.1 ∈ bits.map Prod.fst := List.mem_map_of_mem hbit
      rw [hone field hmem bits hbits] at hmap
      exact List.mem_singleton.mp hmap
    rw [hzero a ha, hzero b hb]

/-- No stat of the sample is a float, and the encoding of an entry does not matter. -/
def samplePlatform : StatsPlatform := ⟨fun _ => none, fun _ => []⟩

def sampleAchievements : List AchievementSyncState := [⟨480, "WIN", true, none, none, 25, some 20⟩]

def sampleStates : List StatSyncState := [⟨480, "KILLS", "int", "3", 25⟩]

theorem sample_reportedOnce : ReportedOnce sampleAchievements sampleStates :=
  ⟨List.nodup_singleton _, List.nodup_singleton _⟩

theorem service_entries_agree_sample :
    ∃ entries, serviceStatsEntries samplePlatform storedOrder 480 sampleSchema
        sampleAchievements sampleStates = some entries ∧
      bitSet entries 1 0 ∧ unlockTimesAt entries 1 0 = [⟨some 0, some 20⟩] ∧
      ⟨some 2, some 3, []⟩ ∈ entries := by
  obtain ⟨entries, heq, _, hachievements, hstats, _⟩ := service_entries_agree samplePlatform
    storedOrder 480 sampleSchema_parses sampleStats_unambiguous sampleStats_names
    sample_reportedOnce
  obtain ⟨hbit, htimes, _⟩ := hachievements ⟨1, 0, "WIN"⟩ (sampleStats_achievement.mpr rfl)
    (by decide)
  have hreport : Reports sampleAchievements 480 "WIN" ⟨480, "WIN", true, none, none, 25, some 20⟩ :=
    ⟨List.mem_singleton.mpr rfl, rfl, rfl⟩
  refine ⟨entries, heq, hbit.mpr ⟨_, hreport, rfl⟩, htimes _ hreport rfl, ?_⟩
  exact hstats ⟨2, "KILLS", some 1⟩ (sampleStats_stat.mpr rfl) _ (List.mem_singleton.mpr rfl) rfl
    rfl 3 (by decide +kernel)

end VaporForge.Hooks
