import VaporForge.Hooks.StatsEntries

/-!
# The two encodings describe the same state

> For one backend state, one app and one client checksum, the service answer and the legacy
> answer have the same token, have a payload both or neither, list the same plain stats, and
> give the same unlock times (`encodings_agree`).

Neither encoder is compared with the other. Both say `lastTime` over the same writes
(`service_denotes`, `legacy_denotes`), and the tables the writes come from do not depend on
the order in which a schema's hash maps are iterated, so that three parses of it agree.
-/

namespace VaporForge.Hooks

open VaporForge.CloudCore VaporForge.SteamProtocol
open Lib

/-! ## Every parse gives the same tables -/

section Order

variable {schema : Bytes} (h : ∀ stats, schemaStatsOf schema = .ok stats → Unambiguous stats)
  (P : StatsPlatform) (O O' : SchemaOrder) (appId : Nat)
  (achievements : List AchievementSyncState) (states : List StatSyncState)

include h

theorem serviceStatsEntries_order :
    serviceStatsEntries P O appId schema achievements states =
      serviceStatsEntries P O' appId schema achievements states := by
  unfold serviceStatsEntries achievementWireIds statWireIds
  rw [parseAchievementBitMappings_order h O O', parseStatMappings_order h O O']

theorem legacyToken_order (crcStats : Option (BitVec 32)) :
    legacyToken P O appId schema crcStats achievements states =
      legacyToken P O' appId schema crcStats achievements states := by
  unfold legacyToken
  rw [serviceStatsEntries_order h P O O']

theorem legacyStatsEntries_order :
    legacyStatsEntries P O appId schema achievements states =
      legacyStatsEntries P O' appId schema achievements states := by
  unfold legacyStatsEntries achievementWireIds statWireIds
  rw [parseAchievementBitMappings_order h O O', parseStatMappings_order h O O']

end Order

/-! ## The legacy payload -/

def legacyEntry (w : Nat × BitVec 32) : LegacyStatsEntry := ⟨some w.1, some w.2⟩

def sortLegacy (stats : List LegacyStatsEntry) : List LegacyStatsEntry :=
  stats.insertionSort fun a b => a.statId.getD u32Max ≤ b.statId.getD u32Max

def sortBlocks (blocks : List AchievementBlock) : List AchievementBlock :=
  blocks.insertionSort fun a b => a.achievementId.getD u32Max ≤ b.achievementId.getD u32Max

section Legacy

variable {P : StatsPlatform} {O : SchemaOrder} {schema : Bytes} {stats : SchemaFields}
  {appId : Nat} {achievements : List AchievementSyncState} {states : List StatSyncState}

theorem foldl_push (writes : List (Nat × BitVec 32)) (start : List LegacyStatsEntry) :
    writes.foldl (fun stats w => stats ++ [⟨some w.1, some w.2⟩]) start =
      start ++ writes.map legacyEntry := by
  induction writes generalizing start with
  | nil => exact (List.append_nil start).symm
  | cons w writes ih =>
    rw [List.foldl_cons, ih, List.append_assoc]
    rfl

theorem legacyStatsEntries_eq (hschema : schemaStatsOf schema = .ok stats) (P : StatsPlatform)
    (O : SchemaOrder) (appId : Nat) :
    legacyStatsEntries P O appId schema achievements states =
      some (sortLegacy ((statWrites P (statTable O stats) appId states).map legacyEntry),
        sortBlocks ((achievementWrites (achievementTable O stats) appId achievements).foldl
          AchievementWrite.legacy [])) := by
  have hstats : (states.filter fun st => st.appId = appId).foldl
      (addLegacyStat P (statTable O stats)) [] =
        (statWrites P (statTable O stats) appId states).map legacyEntry := by
    rw [← List.nil_append ((statWrites P (statTable O stats) appId states).map legacyEntry),
      ← foldl_push, statWrites, ← foldl_elim]
    congr 1
    funext entries st
    exact addLegacyStat_eq entries st
  have hblocks : (achievements.filter fun a => a.appId = appId).foldl
      (addLegacyAchievement (achievementTable O stats)) [] =
        (achievementWrites (achievementTable O stats) appId achievements).foldl
          AchievementWrite.legacy [] := by
    rw [achievementWrites, ← foldl_elim]
    congr 1
    funext blocks a
    exact addLegacyAchievement_eq blocks a
  unfold legacyStatsEntries
  rw [achievementWireIds_eq hschema, statWireIds_eq hschema]
  dsimp only [Option.bind_eq_bind, Option.bind_some]
  rw [hstats, hblocks]
  rfl

variable {blocks : List AchievementBlock} {s b t : Nat}

variable {writes : List AchievementWrite}

/-- The order of the blocks does not matter. -/
theorem LegacyDenotes.perm {blocks' : List AchievementBlock} (h : LegacyDenotes writes blocks)
    (hperm : blocks'.Perm blocks) : LegacyDenotes writes blocks' := by
  have hnodup := (hperm.map (·.achievementId)).nodup_iff.mpr h.nodup
  have hfind : ∀ s, findBlock blocks' s = findBlock blocks s := fun s =>
    findKey_perm hperm hnodup (some s)
  refine ⟨hnodup, fun block hblock => h.ids block (hperm.mem_iff.mp hblock), ?_, ?_⟩
  · intro s
    rw [hfind]
    exact h.block s
  · intro s
    rw [hfind]
    exact h.at_ s

/-- A position of a block that is not zero. -/
theorem LegacyDenotes.position_iff (h : LegacyDenotes writes blocks) (ht : t ≠ 0) :
    (∃ block ∈ blocks, block.achievementId = some s ∧ block.unlockTime[b]? = some t) ↔
      lastTime writes ⟨s, b⟩ = some t := by
  have hat := h.at_ s b
  constructor
  · rintro ⟨block, hmem, hid, hget⟩
    have hfind : findBlock blocks s = some block :=
      (findKey_eq_some_iff h.nodup).mpr ⟨hmem, hid⟩
    rw [hfind, Option.elim_some, AchievementBlock.at, List.getD_eq_getElem?_getD, hget,
      Option.getD_some] at hat
    cases htime : lastTime writes ⟨s, b⟩ with
    | none =>
      rw [htime] at hat
      exact absurd hat ht
    | some time =>
      rw [htime] at hat
      rw [hat, Option.getD_some]
  · intro htime
    rw [htime, Option.getD_some] at hat
    cases hfind : findBlock blocks s with
    | none =>
      rw [hfind] at hat
      exact absurd hat.symm ht
    | some block =>
      rw [hfind, Option.elim_some, AchievementBlock.at, List.getD_eq_getElem?_getD] at hat
      refine ⟨block, mem_of_findKey hfind, key_of_findKey hfind, ?_⟩
      cases hget : block.unlockTime[b]? with
      | none =>
        rw [hget] at hat
        exact absurd hat.symm ht
      | some time =>
        rw [hget] at hat
        exact congrArg some hat

end Legacy

/-! ## The service payload -/

/-- A stat with a section `bits`. -/
def achievementStatId (stats : SchemaFields) (statId : Nat) : Bool :=
  stats.any fun field => parseU32 field.1 = some statId &&
    (field.2.object?.bind (getField · "bits")).isSome

def PlayerStatsEntry.isAchievement (stats : SchemaFields) (entry : PlayerStatsEntry) : Bool :=
  entry.statId.any (achievementStatId stats)

def PlayerStatsEntry.toLegacy (entry : PlayerStatsEntry) : LegacyStatsEntry :=
  ⟨entry.statId, entry.statValue⟩

theorem achievementStatId_of_declared {stats : SchemaFields} {m : AchievementBitMapping}
    (hm : DeclaresAchievement stats m) : achievementStatId stats m.statId = true := by
  obtain ⟨field, hfield, hid, bits, hbits, _⟩ := hm
  obtain ⟨value, hvalue, _⟩ := Option.bind_eq_some_iff.mp hbits
  refine List.any_eq_true.mpr ⟨field, hfield, ?_⟩
  rw [hid, hvalue, decide_eq_true rfl]
  rfl

theorem achievementStatId_of_stat {stats : SchemaFields} (hkeyed : KeyedFields stats)
    (hnumbers : Unambiguous stats) {m : StatMapping} (hm : DeclaresStat stats m) :
    achievementStatId stats m.statId = false := by
  obtain ⟨field, hfield, hmapping⟩ := hm
  obtain ⟨hid, stat, hstat, hnone⟩ := statMapping_eq_some hmapping
  refine List.any_eq_false.mpr ?_
  intro field' hfield' hboth
  rw [Bool.and_eq_true, decide_eq_true_eq] at hboth
  have hsame : field' = field := List.inj_on_of_nodup_map hkeyed.nodup hfield' hfield
    (hnumbers.statIds field' hfield' field hfield m.statId hboth.1 hid)
  rw [hsame, hstat, Option.bind_some, hnone] at hboth
  cases hboth.2

section Same

variable {P : StatsPlatform} {O : SchemaOrder} {stats : SchemaFields} {appId : Nat}
  {achievements : List AchievementSyncState} {states : List StatSyncState}
  {entries : List PlayerStatsEntry}
  (hdenotes : ServiceDenotes (AchievementStat stats)
    ((statWrites P (statTable O stats) appId states).map plainEntry)
    (achievementWrites (achievementTable O stats) appId achievements) entries)
  (hkeyed : KeyedFields stats) (hnumbers : Unambiguous stats)
  (honce : ReportedOnce achievements states)

/-- A write is to a declared achievement. -/
theorem achievementStat_of_write {w : AchievementWrite}
    (hw : w ∈ achievementWrites (achievementTable O stats) appId achievements) :
    AchievementStat stats w.wireId.statId := by
  obtain ⟨a, _, _, hwrite⟩ := mem_achievementWrites.mp hw
  exact ⟨_, (wireIds O stats).achievement _ _ (achievementWrite_eq_some.mp hwrite).1, rfl⟩

theorem declared_of_statWrite {w : Nat × BitVec 32}
    (hw : w ∈ statWrites P (statTable O stats) appId states) :
    ∃ m, DeclaresStat stats m ∧ m.statId = w.1 := by
  obtain ⟨st, _, _, hwrite⟩ := mem_statWrites.mp hw
  obtain ⟨_, hdeclared⟩ := (wireIds O stats).stat _ _ (statWrite_eq_some.mp hwrite).1
  exact ⟨_, hdeclared, rfl⟩

include hdenotes hkeyed hnumbers honce

/-- The entries of plain stats are the plain writes. -/
theorem plain_entry_iff {entry : PlayerStatsEntry} :
    entry ∈ entries ∧ entry.isAchievement stats = false ↔
      ∃ w ∈ statWrites P (statTable O stats) appId states, entry = plainEntry w := by
  constructor
  · rintro ⟨hmem, hplain⟩
    obtain ⟨s, hid⟩ := Option.isSome_iff_exists.mp (hdenotes.ok.ids entry hmem)
    have hs : ¬AchievementStat stats s := by
      rintro ⟨m, hm, rfl⟩
      rw [PlayerStatsEntry.isAchievement, hid, Option.any_some,
        achievementStatId_of_declared hm] at hplain
      cases hplain
    have hfind : findEntry entries s = some entry :=
      (findKey_eq_some_iff hdenotes.ok.nodup).mpr ⟨hmem, hid⟩
    obtain ⟨w, hw, heq⟩ :=
      List.mem_map.mp (mem_of_findKey ((hdenotes.frame s hs).symm.trans hfind))
    exact ⟨w, hw, heq.symm⟩
  · rintro ⟨w, hw, rfl⟩
    obtain ⟨m, hm, hid⟩ := declared_of_statWrite hw
    have hs : ¬AchievementStat stats w.1 := by
      rintro ⟨m', hm', heq⟩
      exact achievement_ne_stat hkeyed hnumbers hm' hm (heq.trans hid.symm)
    have hstart := findKey_of_mem (plainEntries_ok (nodup_statWrites (P := P) hkeyed hnumbers
      (wireIds O stats) honce appId)).nodup (List.mem_map_of_mem (f := plainEntry) hw)
    refine ⟨mem_of_findKey ((hdenotes.frame _ hs).trans hstart), ?_⟩
    rw [PlayerStatsEntry.isAchievement]
    show achievementStatId stats w.1 = false
    rw [← hid]
    exact achievementStatId_of_stat hkeyed hnumbers hm

/-- A bit with its unlock time is the last write. -/
theorem timed_bit_iff :
    (∃ entry ∈ entries, entry.statId = some s ∧ entry.bit b = true ∧
      ⟨some b, some t⟩ ∈ entry.unlockTimes) ↔
    lastTime (achievementWrites (achievementTable O stats) appId achievements) ⟨s, b⟩ =
      some t := by
  constructor
  · rintro ⟨entry, hmem, hid, _, htime⟩
    have hfind : findEntry entries s = some entry :=
      (findKey_eq_some_iff hdenotes.ok.nodup).mpr ⟨hmem, hid⟩
    by_cases hs : AchievementStat stats s
    · have hok := hdenotes.ok.find hfind
      have hkey : findKey (·.achievementBit) (some b) entry.unlockTimes =
          some ⟨some b, some t⟩ := (findKey_eq_some_iff hok.nodup).mpr ⟨htime, rfl⟩
      rw [← hdenotes.time s b hs, hfind, Option.bind_some, PlayerStatsEntry.time, hkey]
      rfl
    · -- the entry of a plain stat has no unlock times
      obtain ⟨w, _, heq⟩ :=
        List.mem_map.mp (mem_of_findKey ((hdenotes.frame s hs).symm.trans hfind))
      rw [← heq] at htime
      cases htime
  · intro htime
    obtain ⟨w, hw, hwire, _⟩ := (lastTime_eq_some_iff
      (nodup_achievementWrites hkeyed hnumbers (wireIds O stats) honce appId)).mp htime
    have hs : AchievementStat stats s := by
      have hdeclared := achievementStat_of_write hw
      rw [hwire] at hdeclared
      exact hdeclared
    have hbit := hdenotes.bit s b hs
    have hsame := hdenotes.time s b hs
    rw [htime] at hbit hsame
    cases hfind : findEntry entries s with
    | none =>
      rw [hfind] at hsame
      cases hsame
    | some entry =>
      rw [hfind] at hbit hsame
      have hok := hdenotes.ok.find hfind
      rw [Option.bind_some, PlayerStatsEntry.time] at hsame
      obtain ⟨time, hkey, hunlock⟩ := Option.bind_eq_some_iff.mp hsame
      have hat : time.achievementBit = some b := key_of_findKey hkey
      refine ⟨entry, mem_of_findKey hfind, key_of_findKey hfind, hbit, ?_⟩
      rw [← hat, ← hunlock]
      exact mem_of_findKey hkey

omit hdenotes in
/-- An unlock is never written with the time zero. -/
theorem lastTime_ne_zero (wireId : AchievementWireId) :
    lastTime (achievementWrites (achievementTable O stats) appId achievements) wireId ≠
      some 0 := by
  intro htime
  obtain ⟨w, hw, _, hunlocked, hzero⟩ := (lastTime_eq_some_iff
    (nodup_achievementWrites hkeyed hnumbers (wireIds O stats) honce appId)).mp htime
  obtain ⟨a, _, _, hwrite⟩ := mem_achievementWrites.mp hw
  obtain ⟨_, _, hsame, hunlock⟩ := achievementWrite_eq_some.mp hwrite
  rw [unlockTime_of_unlocked (hsame ▸ hunlocked), hzero, Option.some.injEq] at hunlock
  unfold reportedTime at hunlock
  split at hunlock
  next time _ =>
    split at hunlock
    next hpos => omega
    next => cases hunlock
  next => cases hunlock

end Same

/-! ## The payoff -/

/-- What the two payloads have in common. -/
structure SamePayload (stats : SchemaFields) (service : List PlayerStatsEntry)
    (legacy : List LegacyStatsEntry) (blocks : List AchievementBlock) : Prop where
  carried : service ≠ [] ↔ legacy ≠ [] ∨ blocks ≠ []
  plain : legacy = (service.filter fun entry => !entry.isAchievement stats).map (·.toLegacy)
  times : ∀ s b t,
    (∃ block ∈ blocks, block.achievementId = some s ∧ block.unlockTime[b]? = some t) ∧ t ≠ 0 ↔
      ∃ entry ∈ service, entry.statId = some s ∧ entry.bit b = true ∧
        ⟨some b, some t⟩ ∈ entry.unlockTimes

theorem SamePayload.empty (stats : SchemaFields) : SamePayload stats [] [] [] := by
  refine ⟨?_, rfl, ?_⟩
  · simp
  · intro s b t
    simp

section Payload

variable {P : StatsPlatform} {O : SchemaOrder} {schema : Bytes} {stats : SchemaFields}
  {appId : Nat} {achievements : List AchievementSyncState} {states : List StatSyncState}

variable {entries : List PlayerStatsEntry}

/-- The legacy stats are the service entries of plain stats, in the same order. -/
theorem sortLegacy_eq (hkeyed : KeyedFields stats) (hnumbers : Unambiguous stats)
    (honce : ReportedOnce achievements states)
    (hdenotes : ServiceDenotes (AchievementStat stats) ((statWrites P (statTable O stats) appId states).map plainEntry) (achievementWrites (achievementTable O stats) appId achievements) (sortEntries entries))
    (hok : EntriesOk entries) :
    sortLegacy ((statWrites P (statTable O stats) appId states).map legacyEntry) =
      ((sortEntries entries).filter fun entry => !entry.isAchievement stats).map
        (·.toLegacy) := by
  have hnodup := nodup_statWrites (P := P) hkeyed hnumbers (wireIds O stats) honce appId
  obtain ⟨ids, hids, hascending⟩ := sortEntries_ascending hok
  refine eq_of_ascending_rank (fun entry : LegacyStatsEntry => entry.statId.getD u32Max) ?_ ?_ ?_
  · refine ascending_insertionSort ?_
    rw [List.map_map]
    exact hnodup
  · have hentries : (sortEntries entries).Pairwise fun a b =>
        a.statId.getD u32Max < b.statId.getD u32Max := by
      have hmap : (sortEntries entries).map (fun entry => entry.statId.getD u32Max) = ids := by
        have hgetD := congrArg (List.map fun id : Option Nat => id.getD u32Max) hids
        rw [List.map_map, List.map_map] at hgetD
        exact hgetD.trans (List.map_id ids)
      rw [← hmap] at hascending
      exact List.pairwise_map.mp hascending
    exact List.pairwise_map.mpr (hentries.filter _)
  · intro x
    rw [sortLegacy, List.mem_insertionSort, List.mem_map, List.mem_map]
    simp only [List.mem_filter, Bool.not_eq_true',
      plain_entry_iff hdenotes hkeyed hnumbers honce]
    constructor
    · rintro ⟨w, hw, rfl⟩
      exact ⟨_, ⟨w, hw, rfl⟩, rfl⟩
    · rintro ⟨_, ⟨w, hw, rfl⟩, rfl⟩
      exact ⟨w, hw, rfl⟩

/-- Something is written in one form exactly if something is in the other. -/
theorem carried_iff (hkeyed : KeyedFields stats) (hnumbers : Unambiguous stats)
    (honce : ReportedOnce achievements states)
    (hdenotes : ServiceDenotes (AchievementStat stats) ((statWrites P (statTable O stats) appId states).map plainEntry) (achievementWrites (achievementTable O stats) appId achievements) entries)
    (hblocks : LegacyDenotes (achievementWrites (achievementTable O stats) appId achievements) blocks)
    :
    entries ≠ [] ↔
      sortLegacy ((statWrites P (statTable O stats) appId states).map legacyEntry) ≠ [] ∨
        blocks ≠ [] := by
  constructor
  · intro hne
    obtain ⟨entry, hmem⟩ := List.exists_mem_of_ne_nil _ hne
    by_cases hplain : entry.isAchievement stats = false
    · left
      obtain ⟨w, hw, _⟩ := (plain_entry_iff hdenotes hkeyed hnumbers honce).mp ⟨hmem, hplain⟩
      exact List.ne_nil_of_mem ((List.mem_insertionSort _).mpr (List.mem_map_of_mem hw))
    · right
      obtain ⟨s, hid⟩ := Option.isSome_iff_exists.mp (hdenotes.ok.ids entry hmem)
      have hfind : findEntry entries s = some entry :=
        (findKey_eq_some_iff hdenotes.ok.nodup).mpr ⟨hmem, hid⟩
      have hs : AchievementStat stats s := by
        by_contra hs
        obtain ⟨w, hw, heq⟩ :=
          List.mem_map.mp (mem_of_findKey ((hdenotes.frame s hs).symm.trans hfind))
        exact hplain ((plain_entry_iff hdenotes hkeyed hnumbers honce).mpr ⟨w, hw, heq.symm⟩).2
      have hwrite := (hdenotes.entry s hs).mp (hfind ▸ rfl)
      obtain ⟨block, hblock⟩ := Option.isSome_iff_exists.mp ((hblocks.block s).mpr hwrite)
      exact List.ne_nil_of_mem (mem_of_findKey hblock)
  · rintro (hne | hne)
    · obtain ⟨x, hx⟩ := List.exists_mem_of_ne_nil _ hne
      obtain ⟨w, hw, _⟩ := List.mem_map.mp ((List.mem_insertionSort _).mp hx)
      exact List.ne_nil_of_mem
        ((plain_entry_iff hdenotes hkeyed hnumbers honce).mpr ⟨w, hw, rfl⟩).1
    · obtain ⟨block, hmem⟩ := List.exists_mem_of_ne_nil _ hne
      obtain ⟨s, hid⟩ := Option.isSome_iff_exists.mp (hblocks.ids block hmem)
      have hfind : findBlock blocks s = some block :=
        (findKey_eq_some_iff hblocks.nodup).mpr ⟨hmem, hid⟩
      obtain ⟨w, hw, hstat⟩ := (hblocks.block s).mp (hfind ▸ rfl)
      have hs : AchievementStat stats s := hstat ▸ achievementStat_of_write hw
      obtain ⟨entry, hentry⟩ :=
        Option.isSome_iff_exists.mp ((hdenotes.entry s hs).mpr ⟨w, hw, hstat⟩)
      exact List.ne_nil_of_mem (mem_of_findKey hentry)

theorem payloads_agree (hschema : schemaStatsOf schema = .ok stats) (hnumbers : Unambiguous stats)
    (honce : ReportedOnce achievements states) (P : StatsPlatform) (O : SchemaOrder)
    (appId : Nat) :
    ∃ service legacy blocks,
      serviceStatsEntries P O appId schema achievements states = some service ∧
      legacyStatsEntries P O appId schema achievements states = some (legacy, blocks) ∧
      SamePayload stats service legacy blocks := by
  have hkeyed := schemaStatsOf_keyed hschema
  have hunsorted := entriesOf_denotes hschema hnumbers honce P O appId
  have hservice := serviceStatsEntries_eq hschema hnumbers honce P O appId
  have hdenotes := hunsorted.perm (sortEntries_perm _)
  have hblocks := (legacy_denotes (achievementWrites (achievementTable O stats) appId
    achievements)).perm (List.perm_insertionSort _ _ : (sortBlocks _).Perm _)
  refine ⟨_, _, _, hservice, legacyStatsEntries_eq hschema P O appId,
    carried_iff hkeyed hnumbers honce hdenotes hblocks,
    sortLegacy_eq hkeyed hnumbers honce hdenotes hunsorted.ok, ?_⟩
  · intro s b t
    rw [timed_bit_iff hdenotes hkeyed hnumbers honce]
    constructor
    · rintro ⟨hposition, ht⟩
      exact (hblocks.position_iff ht).mp hposition
    · intro htime
      have ht : t ≠ 0 := by
        rintro rfl
        exact lastTime_ne_zero hkeyed hnumbers honce _ htime
      exact ⟨(hblocks.position_iff ht).mpr htime, ht⟩

end Payload

/-- The stats of a schema, none where it does not parse. -/
def declaredStats (schema : Bytes) : SchemaFields :=
  match schemaStatsOf schema with
  | .ok stats => stats
  | .error _ => []

/-- What the two answers have in common. -/
structure SameAnswer (stats : SchemaFields) (service : PlayerGetUserStatsResponse)
    (legacy : ClientGetUserStatsResponse) : Prop where
  crcStats : service.crcStats = legacy.crcStats
  payload : SamePayload stats service.stats legacy.stats legacy.achievementBlocks

/-- Where the schema does not parse neither payload can be made. -/
theorem payloads_none {schema : Bytes} {stop : Stop} (h : schemaStatsOf schema = .error stop)
    (P : StatsPlatform) (O : SchemaOrder) (appId : Nat)
    (achievements : List AchievementSyncState) (states : List StatSyncState) :
    serviceStatsEntries P O appId schema achievements states = none ∧
      legacyStatsEntries P O appId schema achievements states = none := by
  unfold serviceStatsEntries legacyStatsEntries achievementWireIds
  rw [parseAchievementBitMappings_eq, h]
  exact ⟨rfl, rfl⟩

theorem legacyToken_eq {P : StatsPlatform} {O : SchemaOrder} {appId : Nat} {schema : Bytes}
    {achievements : List AchievementSyncState} {states : List StatSyncState}
    {entries : List PlayerStatsEntry} (crcStats : Option (BitVec 32))
    (h : serviceStatsEntries P O appId schema achievements states = some entries) :
    legacyToken P O appId schema crcStats achievements states =
      some (crcStats.getD (statsCrc P entries)) := by
  unfold legacyToken
  rw [h]
  cases crcStats with
  | none => rfl
  | some crc => rfl

/-- **The two encodings describe the same state.** Each of the three parses may iterate the
hash maps in its own order. There are two answers or none: none where a modified state meets
a schema that does not parse. -/
theorem encodings_agree (P : StatsPlatform) (O O₁ O₂ : SchemaOrder) {schema : Bytes}
    {backend : Option AppStatsResult} {request : PlayerGetUserStatsRequest}
    {legacyRequest : ClientGetUserStatsRequest} {gameId : BitVec 64} {appId : Nat}
    (hnumbers : ∀ stats, schemaStatsOf schema = .ok stats → Unambiguous stats)
    (honce : ∀ version crc achievements states,
      backend = some (.modified version crc achievements states) →
        ReportedOnce achievements states)
    (happ : request.appid = some appId) (hgame : legacyRequest.gameId = some gameId)
    (hsame : appIdFromGameId gameId = some appId)
    (hcrc : legacyRequest.crcStats = request.crcStats)
    (donor : PlayerGetUserStatsResponse) (legacyDonor : ClientGetUserStatsResponse) :
    (mergeServiceStatsResponse P O request donor schema backend = none ∧
      mergeLegacyStatsResponse P O₁ O₂ legacyRequest legacyDonor schema backend = none) ∨
    ∃ service legacy,
      mergeServiceStatsResponse P O request donor schema backend = some service ∧
      mergeLegacyStatsResponse P O₁ O₂ legacyRequest legacyDonor schema backend = some legacy ∧
      SameAnswer (declaredStats schema) service legacy := by
  have hnonzero : appId ≠ 0 := by
    unfold appIdFromGameId at hsame
    dsimp only at hsame
    split at hsame
    next hne =>
      cases hsame
      exact hne
    next => cases hsame
  have hfilter : request.appid.filter (· ≠ 0) = some appId := by
    rw [happ]
    exact if_pos (decide_eq_true hnonzero)
  unfold mergeServiceStatsResponse mergeLegacyStatsResponse
  rw [hfilter, hgame]
  dsimp only [Option.bind_eq_bind, Option.bind_some]
  rw [hsame]
  dsimp only [Option.bind_some]
  have hempty := SamePayload.empty (declaredStats schema)
  cases backend with
  | none => exact .inr ⟨_, _, rfl, rfl, rfl, hempty⟩
  | some result =>
    cases result with
    | uninitialized => exact .inr ⟨_, _, rfl, rfl, rfl, hempty⟩
    | schemaMismatch _ => exact .inr ⟨_, _, rfl, rfl, rfl, hempty⟩
    | unchanged _ crc => exact .inr ⟨_, _, rfl, rfl, rfl, hempty⟩
    | modified version crc achievements states =>
      have honce := honce version crc achievements states rfl
      dsimp only
      rw [legacyStatsEntries_order hnumbers P O₂ O, legacyToken_order hnumbers P O₁ O, hcrc]
      cases hstats : schemaStatsOf schema with
      | error stop =>
        left
        obtain ⟨hservice, hlegacy⟩ := payloads_none hstats P O appId achievements states
        unfold legacyToken
        rw [hservice, hlegacy]
        cases crc with
        | none => exact ⟨rfl, rfl⟩
        | some crc =>
          refine ⟨rfl, ?_⟩
          dsimp only [Option.bind_some]
          rw [if_pos (by simp)]
          rfl
      | ok stats =>
        right
        obtain ⟨entries, plain, blocks, hservice, hlegacy, hpayload⟩ :=
          payloads_agree hstats (hnumbers stats hstats) honce P O appId
        have hdeclared : declaredStats schema = stats := by
          unfold declaredStats
          rw [hstats]
        rw [← hdeclared] at hpayload
        rw [legacyToken_eq crc hservice, hservice, hlegacy]
        dsimp only [Option.bind_some]
        -- the token is the same number in both forms, so both leave the payload out or neither
        generalize crc.getD (statsCrc P entries) = token
        by_cases homit : crc.isNone ∧ request.crcStats = some token
        · rw [if_neg (not_not.mpr homit), if_neg (not_not.mpr homit)]
          exact ⟨_, _, rfl, rfl, rfl, hempty⟩
        · rw [if_pos homit, if_pos homit]
          exact ⟨_, _, rfl, rfl, rfl, hpayload⟩

/-! ## The small schema in both forms -/

theorem encodings_agree_sample :
    ∃ service legacy,
      mergeServiceStatsResponse samplePlatform storedOrder ⟨some 480, none, none⟩
        ⟨none, none, none, [], none⟩ sampleSchema
        (some (.modified "v1" none sampleAchievements sampleStates)) = some service ∧
      mergeLegacyStatsResponse samplePlatform storedOrder storedOrder ⟨some 480, none⟩
        ⟨none, none, none, none, [], []⟩ sampleSchema
        (some (.modified "v1" none sampleAchievements sampleStates)) = some legacy ∧
      SameAnswer (declaredStats sampleSchema) service legacy := by
  have hnumbers : ∀ stats, schemaStatsOf sampleSchema = .ok stats → Unambiguous stats := by
    intro stats hstats
    cases sampleSchema_parses.symm.trans hstats
    exact sampleStats_unambiguous
  have honce : ∀ version crc achievements states,
      some (AppStatsResult.modified "v1" none sampleAchievements sampleStates) =
        some (.modified version crc achievements states) → ReportedOnce achievements states := by
    intro version crc achievements states heq
    cases heq
    exact sample_reportedOnce
  have hagree := @encodings_agree samplePlatform storedOrder storedOrder storedOrder sampleSchema
    (some (.modified "v1" none sampleAchievements sampleStates)) ⟨some 480, none, none⟩
    ⟨some 480, none⟩ 480 480 hnumbers honce rfl rfl (by decide +kernel) rfl
    ⟨none, none, none, [], none⟩ ⟨none, none, none, none, [], []⟩
  refine hagree.resolve_left ?_
  rintro ⟨hnone, _⟩
  obtain ⟨entries, _, _, hservice, _⟩ := payloads_agree sampleSchema_parses
    sampleStats_unambiguous sample_reportedOnce samplePlatform storedOrder 480
  unfold mergeServiceStatsResponse at hnone
  rw [show (some 480 : Option Nat).filter (· ≠ 0) = some 480 from rfl] at hnone
  dsimp only [Option.bind_eq_bind, Option.bind_some] at hnone
  rw [hservice, Option.bind_some, if_pos (by rintro ⟨_, hcrc⟩; cases hcrc)] at hnone
  cases hnone

end VaporForge.Hooks
