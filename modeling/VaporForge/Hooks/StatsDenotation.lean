import Mathlib.Data.List.Induction
import VaporForge.Hooks.StatsMerge
import VaporForge.SteamProtocol.SchemaMappings

/-!
# What both encodings of the stats say

Both encoders walk over the reported achievements and write them one by one, each into its
own layout. What they say is the same: `lastTime`, for a stat and a bit, the time of the
last write if that was an unlock.

* `service_denotes`: the bits and the unlock times of the service entries;
* `legacy_denotes`: the positions of the legacy blocks.

Plain stats take no part in it. Their ids are those of other stats, so the achievements
leave their entries alone (`ServiceDenotes.frame`).
-/

namespace VaporForge.Hooks

open VaporForge.CloudCore VaporForge.SteamProtocol
open Lib

/-! ## Writes -/

/-- A reported achievement with its place in the schema. -/
structure AchievementWrite where
  wireId : AchievementWireId
  unlocked : Bool
  time : Nat
  deriving DecidableEq, Repr

def achievementWrite (achievementIds : Assoc String AchievementWireId)
    (achievement : AchievementSyncState) : Option AchievementWrite :=
  (achievementIds.lookup achievement.achievementKey).bind fun wireId =>
    if wireId.achievementBit < 32 then
      (unlockTime achievement).map fun time => ⟨wireId, achievement.unlocked, time⟩
    else none

def statWrite (P : StatsPlatform) (statIds : Assoc String Nat) (stat : StatSyncState) :
    Option (Nat × BitVec 32) :=
  (statIds.lookup stat.statKey).bind fun statId =>
    (statWireValue P stat).map fun value => (statId, value)

namespace AchievementWrite

def service (stats : List PlayerStatsEntry) (w : AchievementWrite) : List PlayerStatsEntry :=
  rewriteOrPush (·.statId) (some w.wireId.statId) ⟨some w.wireId.statId, some 0, []⟩
    (setEntryAchievement w.wireId.achievementBit w.unlocked w.time) stats

def legacy (blocks : List AchievementBlock) (w : AchievementWrite) : List AchievementBlock :=
  rewriteOrPush (·.achievementId) (some w.wireId.statId) ⟨some w.wireId.statId, []⟩
    (setBlockAchievement w.wireId.achievementBit w.unlocked w.time) blocks

end AchievementWrite

section Loops

variable {P : StatsPlatform} {achievementIds : Assoc String AchievementWireId}
  {statIds : Assoc String Nat}

theorem addServiceAchievement_eq (stats : List PlayerStatsEntry) (a : AchievementSyncState) :
    addServiceAchievement achievementIds stats a =
      (achievementWrite achievementIds a).elim stats (AchievementWrite.service stats) := by
  unfold addServiceAchievement achievementWrite
  cases achievementIds.lookup a.achievementKey with
  | none => rfl
  | some wireId =>
    cases htime : unlockTime a with
    | none => simp
    | some time =>
      by_cases hbit : wireId.achievementBit < 32
      · simp [setServiceAchievement, hbit, Nat.not_le.mpr hbit, AchievementWrite.service]
      · simp [setServiceAchievement, hbit, Nat.le_of_not_lt hbit]

theorem addLegacyAchievement_eq (blocks : List AchievementBlock) (a : AchievementSyncState) :
    addLegacyAchievement achievementIds blocks a =
      (achievementWrite achievementIds a).elim blocks (AchievementWrite.legacy blocks) := by
  unfold addLegacyAchievement achievementWrite
  cases achievementIds.lookup a.achievementKey with
  | none => rfl
  | some wireId =>
    cases htime : unlockTime a with
    | none => simp
    | some time =>
      by_cases hbit : wireId.achievementBit < 32
      · simp [setLegacyAchievement, hbit, Nat.not_le.mpr hbit, AchievementWrite.legacy]
      · simp [setLegacyAchievement, hbit, Nat.le_of_not_lt hbit]

theorem addServiceStat_eq (stats : List PlayerStatsEntry) (stat : StatSyncState) :
    addServiceStat P statIds stats stat =
      (statWrite P statIds stat).elim stats fun w => setServiceStat stats w.1 w.2 := by
  unfold addServiceStat statWrite
  cases statIds.lookup stat.statKey with
  | none => rfl
  | some statId =>
    cases hvalue : statWireValue P stat with
    | none => rfl
    | some value => rfl

theorem addLegacyStat_eq (stats : List LegacyStatsEntry) (stat : StatSyncState) :
    addLegacyStat P statIds stats stat =
      (statWrite P statIds stat).elim stats fun w => stats ++ [⟨some w.1, some w.2⟩] := by
  unfold addLegacyStat statWrite
  cases statIds.lookup stat.statKey with
  | none => rfl
  | some statId =>
    cases hvalue : statWireValue P stat with
    | none => rfl
    | some value => rfl

end Loops

/-- The time of the last write, if that was an unlock. -/
def lastTime (writes : List AchievementWrite) (wireId : AchievementWireId) : Option Nat :=
  writes.foldl (fun time w =>
    if w.wireId = wireId then (if w.unlocked then some w.time else none) else time) none

theorem lastTime_concat (writes : List AchievementWrite) (w : AchievementWrite)
    (wireId : AchievementWireId) :
    lastTime (writes ++ [w]) wireId =
      if w.wireId = wireId then (if w.unlocked then some w.time else none)
      else lastTime writes wireId := by
  rw [lastTime, List.foldl_append]
  rfl

variable {w : AchievementWrite} {s : Nat}

theorem exists_write_concat {writes : List AchievementWrite} :
    (∃ w' ∈ writes ++ [w], w'.wireId.statId = s) ↔
      s = w.wireId.statId ∨ ∃ w' ∈ writes, w'.wireId.statId = s := by
  simp only [List.mem_append, List.mem_singleton]
  constructor
  · rintro ⟨w', hmem | rfl, hstat⟩
    · exact .inr ⟨w', hmem, hstat⟩
    · exact .inl hstat.symm
  · rintro (hstat | ⟨w', hmem, hstat⟩)
    · exact ⟨w, .inr rfl, hstat.symm⟩
    · exact ⟨w', .inl hmem, hstat⟩

/-! ## One service entry -/

namespace PlayerStatsEntry

def bit (entry : PlayerStatsEntry) (b : Nat) : Bool := (entry.statValue.getD 0).getLsbD b

def time (entry : PlayerStatsEntry) (b : Nat) : Option Nat :=
  (findKey (·.achievementBit) (some b) entry.unlockTimes).bind (·.unlockTime)

/-- Every unlock time is complete, and there is one for a bit. -/
structure Ok (entry : PlayerStatsEntry) : Prop where
  nodup : (entry.unlockTimes.map (·.achievementBit)).Nodup
  complete : ∀ t ∈ entry.unlockTimes, t.achievementBit.isSome ∧ t.unlockTime.isSome

end PlayerStatsEntry

section Entry

variable {b : Nat} {unlocked : Bool} {time : Nat} {entry : PlayerStatsEntry}

theorem setEntryAchievement_bit (hb : b < 32) (b' : Nat) :
    (setEntryAchievement b unlocked time entry).bit b' =
      if b' = b then unlocked else entry.bit b' := by
  have hmask : (1#32 <<< b).getLsbD b' = decide (b' = b) := by
    rw [BitVec.getLsbD_shiftLeft]
    by_cases heq : b' = b
    · subst heq
      simp [hb]
    · by_cases hlt : b' < b
      · simp [hlt, heq]
      · have hpos : b' - b ≠ 0 := by omega
        simp [heq, hpos]
  unfold setEntryAchievement PlayerStatsEntry.bit
  cases unlocked with
  | true =>
    simp only [if_true, Option.getD_some, BitVec.getLsbD_or, hmask]
    by_cases heq : b' = b
    · simp [heq]
    · simp [heq]
  | false =>
    simp only [Bool.false_eq_true, if_false, Option.getD_some, BitVec.getLsbD_and,
      BitVec.getLsbD_not, hmask]
    by_cases heq : b' = b
    · simp [heq]
    · by_cases hlt : b' < 32
      · simp [heq, hlt]
      · rw [if_neg heq, BitVec.getLsbD_of_ge _ _ (Nat.le_of_not_lt hlt)]
        rfl

/-- An unlock time is rewritten or pushed, in the order of the bits. -/
theorem setTimes_perm :
    (setEntryAchievement b true time entry).unlockTimes.Perm
      (rewriteOrPush (·.achievementBit) (some b) ⟨some b, some time⟩
        (fun t => { t with unlockTime := some time }) entry.unlockTimes) := by
  unfold setEntryAchievement
  dsimp only
  rw [if_pos rfl]
  split
  next => exact .rfl
  next hnone =>
    have habsent : some b ∉ entry.unlockTimes.map (·.achievementBit) := by
      intro hmem
      obtain ⟨t, ht, hbit⟩ := List.mem_map.mp hmem
      exact hnone (List.any_eq_true.mpr ⟨t, ht, decide_eq_true hbit⟩)
    rw [rewriteOrPush_of_notMem habsent]
    exact List.perm_insertionSort _ _

theorem setEntryAchievement_ok (hok : entry.Ok) :
    (setEntryAchievement b unlocked time entry).Ok := by
  cases unlocked with
  | true =>
    refine ⟨?_, ?_⟩
    · rw [(setTimes_perm.map _).nodup_iff]
      refine nodup_rewriteOrPush ?_ ?_ hok.nodup
      · rfl
      · exact fun _ => rfl
    · intro t ht
      refine forall_rewriteOrPush (p := fun t => t.achievementBit.isSome ∧ t.unlockTime.isSome)
        ⟨rfl, rfl⟩ ?_ hok.complete t (setTimes_perm.mem_iff.mp ht)
      exact fun t ht => ⟨ht.1, rfl⟩
  | false =>
    refine ⟨hok.nodup.sublist (List.filter_sublist.map _), ?_⟩
    intro t ht
    exact hok.complete t (List.mem_filter.mp ht).1

theorem setEntryAchievement_time (hok : entry.Ok) (b' : Nat) :
    (setEntryAchievement b unlocked time entry).time b' =
      if b' = b then (if unlocked then some time else none) else entry.time b' := by
  unfold PlayerStatsEntry.time
  cases unlocked with
  | true =>
    have hnodup : ((setEntryAchievement b true time entry).unlockTimes.map
        (·.achievementBit)).Nodup := (setEntryAchievement_ok hok).nodup
    rw [findKey_perm setTimes_perm hnodup, findKey_rewriteOrPush]
    · by_cases heq : b' = b
      · rw [if_pos heq, if_pos (congrArg some heq)]
        rfl
      · rw [if_neg heq, if_neg fun h => heq (Option.some.inj h)]
    · rfl
    · exact fun _ => rfl
  | false =>
    have hfilter : (setEntryAchievement b false time entry).unlockTimes =
        entry.unlockTimes.filter fun t => t.achievementBit ≠ some b := rfl
    rw [hfilter, findKey_filter_ne]
    by_cases heq : b' = b
    · rw [if_pos heq, if_pos (congrArg some heq)]
      rfl
    · rw [if_neg heq, if_neg fun h => heq (Option.some.inj h)]

end Entry

/-! ## The service entries -/

def findEntry (entries : List PlayerStatsEntry) (statId : Nat) : Option PlayerStatsEntry :=
  findKey (·.statId) (some statId) entries

/-- Every entry has an id of its own and complete unlock times. -/
structure EntriesOk (entries : List PlayerStatsEntry) : Prop where
  nodup : (entries.map (·.statId)).Nodup
  ids : ∀ entry ∈ entries, entry.statId.isSome
  entries : ∀ entry ∈ entries, entry.Ok

theorem EntriesOk.find {entries : List PlayerStatsEntry} (h : EntriesOk entries) {statId : Nat}
    {entry : PlayerStatsEntry} (hfind : findEntry entries statId = some entry) : entry.Ok :=
  h.entries entry (mem_of_findKey hfind)

/-- A fresh entry of an achievement stat. -/
def freshEntry (statId : Nat) : PlayerStatsEntry := ⟨some statId, some 0, []⟩

theorem freshEntry_ok (statId : Nat) : (freshEntry statId).Ok :=
  ⟨List.nodup_nil, fun _ hmem => absurd hmem List.not_mem_nil⟩

theorem EntriesOk.service {entries : List PlayerStatsEntry} (h : EntriesOk entries)
    (w : AchievementWrite) : EntriesOk (w.service entries) := by
  refine ⟨?_, ?_, ?_⟩
  · refine nodup_rewriteOrPush ?_ ?_ h.nodup
    · rfl
    · exact fun _ => rfl
  · refine forall_rewriteOrPush ?_ ?_ h.ids
    · rfl
    · exact fun _ hid => hid
  · refine forall_rewriteOrPush ?_ ?_ h.entries
    · exact freshEntry_ok _
    · exact fun _ hok => setEntryAchievement_ok hok

theorem findEntry_service (entries : List PlayerStatsEntry) (w : AchievementWrite)
    (statId : Nat) :
    findEntry (w.service entries) statId =
      if statId = w.wireId.statId then
        some (setEntryAchievement w.wireId.achievementBit w.unlocked w.time
          ((findEntry entries statId).getD (freshEntry statId)))
      else findEntry entries statId := by
  unfold findEntry AchievementWrite.service
  rw [findKey_rewriteOrPush]
  · by_cases heq : statId = w.wireId.statId
    · rw [if_pos heq, if_pos (congrArg some heq), heq]
      rfl
    · rw [if_neg heq, if_neg fun h => heq (Option.some.inj h)]
  · rfl
  · exact fun _ => rfl

/-- What the entries say after some writes to achievement stats, on top of entries of other
stats. -/
structure ServiceDenotes (achievement : Nat → Prop) (start : List PlayerStatsEntry)
    (writes : List AchievementWrite) (entries : List PlayerStatsEntry) : Prop where
  ok : EntriesOk entries
  entry : ∀ s, achievement s →
    ((findEntry entries s).isSome ↔ ∃ w ∈ writes, w.wireId.statId = s)
  bit : ∀ s b, achievement s →
    ((findEntry entries s).elim false (·.bit b)) = (lastTime writes ⟨s, b⟩).isSome
  time : ∀ s b, achievement s → (findEntry entries s).bind (·.time b) = lastTime writes ⟨s, b⟩
  frame : ∀ s, ¬achievement s → findEntry entries s = findEntry start s

/-- The order of the entries does not matter. -/
theorem ServiceDenotes.perm {achievement : Nat → Prop} {start entries entries' :
    List PlayerStatsEntry} {writes : List AchievementWrite}
    (h : ServiceDenotes achievement start writes entries) (hperm : entries'.Perm entries) :
    ServiceDenotes achievement start writes entries' := by
  have hok : EntriesOk entries' :=
    ⟨(hperm.map _).nodup_iff.mpr h.ok.nodup, fun e he => h.ok.ids e (hperm.mem_iff.mp he),
      fun e he => h.ok.entries e (hperm.mem_iff.mp he)⟩
  have hfind : ∀ s, findEntry entries' s = findEntry entries s := fun s =>
    findKey_perm hperm hok.nodup (some s)
  refine ⟨hok, ?_, ?_, ?_, ?_⟩
  · intro s
    rw [hfind]
    exact h.entry s
  · intro s
    rw [hfind]
    exact h.bit s
  · intro s
    rw [hfind]
    exact h.time s
  · intro s
    rw [hfind]
    exact h.frame s

theorem getD_freshEntry_bit (found : Option PlayerStatsEntry) (s b : Nat) :
    (found.getD (freshEntry s)).bit b = found.elim false (·.bit b) := by
  cases found with
  | none => exact BitVec.getLsbD_zero
  | some entry => rfl

theorem getD_freshEntry_time (found : Option PlayerStatsEntry) (s b : Nat) :
    (found.getD (freshEntry s)).time b = found.bind (·.time b) := by
  cases found with
  | none => rfl
  | some entry => rfl

/-- A write is to one bit of one stat. -/
theorem AchievementWireId.eq_iff {wireId : AchievementWireId} {b : Nat} (h : s = wireId.statId) :
    wireId = ⟨s, b⟩ ↔ b = wireId.achievementBit := by
  subst h
  constructor
  · intro heq
    rw [heq]
  · rintro rfl
    rfl

section Step

variable {achievement : Nat → Prop} {start entries : List PlayerStatsEntry}
  {writes : List AchievementWrite}

theorem ServiceDenotes.write (h : ServiceDenotes achievement start writes entries)
    (hw : achievement w.wireId.statId) (hbit : w.wireId.achievementBit < 32) :
    ServiceDenotes achievement start (writes ++ [w]) (w.service entries) := by
  have hok : ∀ s, ((findEntry entries s).getD (freshEntry s)).Ok := by
    intro s
    cases hfind : findEntry entries s with
    | none => exact freshEntry_ok s
    | some entry => exact h.ok.find hfind
  refine ⟨h.ok.service w, ?_, ?_, ?_, ?_⟩
  · intro s hs
    rw [findEntry_service, exists_write_concat]
    by_cases heq : s = w.wireId.statId
    · rw [if_pos heq]
      exact ⟨fun _ => .inl heq, fun _ => rfl⟩
    · rw [if_neg heq, h.entry s hs]
      exact (or_iff_right heq).symm
  · intro s b hs
    rw [findEntry_service, lastTime_concat]
    by_cases heq : s = w.wireId.statId
    · rw [if_pos heq, Option.elim_some, setEntryAchievement_bit hbit, getD_freshEntry_bit,
        h.bit s b hs]
      simp only [AchievementWireId.eq_iff heq]
      split
      next => cases w.unlocked <;> rfl
      next => rfl
    · rw [if_neg heq, if_neg, h.bit s b hs]
      exact fun hwire => heq (congrArg AchievementWireId.statId hwire).symm
  · intro s b hs
    rw [findEntry_service, lastTime_concat]
    by_cases heq : s = w.wireId.statId
    · rw [if_pos heq, Option.bind_some, setEntryAchievement_time (hok s), getD_freshEntry_time,
        h.time s b hs]
      simp only [AchievementWireId.eq_iff heq]
    · rw [if_neg heq, if_neg, h.time s b hs]
      exact fun hwire => heq (congrArg AchievementWireId.statId hwire).symm
  · intro s hs
    rw [findEntry_service, if_neg, h.frame s hs]
    rintro rfl
    exact hs hw

theorem service_denotes (hok : EntriesOk start)
    (hstart : ∀ s, achievement s → findEntry start s = none) (writes : List AchievementWrite)
    (hwrites : ∀ w ∈ writes, achievement w.wireId.statId ∧ w.wireId.achievementBit < 32) :
    ServiceDenotes achievement start writes (writes.foldl AchievementWrite.service start) := by
  induction writes using List.reverseRecOn with
  | nil =>
    refine ⟨hok, ?_, ?_, ?_, fun _ _ => rfl⟩
    · intro s hs
      simp [hstart s hs]
    · intro s b hs
      show (findEntry start s).elim false _ = _
      rw [hstart s hs]
      rfl
    · intro s b hs
      show (findEntry start s).bind _ = _
      rw [hstart s hs]
      rfl
  | append_singleton writes w ih =>
    obtain ⟨hw, hbit⟩ := hwrites w (List.mem_append_right _ (List.mem_singleton.mpr rfl))
    rw [List.foldl_append]
    exact (ih fun w hmem => hwrites w (List.mem_append_left _ hmem)).write hw hbit

end Step

/-! ## The legacy blocks -/

/-- A position of a block; what was never written is zero. -/
def AchievementBlock.at (block : AchievementBlock) (b : Nat) : Nat := block.unlockTime.getD b 0

theorem setBlockAchievement_at (b : Nat) (unlocked : Bool) (time : Nat) (block : AchievementBlock)
    (b' : Nat) :
    (setBlockAchievement b unlocked time block).at b' =
      if b' = b then (if unlocked then time else 0) else block.at b' := by
  -- padding with zeros changes no position and makes room for the write
  have hpad : ∃ times : List Nat, b < times.length ∧
      (∀ i, times.getD i 0 = block.unlockTime.getD i 0) ∧
      setBlockAchievement b unlocked time block =
        ⟨block.achievementId, times.set b (if unlocked then time else 0)⟩ := by
    unfold setBlockAchievement
    dsimp only
    by_cases hle : block.unlockTime.length ≤ b
    · refine ⟨block.unlockTime ++ List.replicate (b + 1 - block.unlockTime.length) 0, ?_, ?_, ?_⟩
      · rw [List.length_append, List.length_replicate]
        omega
      · intro i
        rw [List.getD_eq_getElem?_getD, List.getD_eq_getElem?_getD, List.getElem?_append]
        split
        next => rfl
        next hge =>
          rw [List.getElem?_eq_none (Nat.le_of_not_lt hge), List.getElem?_replicate]
          split <;> rfl
      · rw [if_pos hle]
    · exact ⟨block.unlockTime, by omega, fun _ => rfl, by rw [if_neg hle]⟩
  obtain ⟨times, hlt, hsame, heq⟩ := hpad
  rw [heq, AchievementBlock.at, AchievementBlock.at, ← hsame, List.getD_eq_getElem?_getD,
    List.getElem?_set]
  by_cases hb : b = b'
  · rw [if_pos hb, if_pos (hb ▸ hlt), if_pos hb.symm]
    rfl
  · rw [if_neg hb, if_neg (Ne.symm hb), List.getD_eq_getElem?_getD]

def findBlock (blocks : List AchievementBlock) (statId : Nat) : Option AchievementBlock :=
  findKey (·.achievementId) (some statId) blocks

theorem findBlock_legacy (blocks : List AchievementBlock) (w : AchievementWrite) (statId : Nat) :
    findBlock (w.legacy blocks) statId =
      if statId = w.wireId.statId then
        some (setBlockAchievement w.wireId.achievementBit w.unlocked w.time
          ((findBlock blocks statId).getD ⟨some statId, []⟩))
      else findBlock blocks statId := by
  unfold findBlock AchievementWrite.legacy
  rw [findKey_rewriteOrPush]
  · by_cases heq : statId = w.wireId.statId
    · rw [if_pos heq, if_pos (congrArg some heq), heq]
    · rw [if_neg heq, if_neg fun h => heq (Option.some.inj h)]
  · rfl
  · exact fun _ => rfl

structure LegacyDenotes (writes : List AchievementWrite) (blocks : List AchievementBlock) :
    Prop where
  nodup : (blocks.map (·.achievementId)).Nodup
  ids : ∀ block ∈ blocks, block.achievementId.isSome
  block : ∀ s, (findBlock blocks s).isSome ↔ ∃ w ∈ writes, w.wireId.statId = s
  at_ : ∀ s b, (findBlock blocks s).elim 0 (·.at b) = (lastTime writes ⟨s, b⟩).getD 0

theorem legacy_denotes (writes : List AchievementWrite) :
    LegacyDenotes writes (writes.foldl AchievementWrite.legacy []) := by
  induction writes using List.reverseRecOn with
  | nil =>
    refine ⟨List.nodup_nil, fun _ hmem => absurd hmem List.not_mem_nil, ?_, fun _ _ => rfl⟩
    intro s
    simp [findBlock, findKey]
  | append_singleton writes w ih =>
    rw [List.foldl_append]
    show LegacyDenotes (writes ++ [w]) (w.legacy (writes.foldl AchievementWrite.legacy []))
    generalize writes.foldl AchievementWrite.legacy [] = blocks at ih ⊢
    refine ⟨?_, ?_, ?_, ?_⟩
    · refine nodup_rewriteOrPush ?_ ?_ ih.nodup
      · rfl
      · exact fun _ => rfl
    · refine forall_rewriteOrPush ?_ ?_ ih.ids
      · rfl
      · exact fun _ hid => hid
    · intro s
      rw [findBlock_legacy, exists_write_concat]
      by_cases heq : s = w.wireId.statId
      · rw [if_pos heq]
        exact ⟨fun _ => .inl heq, fun _ => rfl⟩
      · rw [if_neg heq, ih.block s]
        exact (or_iff_right heq).symm
    · intro s b
      rw [findBlock_legacy, lastTime_concat]
      by_cases heq : s = w.wireId.statId
      · have hfresh : ((findBlock blocks s).getD ⟨some s, []⟩).at b =
            (findBlock blocks s).elim 0 (·.at b) := by
          cases findBlock blocks s with
          | none => rfl
          | some block => rfl
        rw [if_pos heq, Option.elim_some, setBlockAchievement_at, hfresh, ih.at_ s b]
        simp only [AchievementWireId.eq_iff heq]
        split
        next => cases w.unlocked <;> rfl
        next => rfl
      · rw [if_neg heq, if_neg, ih.at_ s b]
        exact fun hwire => heq (congrArg AchievementWireId.statId hwire).symm

end VaporForge.Hooks
