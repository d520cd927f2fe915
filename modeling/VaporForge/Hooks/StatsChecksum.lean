import Mathlib.Data.List.Perm.Basic
import VaporForge.Hooks.StatsEncodings
import VaporForge.Lib.Frames

/-!
# The stats checksum is that of the state

`stats_crc` of `steam-protocol/src/lib.rs` names the state of an app's stats by a number. It
sorts the entries by id and the unlock times of each by bit, and checksums one frame for
each entry. Something without an id is sorted as if it had the largest one.

> Entries whose sort keys are distinct have the same canonical bytes after any permutation of
> the entries and of their unlock times; entries with the same canonical bytes are such a
> permutation; and the checksum of a backend state that reports every key once does not
> depend on the order of its lists (`checksum_of_state`).

With distinct ids alone this is not so: an entry without an id and one with the id
`u32::MAX` are sorted by the same key and stay in the order they came in. Nor is it so for
every state: two reports that go to one place overwrite each other in the order of the
lists (`checksum_depends_on_order`).
-/

namespace VaporForge.Hooks

open VaporForge.CloudCore VaporForge.SteamProtocol
open Lib

/-! ## The same state in another order -/

/-- The unlock times in another order. -/
structure PlayerStatsEntry.Rearranged (e e' : PlayerStatsEntry) : Prop where
  statId : e.statId = e'.statId
  statValue : e.statValue = e'.statValue
  unlockTimes : e.unlockTimes.Perm e'.unlockTimes

/-- A permutation of the entries and of the unlock times of each. -/
def Rearranged (a b : List PlayerStatsEntry) : Prop :=
  ∃ m, a.Perm m ∧ List.Forall₂ PlayerStatsEntry.Rearranged m b

/-- No two entries, and no two unlock times of an entry, are sorted by the same key. -/
structure DistinctKeys (stats : List PlayerStatsEntry) : Prop where
  ids : (stats.map fun entry => entry.statId.getD u32Max).Nodup
  bits : ∀ entry ∈ stats,
    (entry.unlockTimes.map fun time => time.achievementBit.getD u32Max).Nodup

variable {e e' : PlayerStatsEntry} {b a : List PlayerStatsEntry}

theorem PlayerStatsEntry.Rearranged.symm (h : e.Rearranged e') : e'.Rearranged e :=
  ⟨h.statId.symm, h.statValue.symm, h.unlockTimes.symm⟩

theorem PlayerStatsEntry.Rearranged.trans {e'' : PlayerStatsEntry} (h : e.Rearranged e')
    (h' : e'.Rearranged e'') : e.Rearranged e'' :=
  ⟨h.statId.trans h'.statId, h.statValue.trans h'.statValue, h.unlockTimes.trans h'.unlockTimes⟩

variable {c : List PlayerStatsEntry}

/-- What is rearranged entry by entry into the same is so into each other. -/
theorem forall₂_of_common (ha : List.Forall₂ PlayerStatsEntry.Rearranged a c)
    (hb : List.Forall₂ PlayerStatsEntry.Rearranged b c) :
    List.Forall₂ PlayerStatsEntry.Rearranged a b := by
  induction ha generalizing b with
  | nil =>
    cases hb
    exact .nil
  | cons hentry _ ih =>
    cases hb with
    | cons hentry' hb => exact .cons (hentry.trans hentry'.symm) (ih hb)

/-- Two lists that are both rearranged into a third are so into each other. -/
theorem Rearranged.of_common (ha : Rearranged a c) (hb : Rearranged b c) : Rearranged a b := by
  obtain ⟨m, ham, hmc⟩ := ha
  obtain ⟨n, hbn, hnc⟩ := hb
  -- `a` is permuted to `m`, rearranged entry by entry to `n`, and permuted to `b`
  have hcomp : Relation.Comp (List.Forall₂ PlayerStatsEntry.Rearranged) List.Perm m b :=
    ⟨n, forall₂_of_common hmc hnc, hbn.symm⟩
  rw [List.forall₂_comp_perm_eq_perm_comp_forall₂] at hcomp
  obtain ⟨k, hmk, hkb⟩ := hcomp
  exact ⟨k, ham.trans hmk, hkb⟩

/-! ## Sorting -/

/-- An entry with its unlock times in the order of the bits. -/
def PlayerStatsEntry.normalized (entry : PlayerStatsEntry) : PlayerStatsEntry :=
  { entry with
    unlockTimes := entry.unlockTimes.insertionSort
      fun a b => a.achievementBit.getD u32Max ≤ b.achievementBit.getD u32Max }

theorem PlayerStatsEntry.rearranged_normalized (entry : PlayerStatsEntry) :
    entry.Rearranged entry.normalized :=
  ⟨rfl, rfl, (List.perm_insertionSort _ _).symm⟩

theorem PlayerStatsEntry.Rearranged.normalized_eq (h : e.Rearranged e')
    (hbits : (e.unlockTimes.map fun time => time.achievementBit.getD u32Max).Nodup) :
    e.normalized = e'.normalized := by
  unfold PlayerStatsEntry.normalized
  rw [PlayerStatsEntry.mk.injEq]
  exact ⟨h.statId, h.statValue, insertionSort_eq_of_perm hbits h.unlockTimes⟩

theorem rearranged_sortedPlayerStats (stats : List PlayerStatsEntry) :
    Rearranged stats (sortedPlayerStats stats) := by
  refine ⟨sortEntries stats, (sortEntries_perm stats).symm, ?_⟩
  show List.Forall₂ _ _ ((sortEntries stats).map PlayerStatsEntry.normalized)
  rw [List.forall₂_map_right_iff, List.forall₂_same]
  exact fun entry _ => entry.rearranged_normalized

/-- Sorting the entries and sorting inside them does not interfere. -/
theorem sortedPlayerStats_eq (stats : List PlayerStatsEntry) :
    sortedPlayerStats stats = sortEntries (stats.map PlayerStatsEntry.normalized) :=
  List.map_insertionSort _ _ _ _ fun _ _ _ _ => Iff.rfl

theorem map_normalized_eq {m : List PlayerStatsEntry}
    (h : List.Forall₂ PlayerStatsEntry.Rearranged m b)
    (hbits : ∀ entry ∈ m, (entry.unlockTimes.map fun time => time.achievementBit.getD u32Max).Nodup)
    : m.map PlayerStatsEntry.normalized = b.map PlayerStatsEntry.normalized := by
  induction h with
  | nil => rfl
  | cons hentry _ ih =>
    rw [List.forall_mem_cons] at hbits
    rw [List.map_cons, List.map_cons, hentry.normalized_eq hbits.1, ih hbits.2]

theorem sortedPlayerStats_of_rearranged (hkeys : DistinctKeys a) (h : Rearranged a b) :
    sortedPlayerStats a = sortedPlayerStats b := by
  obtain ⟨m, ham, hmb⟩ := h
  have hbits := fun entry hentry => hkeys.bits entry (ham.mem_iff.mpr hentry)
  rw [sortedPlayerStats_eq, sortedPlayerStats_eq, ← map_normalized_eq hmb hbits]
  refine insertionSort_eq_of_perm ?_ (ham.map _)
  rw [List.map_map]
  exact hkeys.ids

/-! ## The frames can be told apart -/

theorem toNat_continuation (value : Nat) :
    (UInt8.ofNat value ||| 0x80).toNat = value % 128 + 128 := by
  have hor : ∀ x < 256, x ||| 128 = x % 128 + 128 := by decide +kernel
  rw [UInt8.toNat_or, UInt8.toNat_ofNat']
  show value % 256 ||| 128 = _
  rw [hor _ (Nat.mod_lt _ (by decide))]
  omega

/-- A number of at most `groups + 1` groups of seven bits. The induction is on the groups: the
first byte tells whether another one follows. -/
theorem encodeStatsVarint_cut (groups : Nat) :
    ∀ {n m : Nat} {r r' : Bytes}, n < 128 ^ (groups + 1) → m < 128 ^ (groups + 1) →
      encodeStatsVarint groups n ++ r = encodeStatsVarint groups m ++ r' → n = m ∧ r = r' := by
  induction groups with
  | zero =>
    intro n m r r' hn hm h
    have hn : n < 128 := hn
    have hm : m < 128 := hm
    obtain ⟨hbyte, hrest⟩ := List.cons.inj h
    have hnat := congrArg UInt8.toNat hbyte
    rw [UInt8.toNat_ofNat', UInt8.toNat_ofNat'] at hnat
    exact ⟨by omega, hrest⟩
  | succ groups ih =>
    intro n m r r' hn hm h
    have hdiv : ∀ {k : Nat}, k < 128 ^ (groups + 1 + 1) → k / 128 < 128 ^ (groups + 1) := by
      intro k hk
      rw [Nat.pow_succ] at hk
      exact Nat.div_lt_of_lt_mul (Nat.mul_comm _ _ ▸ hk)
    rw [encodeStatsVarint, encodeStatsVarint] at h
    by_cases hn' : n ≥ 0x80
    · by_cases hm' : m ≥ 0x80
      · rw [if_pos hn', if_pos hm'] at h
        obtain ⟨hbyte, hrest⟩ := List.cons.inj h
        have hnat := congrArg UInt8.toNat hbyte
        rw [toNat_continuation, toNat_continuation] at hnat
        obtain ⟨hhigh, hr⟩ := ih (hdiv hn) (hdiv hm) hrest
        exact ⟨by omega, hr⟩
      · rw [if_pos hn', if_neg hm'] at h
        have hnat := congrArg UInt8.toNat (List.cons.inj h).1
        rw [toNat_continuation, UInt8.toNat_ofNat'] at hnat
        omega
    · by_cases hm' : m ≥ 0x80
      · rw [if_neg hn', if_pos hm'] at h
        have hnat := congrArg UInt8.toNat (List.cons.inj h).1
        rw [toNat_continuation, UInt8.toNat_ofNat'] at hnat
        omega
      · rw [if_neg hn', if_neg hm'] at h
        obtain ⟨hbyte, hrest⟩ := List.cons.inj h
        have hnat := congrArg UInt8.toNat hbyte
        rw [UInt8.toNat_ofNat', UInt8.toNat_ofNat'] at hnat
        exact ⟨by omega, hrest⟩

/-- What stands before an entry of `length` bytes. -/
def statsHeader (length : Nat) : Bytes := 0x22 :: encodeStatsVarint 9 length

theorem statsHeader_selfDelimiting : SelfDelimiting statsHeader (2 ^ 64) where
  nonempty n := List.cons_ne_nil _ _
  cut hn hm h := encodeStatsVarint_cut 9 (Nat.lt_trans hn (by decide))
    (Nat.lt_trans hm (by decide)) (List.cons.inj h).2

theorem canonicalStatsWireBytes_eq (P : StatsPlatform) (stats : List PlayerStatsEntry) :
    canonicalStatsWireBytes P stats =
      ((sortedPlayerStats stats).map P.encodeEntry).flatMap (frame statsHeader) := by
  rw [List.flatMap_map]
  rfl

/-- What is assumed of the encoding of one entry: it is injective on the entries that are
compared, and its length is a `u64`. -/
structure EncodedApart (P : StatsPlatform) (a b : List PlayerStatsEntry) : Prop where
  injective : ∀ e ∈ sortedPlayerStats a, ∀ e' ∈ sortedPlayerStats b,
    P.encodeEntry e = P.encodeEntry e' → e = e'
  fits : ∀ e ∈ sortedPlayerStats a, (P.encodeEntry e).length < 2 ^ 64
  fits' : ∀ e ∈ sortedPlayerStats b, (P.encodeEntry e).length < 2 ^ 64

/-- Entries that are encoded alike one by one are the same. -/
theorem eq_of_map_eq {α β : Type} {f : α → β} {l l' : List α}
    (hinj : ∀ x ∈ l, ∀ y ∈ l', f x = f y → x = y) (h : l.map f = l'.map f) : l = l' := by
  induction l generalizing l' with
  | nil => exact (List.map_eq_nil_iff.mp h.symm).symm
  | cons x l ih =>
    cases l' with
    | nil => cases h
    | cons y l' =>
      obtain ⟨hhead, htail⟩ := List.cons.inj h
      have hrest := ih (fun x hx y hy => hinj x (.tail _ hx) y (.tail _ hy)) htail
      rw [hinj x (.head _) y (.head _) hhead, hrest]

theorem rearranged_of_canonical {P : StatsPlatform} (hP : EncodedApart P a b)
    (h : canonicalStatsWireBytes P a = canonicalStatsWireBytes P b) : Rearranged a b := by
  rw [canonicalStatsWireBytes_eq, canonicalStatsWireBytes_eq] at h
  have hmap := flatMap_frame_inj statsHeader_selfDelimiting (List.forall_mem_map.mpr hP.fits)
    (List.forall_mem_map.mpr hP.fits') h
  have hsorted := eq_of_map_eq hP.injective hmap
  exact (rearranged_sortedPlayerStats a).of_common (hsorted ▸ rearranged_sortedPlayerStats b)

/-! ## The order of the backend's lists -/

/-- The unlock times are read back by `time`. -/
theorem mem_unlockTimes_iff {entry : PlayerStatsEntry} (hok : entry.Ok)
    {t : PlayerAchievementUnlockTime} :
    t ∈ entry.unlockTimes ↔ ∃ b time, t = ⟨some b, some time⟩ ∧ entry.time b = some time := by
  constructor
  · intro ht
    obtain ⟨hbit, htime⟩ := hok.complete t ht
    obtain ⟨b, hb⟩ := Option.isSome_iff_exists.mp hbit
    obtain ⟨time, htime⟩ := Option.isSome_iff_exists.mp htime
    have hfind : findKey (·.achievementBit) (some b) entry.unlockTimes = some t :=
      (findKey_eq_some_iff hok.nodup).mpr ⟨ht, hb⟩
    refine ⟨b, time, ?_, ?_⟩
    · rw [← hb, ← htime]
    · rw [PlayerStatsEntry.time, hfind]
      exact htime
  · rintro ⟨b, time, ht, htime⟩
    obtain ⟨found, hfind, hfound⟩ := Option.bind_eq_some_iff.mp htime
    have heq : found = t := by
      rw [ht, ← key_of_findKey hfind, ← hfound]
    exact heq ▸ mem_of_findKey hfind

/-- Two entries of one stat that say the same. -/
theorem rearranged_of_says (hok : e.Ok) (hok' : e'.Ok) (hid : e.statId = e'.statId)
    (hvalue : e.statValue.isSome) (hvalue' : e'.statValue.isSome) (hbits : ∀ b, e.bit b = e'.bit b)
    (htimes : ∀ b, e.time b = e'.time b) : e.Rearranged e' := by
  obtain ⟨v, hv⟩ := Option.isSome_iff_exists.mp hvalue
  obtain ⟨v', hv'⟩ := Option.isSome_iff_exists.mp hvalue'
  refine ⟨hid, ?_, ?_⟩
  · rw [hv, hv']
    refine congrArg some (BitVec.eq_of_getLsbD_eq fun b _ => ?_)
    have hb := hbits b
    unfold PlayerStatsEntry.bit at hb
    rw [hv, hv'] at hb
    exact hb
  · refine (List.perm_ext_iff_of_nodup (.of_map _ hok.nodup) (.of_map _ hok'.nodup)).mpr ?_
    intro t
    rw [mem_unlockTimes_iff hok, mem_unlockTimes_iff hok']
    simp only [htimes]

/-- Lists in which the same ids are found, with entries that say the same. -/
theorem rearranged_of_find (ha : EntriesOk a) (hb : EntriesOk b)
    (hsome : ∀ s, (findEntry a s).isSome ↔ (findEntry b s).isSome)
    (hfound : ∀ s e e', findEntry a s = some e → findEntry b s = some e' → e.Rearranged e') :
    Rearranged a b := by
  -- each entry of `b` is matched with the one of `a` that has its id
  have hmatch : ∀ e' ∈ b, ∃ e, e ∈ a ∧ e.Rearranged e' := by
    intro e' he'
    obtain ⟨s, hs⟩ := Option.isSome_iff_exists.mp (hb.ids e' he')
    have hfind' : findEntry b s = some e' := (findKey_eq_some_iff hb.nodup).mpr ⟨he', hs⟩
    obtain ⟨e, hfind⟩ := Option.isSome_iff_exists.mp ((hsome s).mpr (by rw [hfind']; rfl))
    exact ⟨e, mem_of_findKey hfind, hfound s e e' hfind hfind'⟩
  choose! partner hmem hsame using hmatch
  refine ⟨b.map partner, ?_, ?_⟩
  · have hids : (b.map partner).map (·.statId) = b.map (·.statId) := by
      rw [List.map_map]
      exact List.map_congr_left fun e' he' => (hsame e' he').statId
    have hnodup : ((b.map partner).map (·.statId)).Nodup := by
      rw [hids]
      exact hb.nodup
    refine (List.perm_ext_iff_of_nodup (.of_map _ ha.nodup) (.of_map _ hnodup)).mpr ?_
    intro e
    refine ⟨fun he => ?_, fun he => ?_⟩
    · obtain ⟨s, hs⟩ := Option.isSome_iff_exists.mp (ha.ids e he)
      have hfind : findEntry a s = some e := (findKey_eq_some_iff ha.nodup).mpr ⟨he, hs⟩
      obtain ⟨e', hfind'⟩ := Option.isSome_iff_exists.mp ((hsome s).mp (by rw [hfind]; rfl))
      have he' := mem_of_findKey hfind'
      have hid : (partner e').statId = some s :=
        (hsame e' he').statId.trans (key_of_findKey hfind')
      have hpartner : findEntry a s = some (partner e') :=
        (findKey_eq_some_iff ha.nodup).mpr ⟨hmem e' he', hid⟩
      refine List.mem_map.mpr ⟨e', he', ?_⟩
      exact Option.some.inj (hpartner.symm.trans hfind)
    · obtain ⟨e', he', rfl⟩ := List.mem_map.mp he
      exact hmem e' he'
  · rw [List.forall₂_map_left_iff, List.forall₂_same]
    exact hsame

/-- With one write for each bit their order does not matter. -/
theorem lastTime_perm {writes writes' : List AchievementWrite} (hperm : writes.Perm writes')
    (hnodup : (writes.map (·.wireId)).Nodup) (wireId : AchievementWireId) :
    lastTime writes wireId = lastTime writes' wireId := by
  have hnodup' : (writes'.map (·.wireId)).Nodup := (hperm.map _).nodup_iff.mp hnodup
  ext time
  rw [lastTime_eq_some_iff hnodup, lastTime_eq_some_iff hnodup']
  simp only [hperm.mem_iff]

/-- Every entry has a value. -/
theorem statValue_isSome {start : List PlayerStatsEntry}
    (hstart : ∀ e ∈ start, e.statValue.isSome) (writes : List AchievementWrite) :
    ∀ e ∈ writes.foldl AchievementWrite.service start, e.statValue.isSome := by
  induction writes using List.reverseRecOn with
  | nil => exact hstart
  | append_singleton writes w ih =>
    rw [List.foldl_append]
    refine forall_rewriteOrPush (p := fun e : PlayerStatsEntry => e.statValue.isSome = true) ?_ ?_ ih
    · rfl
    · exact fun _ _ => rfl

theorem ReportedOnce.perm {achievements achievements' : List AchievementSyncState}
    {states states' : List StatSyncState} (h : ReportedOnce achievements states)
    (hachievements : achievements.Perm achievements') (hstates : states.Perm states') :
    ReportedOnce achievements' states' :=
  ⟨(hachievements.map _).nodup_iff.mp h.achievements, (hstates.map _).nodup_iff.mp h.stats⟩

section Backend

variable {P : StatsPlatform} {schema : Bytes} {stats : SchemaFields}
  {achievements achievements' : List AchievementSyncState} {states states' : List StatSyncState}

/-- The entries of a schema that parses, in any order of the lists. -/
theorem entriesOf_rearranged (O : SchemaOrder) (appId : Nat)
    (hschema : schemaStatsOf schema = .ok stats) (hnumbers : Unambiguous stats)
    (honce : ReportedOnce achievements states) (hachievements : achievements.Perm achievements')
    (hstates : states.Perm states') :
    Rearranged
      (entriesOf P (achievementTable O stats) (statTable O stats) appId achievements states)
      (entriesOf P (achievementTable O stats) (statTable O stats) appId achievements'
        states') := by
  have hkeyed := schemaStatsOf_keyed hschema
  have hids := wireIds O stats
  have honce' := honce.perm hachievements hstates
  have hdenotes := entriesOf_denotes hschema hnumbers honce P O appId
  have hdenotes' := entriesOf_denotes hschema hnumbers honce' P O appId
  have hwrites : (achievementWrites (achievementTable O stats) appId achievements).Perm
      (achievementWrites (achievementTable O stats) appId achievements') :=
    (hachievements.filter _).filterMap _
  have hlast := lastTime_perm hwrites
    (nodup_achievementWrites hkeyed hnumbers hids honce appId)
  have hplain : ∀ s,
      findEntry ((statWrites P (statTable O stats) appId states).map plainEntry) s =
        findEntry ((statWrites P (statTable O stats) appId states').map plainEntry) s :=
    fun s => findKey_perm (((hstates.filter _).filterMap _).map _)
      (plainEntries_ok (nodup_statWrites hkeyed hnumbers hids honce appId)).nodup (some s)
  refine rearranged_of_find hdenotes.ok hdenotes'.ok (fun s => ?_) fun s e e' he he' => ?_
  · by_cases hs : AchievementStat stats s
    · rw [hdenotes.entry s hs, hdenotes'.entry s hs]
      simp only [hwrites.mem_iff]
    · rw [hdenotes.frame s hs, hdenotes'.frame s hs, hplain s]
  · by_cases hs : AchievementStat stats s
    · have hvalue : ∀ {achievements : List AchievementSyncState} {states : List StatSyncState},
          ∀ e ∈ entriesOf P (achievementTable O stats) (statTable O stats) appId achievements
            states, e.statValue.isSome :=
        statValue_isSome (List.forall_mem_map.mpr fun _ _ => rfl) _
      refine rearranged_of_says (hdenotes.ok.find he) (hdenotes'.ok.find he')
        ((key_of_findKey he).trans (key_of_findKey he').symm)
        (hvalue e (mem_of_findKey he)) (hvalue e' (mem_of_findKey he')) (fun b => ?_) fun b => ?_
      · have hbit := hdenotes.bit s b hs
        have hbit' := hdenotes'.bit s b hs
        rw [he] at hbit
        rw [he'] at hbit'
        exact hbit.trans ((congrArg Option.isSome (hlast ⟨s, b⟩)).trans hbit'.symm)
      · have htime := hdenotes.time s b hs
        have htime' := hdenotes'.time s b hs
        rw [he] at htime
        rw [he'] at htime'
        exact htime.trans ((hlast ⟨s, b⟩).trans htime'.symm)
    · -- an entry of a plain stat is the same in both
      rw [hdenotes.frame s hs] at he
      rw [hdenotes'.frame s hs, ← hplain s, he] at he'
      cases he'
      exact ⟨rfl, rfl, .refl _⟩

/-- Entries as `service_stats_entries` yields them have distinct sort keys. -/
theorem EntriesOk.distinctKeys {entries : List PlayerStatsEntry} (h : EntriesOk entries) :
    DistinctKeys entries := by
  have hgetD : ∀ {o : Option Nat}, o.isSome → some (o.getD u32Max) = o := by
    intro o ho
    obtain ⟨n, rfl⟩ := Option.isSome_iff_exists.mp ho
    rfl
  refine ⟨.of_map some ?_, fun e he => .of_map some ?_⟩
  · rw [List.map_map]
    rw [show entries.map (some ∘ fun e => e.statId.getD u32Max) = entries.map (·.statId) from
      List.map_congr_left fun e he => hgetD (h.ids e he)]
    exact h.nodup
  · have hok := h.entries e he
    rw [List.map_map]
    rw [show e.unlockTimes.map (some ∘ fun t => t.achievementBit.getD u32Max) =
        e.unlockTimes.map (·.achievementBit) from
      List.map_congr_left fun t ht => hgetD (hok.complete t ht).1]
    exact hok.nodup

/-- The checksum of a backend state. -/
theorem statsCrc_backend (O : SchemaOrder) (appId : Nat)
    (hnumbers : ∀ stats, schemaStatsOf schema = .ok stats → Unambiguous stats)
    (honce : ReportedOnce achievements states) (hachievements : achievements.Perm achievements')
    (hstates : states.Perm states') :
    (serviceStatsEntries P O appId schema achievements states).map (statsCrc P) =
      (serviceStatsEntries P O appId schema achievements' states').map (statsCrc P) := by
  cases hschema : schemaStatsOf schema with
  | error stop =>
    have hnone : achievementWireIds O schema = none := by
      unfold achievementWireIds
      rw [parseAchievementBitMappings_eq, hschema]
      rfl
    unfold serviceStatsEntries
    rw [hnone]
    rfl
  | ok stats =>
    have hstats := hnumbers stats hschema
    have honce' := honce.perm hachievements hstates
    rw [serviceStatsEntries_eq hschema hstats honce, serviceStatsEntries_eq hschema hstats honce']
    have hentries := entriesOf_rearranged (P := P) O appId hschema hstats honce hachievements
      hstates
    have hsorted : sortedPlayerStats (sortEntries (entriesOf P (achievementTable O stats)
          (statTable O stats) appId achievements states)) =
        sortedPlayerStats (sortEntries (entriesOf P (achievementTable O stats)
          (statTable O stats) appId achievements' states')) := by
      have hok := (entriesOf_denotes hschema hstats honce P O appId).ok.distinctKeys
      have hok' := (entriesOf_denotes hschema hstats honce' P O appId).ok.distinctKeys
      have hsort : ∀ {entries : List PlayerStatsEntry}, DistinctKeys entries →
          sortedPlayerStats entries = sortedPlayerStats (sortEntries entries) := by
        intro entries hkeys
        refine sortedPlayerStats_of_rearranged hkeys ⟨_, (sortEntries_perm entries).symm, ?_⟩
        exact List.forall₂_same.mpr fun _ _ => ⟨rfl, rfl, .refl _⟩
      rw [← hsort hok, ← hsort hok']
      exact sortedPlayerStats_of_rearranged hok hentries
    show some _ = some _
    unfold statsCrc canonicalStatsWireBytes
    rw [hsorted]

end Backend

/-! ## The payoff -/

/-- Rearranging entries with distinct sort keys keeps the canonical bytes, equal canonical
bytes are those of rearranged entries, and the order of the backend's lists does not reach the
checksum, nor does the order in which the schema's maps are iterated. -/
theorem checksum_of_state (P : StatsPlatform) :
    (∀ a b, DistinctKeys a → Rearranged a b →
      canonicalStatsWireBytes P a = canonicalStatsWireBytes P b ∧ statsCrc P a = statsCrc P b) ∧
    (∀ a b, EncodedApart P a b → canonicalStatsWireBytes P a = canonicalStatsWireBytes P b →
      Rearranged a b) ∧
    ∀ (O O' : SchemaOrder) (appId : Nat) (schema : Bytes)
      (achievements achievements' : List AchievementSyncState)
      (states states' : List StatSyncState),
      (∀ stats, schemaStatsOf schema = .ok stats → Unambiguous stats) →
      ReportedOnce achievements states → achievements.Perm achievements' →
      states.Perm states' →
      (serviceStatsEntries P O appId schema achievements states).map (statsCrc P) =
        (serviceStatsEntries P O' appId schema achievements' states').map (statsCrc P) := by
  refine ⟨fun a b hkeys h => ?_, fun a b hP h => rearranged_of_canonical hP h, ?_⟩
  · have hsorted := sortedPlayerStats_of_rearranged hkeys h
    have hbytes : canonicalStatsWireBytes P a = canonicalStatsWireBytes P b := by
      unfold canonicalStatsWireBytes
      rw [hsorted]
    exact ⟨hbytes, congrArg statsCrc32c hbytes⟩
  · intro O O' appId schema achievements achievements' states states' hnumbers honce
      hachievements hstates
    rw [serviceStatsEntries_order hnumbers P O' O]
    exact statsCrc_backend O appId hnumbers honce hachievements hstates

/-! ## Where the order shows -/

def prostUnlockTime (t : PlayerAchievementUnlockTime) : Bytes :=
  (t.achievementBit.elim [] fun bit => 0x08 :: encodeStatsVarint 9 bit) ++
    t.unlockTime.elim [] fun time => 0x15 ::
      (List.range 4).map fun i => UInt8.ofNat (time / 256 ^ i)

/-- The encoding of one entry as `prost` derives it from the tags of the message. -/
def prostEntry (entry : PlayerStatsEntry) : Bytes :=
  (entry.statId.elim [] fun id => 0x08 :: encodeStatsVarint 9 id) ++
    (entry.statValue.elim [] fun value => 0x10 :: encodeStatsVarint 9 value.toNat) ++
    entry.unlockTimes.flatMap fun t =>
      0x1a :: (encodeStatsVarint 9 (prostUnlockTime t).length ++ prostUnlockTime t)

/-- No stat below is a float. -/
def prostPlatform : StatsPlatform := ⟨fun _ => none, prostEntry⟩

/-- An entry without an id and one with the largest id. -/
def tiedStats : List PlayerStatsEntry := [⟨none, some 1, []⟩, ⟨some u32Max, some 1, []⟩]

/-- One stat reported twice. -/
def reportedTwice : List StatSyncState :=
  [⟨480, "KILLS", "int", "3", 25⟩, ⟨480, "KILLS", "int", "4", 26⟩]

theorem serviceStatsEntries_sample (states : List StatSyncState) :
    serviceStatsEntries prostPlatform storedOrder 480 sampleSchema [] states =
      some (sortEntries ((states.filter fun st => st.appId = 480).foldl
        (addServiceStat prostPlatform (statTable storedOrder (fieldsOf sampleStats []))) [])) := by
  unfold serviceStatsEntries
  rw [achievementWireIds_eq sampleSchema_parses, statWireIds_eq sampleSchema_parses]
  rfl

/-- Distinct ids do not make distinct sort keys, and of two reports of one stat the later one
counts. -/
theorem checksum_depends_on_order :
    ((tiedStats.map (·.statId)).Nodup ∧
      (∀ e ∈ tiedStats, (e.unlockTimes.map (·.achievementBit)).Nodup) ∧
      EncodedApart prostPlatform tiedStats tiedStats.reverse ∧
      statsCrc prostPlatform tiedStats ≠ statsCrc prostPlatform tiedStats.reverse) ∧
    (serviceStatsEntries prostPlatform storedOrder 480 sampleSchema [] reportedTwice).map
        (statsCrc prostPlatform) ≠
      (serviceStatsEntries prostPlatform storedOrder 480 sampleSchema []
        reportedTwice.reverse).map (statsCrc prostPlatform) := by
  refine ⟨⟨by decide, by decide, ⟨?_, ?_, ?_⟩, by decide +kernel⟩, ?_⟩
  · decide +kernel
  · decide +kernel
  · decide +kernel
  · rw [serviceStatsEntries_sample, serviceStatsEntries_sample]
    decide +kernel

/-- Two entries, one with two unlock times, in both orders. -/
theorem checksum_of_two_entries :
    statsCrc prostPlatform
        [⟨some 2, some 3, []⟩, ⟨some 1, some 3, [⟨some 0, some 20⟩, ⟨some 1, some 25⟩]⟩] =
      statsCrc prostPlatform
        [⟨some 1, some 3, [⟨some 1, some 25⟩, ⟨some 0, some 20⟩]⟩, ⟨some 2, some 3, []⟩] := by
  refine ((checksum_of_state prostPlatform).1 _ _ ⟨by decide, by decide⟩
    ⟨[⟨some 1, some 3, [⟨some 0, some 20⟩, ⟨some 1, some 25⟩]⟩, ⟨some 2, some 3, []⟩],
      .swap _ _ _, ?_⟩).2
  exact .cons ⟨rfl, rfl, .swap _ _ _⟩ (.cons ⟨rfl, rfl, .refl _⟩ .nil)

end VaporForge.Hooks
