import VaporForge.Lib.Keyed
import VaporForge.Lib.Records
import VaporForge.SteamProtocol.Schema

/-!
# The mappings of a schema

> Where no two textual keys denote the same number, the mappings of a schema do not depend
> on the order in which its hash maps are iterated (`parseAchievementBitMappings_order`,
> `parseStatMappings_order`).

The parsed tree is made of hash maps, so the keys of each section are distinct (`Keyed`,
along the parser's loop). Distinct keys that denote distinct numbers make the sort keys of
the mappings distinct, and a list that is sorted by distinct keys is determined by its
members.
-/

namespace VaporForge.SteamProtocol

open VaporForge.CloudCore
open Lib

/-! ## Hash maps have distinct keys -/

/-- In every section no key occurs twice. -/
inductive AchievementSchemaValue.Keyed : AchievementSchemaValue → Prop
  | object {fields : SchemaFields} (nodup : (fields.map Prod.fst).Nodup)
      (values : ∀ field ∈ fields, field.2.Keyed) : Keyed (.object fields)
  | string (text : String) : Keyed (.string text)
  | int (value : Int) : Keyed (.int value)
  | other : Keyed .other

structure KeyedFields (fields : SchemaFields) : Prop where
  nodup : (fields.map Prod.fst).Nodup
  values : ∀ field ∈ fields, field.2.Keyed

theorem KeyedFields.nil : KeyedFields [] :=
  ⟨List.nodup_nil, fun _ hmem => absurd hmem List.not_mem_nil⟩

variable {fields stats : SchemaFields} {value : AchievementSchemaValue}
  {field : String × AchievementSchemaValue} {mapping : AchievementBitMapping} {O : SchemaOrder}

theorem KeyedFields.insert (h : KeyedFields fields) (key : String) (hvalue : value.Keyed) :
    KeyedFields (insertField fields key value) := by
  refine ⟨?_, ?_⟩
  · rw [insertField, List.map_cons, List.nodup_cons]
    refine ⟨?_, h.nodup.sublist (List.filter_sublist.map _)⟩
    intro hmem
    obtain ⟨field, hfield, heq⟩ := List.mem_map.mp hmem
    exact of_decide_eq_true (List.mem_filter.mp hfield).2 heq
  · rw [insertField, List.forall_mem_cons]
    exact ⟨hvalue, fun field hfield => h.values field (List.mem_filter.mp hfield).1⟩

theorem Keyed.object? (h : value.Keyed) (hfields : value.object? = some fields) :
    KeyedFields fields := by
  cases h with
  | object nodup values =>
    cases hfields
    exact ⟨nodup, values⟩
  | string => cases hfields
  | int => cases hfields
  | other => cases hfields

theorem KeyedFields.getField (h : KeyedFields fields) {key : String}
    (hvalue : getField fields key = some value) : value.Keyed := by
  obtain ⟨field, hfind, rfl⟩ := Option.map_eq_some_iff.mp hvalue
  exact h.values field (List.mem_of_find?_eq_some hfind)

/-- Whatever a reader does to the cursor, its value satisfies `p`. -/
abbrev Yields {α : Type} (x : Parse α) (p : α → Prop) : Prop :=
  Effect.Spec (fun _ => True) x (fun a _ => p a) fun _ _ => True

theorem yields_true {α : Type} (x : Parse α) : Yields x fun _ => True := by
  intro p _ r p' _
  cases r with
  | ok a => trivial
  | error stop => trivial

theorem scalar_keyed (kind : UInt8) : Yields (scalar kind) (·.Keyed) := by
  have hpure : ∀ value : AchievementSchemaValue, value.Keyed →
      Yields (pure value : Parse _) (·.Keyed) := fun value hvalue => .pure fun _ _ => hvalue
  unfold scalar
  split
  next => exact (yields_true _).bind fun _ => hpure _ (.string _)
  split
  next => exact (yields_true _).bind fun _ => (yields_true _).bind fun _ => hpure _ (.int _)
  split
  next => exact (yields_true _).bind fun _ => hpure _ .other
  split
  next =>
    exact (yields_true _).bind fun _ => (yields_true _).bind fun _ =>
      (yields_true _).bind fun _ => hpure _ .other
  split
  next => exact (yields_true _).bind fun _ => (yields_true _).bind fun _ => hpure _ (.int _)
  next => exact .raise fun _ _ => trivial

theorem entryValue_keyed (kind : UInt8) {nested : Parse SchemaFields}
    (h : Yields nested KeyedFields) : Yields (entryValue kind nested) (·.Keyed) := by
  unfold entryValue
  split
  next =>
    refine Effect.Spec.bind h fun fields => .pure fun _ hfields => ?_
    exact .object hfields.nodup hfields.values
  next => exact scalar_keyed kind

theorem objectLoop_keyed (fuel depth : Nat) {result : SchemaFields} (h : KeyedFields result) :
    Yields (objectLoop fuel depth result) KeyedFields := by
  induction fuel generalizing depth result with
  | zero => exact .raise fun _ _ => trivial
  | succ fuel ih =>
    rw [objectLoop]
    refine (yields_true _).bind fun kind => ?_
    split
    next => exact .pure fun _ _ => h
    next =>
      refine (yields_true _).bind fun _ => (yields_true _).bind fun key => ?_
      refine .bind (entryValue_keyed kind ?_) fun value => ?_
      · exact (yields_true _).bind fun _ => ih (depth + 1) .nil
      · -- the value is known to be keyed, whatever the cursor
        intro p hvalue
        exact ih depth (h.insert key hvalue) p trivial

theorem parse_keyed {bytes : Bytes} {root : SchemaFields}
    (h : parseAchievementSchemaRoot bytes = .ok root) : KeyedFields root := by
  have hspec : Yields (rootObject (bytes.length + 1)) KeyedFields := by
    refine (yields_true _).bind fun kind => ?_
    split
    next => exact .raise fun _ _ => trivial
    next =>
      exact (yields_true _).bind fun _ => (yields_true _).bind fun _ => objectLoop_keyed _ 0 .nil
  exact hspec (.new bytes) trivial (.ok root) _ (Prod.ext h rfl)

theorem schemaStats_keyed {root : SchemaFields} (hroot : KeyedFields root)
    (h : schemaStats root = .ok stats) : KeyedFields stats := by
  unfold schemaStats at h
  split at h
  next found hfound =>
    cases h
    obtain ⟨value, hvalue, hobject⟩ := Option.bind_eq_some_iff.mp hfound
    exact Keyed.object? (hroot.getField hvalue) hobject
  next => cases h

theorem statBits_keyed {stat : AchievementSchemaValue} {bits : SchemaFields} (hstat : stat.Keyed)
    (h : statBits stat = some bits) : KeyedFields bits := by
  obtain ⟨value, hvalue, hobject⟩ := Option.bind_eq_some_iff.mp h
  obtain ⟨fields, hfields, hget⟩ := Option.bind_eq_some_iff.mp hvalue
  exact Keyed.object? ((Keyed.object? hstat hfields).getField hget) hobject

/-! ## What a schema declares -/

/-- The section `stats` of a schema. -/
def schemaStatsOf (bytes : Bytes) : Except Stop SchemaFields := do
  let root ← parseAchievementSchemaRoot bytes
  schemaStats root

def DeclaresAchievement (stats : SchemaFields) (mapping : AchievementBitMapping) : Prop :=
  ∃ field ∈ stats, parseU32 field.1 = some mapping.statId ∧
    ∃ bits, statBits field.2 = some bits ∧
      ∃ bit ∈ bits, bitMapping mapping.statId bit = some mapping

def DeclaresStat (stats : SchemaFields) (mapping : StatMapping) : Prop :=
  ∃ field ∈ stats, statMapping field = some mapping

/-- No two keys of a section denote the same number. -/
def DistinctNumbers (fields : SchemaFields) : Prop :=
  ∀ a ∈ fields, ∀ b ∈ fields, ∀ n, parseU32 a.1 = some n → parseU32 b.1 = some n → a.1 = b.1

/-- No two textual keys denote the same stat id or, in one stat, the same bit. -/
structure Unambiguous (stats : SchemaFields) : Prop where
  statIds : DistinctNumbers stats
  bits : ∀ field ∈ stats, ∀ bits, statBits field.2 = some bits → DistinctNumbers bits

theorem schemaStatsOf_keyed {bytes : Bytes} (h : schemaStatsOf bytes = .ok stats) :
    KeyedFields stats := by
  unfold schemaStatsOf at h
  cases hroot : parseAchievementSchemaRoot bytes with
  | ok root =>
    rw [hroot] at h
    exact schemaStats_keyed (parse_keyed hroot) h
  | error stop =>
    rw [hroot] at h
    cases h

theorem bitMapping_eq_some {statId : Nat} (h : bitMapping statId field = some mapping) :
    mapping.statId = statId ∧ parseU32 field.1 = some mapping.achievementBit := by
  obtain ⟨bit, hbit, hname⟩ := Option.bind_eq_some_iff.mp h
  obtain ⟨key, _, rfl⟩ := Option.map_eq_some_iff.mp hname
  exact ⟨rfl, hbit⟩

theorem statMapping_eq_some {mapping : StatMapping} (h : statMapping field = some mapping) :
    parseU32 field.1 = some mapping.statId ∧
      ∃ stat, field.2.object? = some stat ∧ getField stat "bits" = none := by
  obtain ⟨statId, hstatId, hrest⟩ := Option.bind_eq_some_iff.mp h
  obtain ⟨stat, hstat, hname⟩ := Option.bind_eq_some_iff.mp hrest
  split at hname
  next => cases hname
  next hbits =>
    obtain ⟨key, _, rfl⟩ := Option.map_eq_some_iff.mp hname
    exact ⟨hstatId, stat, hstat, Option.not_isSome_iff_eq_none.mp hbits⟩

/-! ## Members -/

/-- The mappings before they are sorted. -/
def achievementMappings (O : SchemaOrder) (stats : SchemaFields) : List AchievementBitMapping :=
  (O.stats.arrange stats).flatMap (statBitMappings O)

def statMappings (O : SchemaOrder) (stats : SchemaFields) : List StatMapping :=
  (O.plain.arrange stats).filterMap statMapping

theorem mem_statBitMappings :
    mapping ∈ statBitMappings O field ↔ parseU32 field.1 = some mapping.statId ∧
      ∃ bits, statBits field.2 = some bits ∧
        ∃ bit ∈ bits, bitMapping mapping.statId bit = some mapping := by
  unfold statBitMappings
  split
  next statId bits hstatId hbits =>
    simp only [List.mem_filterMap, Arrangement.mem_arrange]
    constructor
    · rintro ⟨bit, hmem, hmapping⟩
      obtain ⟨rfl, _⟩ := bitMapping_eq_some hmapping
      exact ⟨hstatId, bits, hbits, bit, hmem, hmapping⟩
    · rintro ⟨hstatId', bits', hbits', bit, hmem, hmapping⟩
      cases hstatId.symm.trans hstatId'
      cases hbits.symm.trans hbits'
      exact ⟨bit, hmem, hmapping⟩
  next hnone =>
    constructor
    · exact fun hmem => absurd hmem List.not_mem_nil
    · rintro ⟨hstatId, bits, hbits, _⟩
      exact (hnone _ _ hstatId hbits).elim

theorem mem_achievementMappings :
    mapping ∈ achievementMappings O stats ↔ DeclaresAchievement stats mapping := by
  unfold achievementMappings DeclaresAchievement
  simp only [List.mem_flatMap, Arrangement.mem_arrange, mem_statBitMappings]

theorem mem_statMappings {mapping : StatMapping} :
    mapping ∈ statMappings O stats ↔ DeclaresStat stats mapping := by
  unfold statMappings DeclaresStat
  simp only [List.mem_filterMap, Arrangement.mem_arrange]

/-! ## Distinct sort keys -/

/-- Two fields of a section that is unambiguous denote different numbers. -/
theorem pairwise_numbers (hkeyed : KeyedFields fields) (hdistinct : DistinctNumbers fields)
    (order : Arrangement (String × AchievementSchemaValue)) :
    (order.arrange fields).Pairwise fun a b =>
      ∀ n, parseU32 a.1 = some n → parseU32 b.1 ≠ some n := by
  have hnodup : ((order.arrange fields).map Prod.fst).Nodup :=
    ((order.perm fields).map Prod.fst).nodup_iff.mpr hkeyed.nodup
  refine (List.pairwise_map.mp hnodup).imp_of_mem ?_
  intro a b ha hb hne n hn hn'
  exact hne (hdistinct a (order.mem_arrange.mp ha) b (order.mem_arrange.mp hb) n hn hn')

theorem nodup_achievementMappings (hkeyed : KeyedFields stats) (h : Unambiguous stats)
    (O : SchemaOrder) : ((achievementMappings O stats).map (·.order)).Nodup := by
  rw [List.Nodup, List.pairwise_map, achievementMappings, List.pairwise_flatMap]
  refine ⟨?_, ?_⟩
  · -- within one stat the bits differ
    intro field hfield
    have hmem := O.stats.mem_arrange.mp hfield
    unfold statBitMappings
    split
    next statId bits hstatId hbits =>
      rw [List.pairwise_filterMap]
      refine (pairwise_numbers (statBits_keyed (hkeyed.values field hmem) hbits)
        (h.bits field hmem bits hbits) (O.bits field.1)).imp ?_
      intro a b hne m hm m' hm' heq
      have hbit : m.achievementBit = m'.achievementBit :=
        congrArg (fun o : ℕ ×ₗ ℕ => (ofLex o).2) heq
      exact hne m.achievementBit (bitMapping_eq_some hm).2
        (hbit ▸ (bitMapping_eq_some hm').2)
    next => exact .nil
  · -- between two stats the ids differ
    refine (pairwise_numbers hkeyed h.statIds O.stats).imp ?_
    intro a b hne m hm m' hm' heq
    have hstat : m.statId = m'.statId := congrArg (fun o : ℕ ×ₗ ℕ => (ofLex o).1) heq
    exact hne m.statId (mem_statBitMappings.mp hm).1 (hstat ▸ (mem_statBitMappings.mp hm').1)

theorem nodup_statMappings (hkeyed : KeyedFields stats) (h : Unambiguous stats) (O : SchemaOrder) :
    ((statMappings O stats).map (·.statId)).Nodup := by
  rw [List.Nodup, List.pairwise_map, statMappings, List.pairwise_filterMap]
  refine (pairwise_numbers hkeyed h.statIds O.plain).imp ?_
  intro a b hne m hm m' hm' heq
  exact hne m.statId (statMapping_eq_some hm).1 (heq ▸ (statMapping_eq_some hm').1)

/-! ## The order of iteration does not matter -/

/-- Both parsers read the stats and then go through them. -/
theorem bind_schemaStats {β : Type} (f : SchemaFields → β) (bytes : Bytes) :
    (do
      let root ← parseAchievementSchemaRoot bytes
      let stats ← schemaStats root
      return f stats) = (schemaStatsOf bytes).map f := by
  unfold schemaStatsOf
  cases parseAchievementSchemaRoot bytes with
  | error stop => rfl
  | ok root =>
    show (schemaStats root >>= fun stats => _) = (schemaStats root).map _
    cases schemaStats root with
    | error stop => rfl
    | ok stats => rfl

theorem parseAchievementBitMappings_eq (O : SchemaOrder) (bytes : Bytes) :
    parseAchievementBitMappings O bytes = (schemaStatsOf bytes).map fun stats =>
      (achievementMappings O stats).insertionSort fun a b => a.order ≤ b.order :=
  bind_schemaStats _ bytes

theorem parseStatMappings_eq (O : SchemaOrder) (bytes : Bytes) :
    parseStatMappings O bytes = (schemaStatsOf bytes).map fun stats =>
      (statMappings O stats).insertionSort fun a b => a.statId ≤ b.statId :=
  bind_schemaStats _ bytes

section Order

variable {bytes : Bytes} (h : ∀ stats, schemaStatsOf bytes = .ok stats → Unambiguous stats)

include h

theorem parseAchievementBitMappings_order (O O' : SchemaOrder) :
    parseAchievementBitMappings O bytes = parseAchievementBitMappings O' bytes := by
  rw [parseAchievementBitMappings_eq, parseAchievementBitMappings_eq]
  cases hstats : schemaStatsOf bytes with
  | error stop => rfl
  | ok stats =>
    have hnodup := nodup_achievementMappings (schemaStatsOf_keyed hstats) (h stats hstats)
    exact congrArg Except.ok (insertionSort_eq_of_mem (hnodup O) (hnodup O') fun _ =>
      mem_achievementMappings.trans mem_achievementMappings.symm)

theorem parseStatMappings_order (O O' : SchemaOrder) :
    parseStatMappings O bytes = parseStatMappings O' bytes := by
  rw [parseStatMappings_eq, parseStatMappings_eq]
  cases hstats : schemaStatsOf bytes with
  | error stop => rfl
  | ok stats =>
    have hnodup := nodup_statMappings (schemaStatsOf_keyed hstats) (h stats hstats)
    exact congrArg Except.ok (insertionSort_eq_of_mem (hnodup O) (hnodup O') fun _ =>
      mem_statMappings.trans mem_statMappings.symm)

end Order

end VaporForge.SteamProtocol
