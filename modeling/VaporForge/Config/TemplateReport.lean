import VaporForge.Config.TemplateMerge

/-!
# What the report says was added

> `added_fields` of the dry run lists, without repetition, exactly the template's leaf paths
> (arrays of tables counted as one leaf) that are present in the merged document and absent
> from the user's document

The report is made by a recursion of its own, before the merge. It lists the leaves of the
template that the user does not keep (`Kept`), where a leaf is kept only if the user reaches it
through tables and, for an array of tables, has an array of tables there. The merge takes the
user's item whatever it is. So the two agree unless the user has something other than a table
above a leaf, or something other than an array of tables where the template has one
(`Mismatch`), and unless two leaves are written alike: a path is written with dots between keys
that may contain dots.
-/

namespace VaporForge.Config

open Lib

/-! ## Leaves -/

/-- A path of keys to something that is not a table. -/
@[ext]
structure Leaf where
  keys : List String
  /-- It is an array of tables. -/
  array : Bool
  deriving DecidableEq, Repr

def Leaf.under (key : String) (leaf : Leaf) : Leaf := ⟨key :: leaf.keys, leaf.array⟩

def Leaf.path (leaf : Leaf) : List PathStep := leaf.keys.map .key

/-- How the report writes a leaf. -/
def Leaf.text (front : String) (leaf : Leaf) : String :=
  let path := leaf.keys.foldl joinPath front
  if leaf.array then path ++ "[]" else path

section Leaves

variable {V : Type}

mutual

/-- The leaves that `collect_value_paths` writes. -/
def valueLeaves : Entries V → List Leaf
  | [] => []
  | e :: table => entryLeaves e ++ valueLeaves table

def entryLeaves : String × Item V → List Leaf
  | (key, item) => (itemLeaves item).map (Leaf.under key)

def itemLeaves : Item V → List Leaf
  | .table _ child => valueLeaves child
  | .arrayOfTables array => if array.isEmpty then [] else [⟨[], true⟩]
  | _ => [⟨[], false⟩]

end

mutual

/-- The leaves that `collect_missing_fields` writes. -/
def missingLeaves : Entries V → Entries V → List Leaf
  | [], _ => []
  | e :: template, user => missingEntryLeaves e (entry user e.1) ++ missingLeaves template user

def missingEntryLeaves : String × Item V → Option (Item V) → List Leaf
  | (key, template), user => (missingItemLeaves template user).map (Leaf.under key)

def missingItemLeaves : Item V → Option (Item V) → List Leaf
  | .table _ template, some (.table _ user) => missingLeaves template user
  | .table _ template, _ => valueLeaves template
  | .arrayOfTables _, some (.arrayOfTables _) => []
  | .arrayOfTables array, _ => if array.isEmpty then [] else [⟨[], true⟩]
  | _, none => [⟨[], false⟩]
  | _, some _ => []

end

mutual

theorem collectValuePaths_eq : ∀ (table : Entries V) (front : String),
    collectValuePaths table front = (valueLeaves table).map (Leaf.text front)
  | [], front => by rw [collectValuePaths, valueLeaves, List.map_nil]
  | e :: table, front => by
    rw [collectValuePaths, valueLeaves, List.map_append, entryPaths_eq e, collectValuePaths_eq table]

theorem entryPaths_eq : ∀ (e : String × Item V) (front : String),
    entryPaths e front = (entryLeaves e).map (Leaf.text front)
  | (key, item), front => by
    rw [entryPaths, entryLeaves, itemPaths_eq item, List.map_map]
    rfl

theorem itemPaths_eq : ∀ (item : Item V) (path : String),
    itemPaths item path = (itemLeaves item).map (Leaf.text path)
  | .table _ child, path => by rw [itemPaths, itemLeaves, collectValuePaths_eq child]
  | .arrayOfTables array, path => by
    rw [itemPaths, itemLeaves]
    split <;> rfl
  | .value _, path => by
    rw [itemPaths, itemLeaves]
    · rfl
    all_goals simp
  | .inlineTable _, path => by
    rw [itemPaths, itemLeaves]
    · rfl
    all_goals simp

end

mutual

/-- The report writes the missing leaves. -/
theorem collectMissingFields_eq : ∀ (template user : Entries V) (front : String),
    collectMissingFields template user front =
      (missingLeaves template user).map (Leaf.text front)
  | [], user, front => by rw [collectMissingFields, missingLeaves, List.map_nil]
  | e :: template, user, front => by
    rw [collectMissingFields, missingLeaves, List.map_append, missingInEntry_eq e,
      collectMissingFields_eq template]

theorem missingInEntry_eq : ∀ (e : String × Item V) (user : Option (Item V)) (front : String),
    missingInEntry e user front = (missingEntryLeaves e user).map (Leaf.text front)
  | (key, item), user, front => by
    rw [missingInEntry, missingEntryLeaves, missingInItem_eq item, List.map_map]
    rfl

theorem missingInItem_eq : ∀ (template : Item V) (user : Option (Item V)) (path : String),
    missingInItem template user path = (missingItemLeaves template user).map (Leaf.text path)
  | .table implicit template, user, path => by
    by_cases htable : ∃ implicit' entries, user = some (.table implicit' entries)
    · obtain ⟨implicit', entries, rfl⟩ := htable
      rw [missingInItem, missingItemLeaves, collectMissingFields_eq template]
    · have hnot : ∀ implicit' entries, user = some (.table implicit' entries) → False :=
        fun implicit' entries h => htable ⟨implicit', entries, h⟩
      rw [missingInItem, missingItemLeaves, collectValuePaths_eq] <;> exact hnot
  | .arrayOfTables array, user, path => by
    by_cases harray : ∃ tables, user = some (.arrayOfTables tables)
    · obtain ⟨tables, rfl⟩ := harray
      rw [missingInItem, missingItemLeaves, List.map_nil]
    · have hnot : ∀ tables, user = some (.arrayOfTables tables) → False :=
        fun tables h => harray ⟨tables, h⟩
      rw [missingInItem, missingItemLeaves]
      · split <;> rfl
      all_goals exact hnot
  | .value v, user, path => by cases user <;> rfl
  | .inlineTable entries, user, path => by cases user <;> rfl

end

/-! ## Which leaves a document has -/

/-- The path leads through tables to an item that is not a table. -/
def ItemLeaf (item : Item V) (leaf : Leaf) : Prop :=
  (∃ node, item.lookup leaf.path = some node ∧ node ≠ .table ∧
    (leaf.array = true ↔ node = .arrayOfTables)) ∧
  ∀ front, front <+: leaf.path → front ≠ leaf.path → item.lookup front = some .table

variable {leaf : Leaf} {key : String} {item template : Item V} {user : Option (Item V)}

variable {implicit array : Bool}

/-- Below a table. -/
theorem itemLeaf_under {entries : Entries V} :
    ItemLeaf (.table implicit entries) (leaf.under key) ↔
      ∃ item, entry entries key = some item ∧ ItemLeaf item leaf := by
  have hpath : (leaf.under key).path = .key key :: leaf.path := rfl
  unfold ItemLeaf
  rw [hpath, lookup_table_key]
  constructor
  · rintro ⟨⟨node, hnode, hleaf⟩, hfronts⟩
    obtain ⟨item, hitem, hnode⟩ := Option.bind_eq_some_iff.mp hnode
    refine ⟨item, hitem, ⟨node, hnode, hleaf⟩, fun front hfront hne => ?_⟩
    have htable := hfronts (.key key :: front) (List.cons_prefix_cons.mpr ⟨rfl, hfront⟩)
      (fun heq => hne (List.cons.inj heq).2)
    rwa [lookup_table_key, hitem, Option.bind_some] at htable
  · rintro ⟨item, hitem, ⟨node, hnode, hleaf⟩, hfronts⟩
    refine ⟨⟨node, by rw [hitem]; exact hnode, hleaf⟩, fun front hfront hne => ?_⟩
    cases front with
    | nil => exact lookup_nil _
    | cons step front =>
      obtain ⟨hstep, htail⟩ := List.cons_prefix_cons.mp hfront
      subst hstep
      rw [lookup_table_key, hitem]
      exact hfronts front htail fun heq => hne (heq ▸ rfl)

theorem itemLeaf_nil :
    ItemLeaf item ⟨[], array⟩ ↔
      item.node ≠ .table ∧ (array = true ↔ item.node = .arrayOfTables) := by
  unfold ItemLeaf
  have hpath : (Leaf.mk [] array).path = [] := rfl
  rw [hpath, lookup_nil]
  constructor
  · rintro ⟨⟨node, hnode, hleaf⟩, _⟩
    rw [Option.some.inj hnode]
    exact hleaf
  · intro h
    exact ⟨⟨item.node, rfl, h⟩, fun front hfront hne => absurd (List.prefix_nil.mp hfront) hne⟩

/-- Only a table has a leaf below it. -/
theorem not_itemLeaf_under (h : item.node ≠ .table) (key : String) (leaf : Leaf) :
    ¬ ItemLeaf item (leaf.under key) := by
  intro hleaf
  have hroot := hleaf.2 [] List.nil_prefix (List.cons_ne_nil _ _).symm
  rw [lookup_nil] at hroot
  exact h (Option.some.inj hroot)

/-! ## The loops over entries -/

/-- The leaves of each entry, below its key. -/
def gather (leaves : String → Item V → List Leaf) (entries : Entries V) : List Leaf :=
  entries.flatMap fun e => (leaves e.1 e.2).map (Leaf.under e.1)

theorem valueLeaves_eq (table : Entries V) :
    valueLeaves table = gather (fun _ item => itemLeaves item) table := by
  induction table with
  | nil => rw [valueLeaves]; rfl
  | cons e table ih =>
    rw [valueLeaves, ih]
    cases e with
    | mk key item => rw [entryLeaves]; rfl

theorem missingLeaves_eq (template user : Entries V) :
    missingLeaves template user =
      gather (fun key item => missingItemLeaves item (entry user key)) template := by
  induction template with
  | nil => rw [missingLeaves]; rfl
  | cons e template ih =>
    rw [missingLeaves, ih]
    cases e with
    | mk key item => rw [missingEntryLeaves]; rfl

section Gather

variable {leaves : String → Item V → List Leaf} {entries : Entries V}

theorem under_inj {key' : String} {leaf' : Leaf} :
    leaf.under key = leaf'.under key' ↔ key = key' ∧ leaf = leaf' := by
  unfold Leaf.under
  rw [Leaf.mk.injEq, List.cons.injEq, Leaf.ext_iff, and_assoc]

theorem mem_gather (hkeys : (entries.map Prod.fst).Nodup) :
    leaf.under key ∈ gather leaves entries ↔
      ∃ item, entry entries key = some item ∧ leaf ∈ leaves key item := by
  unfold gather
  rw [List.mem_flatMap]
  constructor
  · rintro ⟨e, he, hleaf⟩
    obtain ⟨leaf', hleaf', heq⟩ := List.mem_map.mp hleaf
    obtain ⟨rfl, rfl⟩ := under_inj.mp heq
    exact ⟨e.2, entry_of_mem hkeys he, hleaf'⟩
  · rintro ⟨item, hitem, hleaf⟩
    exact ⟨(key, item), mem_of_entry hitem, List.mem_map_of_mem hleaf⟩

theorem nil_notMem_gather (array : Bool) : ⟨[], array⟩ ∉ gather leaves entries := by
  intro h
  obtain ⟨e, _, hleaf⟩ := List.mem_flatMap.mp h
  obtain ⟨leaf, _, heq⟩ := List.mem_map.mp hleaf
  cases heq

theorem nodup_gather (hkeys : (entries.map Prod.fst).Nodup)
    (h : ∀ e ∈ entries, (leaves e.1 e.2).Nodup) : (gather leaves entries).Nodup := by
  unfold gather
  rw [List.nodup_flatMap]
  refine ⟨fun e he => (h e he).map fun a b hab => (under_inj.mp hab).2, ?_⟩
  refine (List.pairwise_map.mp hkeys).imp fun {e e'} hne leaf hleaf hleaf' => ?_
  obtain ⟨a, _, ha⟩ := List.mem_map.mp hleaf
  obtain ⟨b, _, hb⟩ := List.mem_map.mp hleaf'
  exact hne (under_inj.mp (ha.trans hb.symm)).1

end Gather

/-! ## Membership -/

theorem itemLeaves_table (implicit : Bool) (entries : Entries V) :
    itemLeaves (.table implicit entries) = gather (fun _ item => itemLeaves item) entries := by
  rw [itemLeaves, valueLeaves_eq]

def isArray : Item V → Bool
  | .arrayOfTables _ => true
  | _ => false

theorem isArray_iff : isArray item = true ↔ item.node = .arrayOfTables := by
  cases item <;> simp [isArray, Item.node]

/-- An item that is not a table is one leaf. -/
theorem itemLeaves_of_not_table (h : item.WellFormed) (hnot : item.node ≠ .table) :
    itemLeaves item = [⟨[], isArray item⟩] := by
  cases h with
  | value v => rfl
  | inlineTable _ _ => rfl
  | table _ _ => exact absurd rfl hnot
  | @arrayOfTables tables nonempty _ _ =>
    rw [itemLeaves, if_neg (by rwa [List.isEmpty_iff])]
    rfl

theorem mem_itemLeaves (h : item.WellFormed) : leaf ∈ itemLeaves item ↔ ItemLeaf item leaf := by
  obtain ⟨keys, array⟩ := leaf
  induction keys generalizing item with
  | nil =>
    rw [itemLeaf_nil]
    by_cases htable : item.node = .table
    · obtain ⟨implicit, entries, rfl⟩ := node_eq_table_iff.mp htable
      rw [itemLeaves_table]
      exact ⟨fun hmem => absurd hmem (nil_notMem_gather array), fun hleaf => absurd htable hleaf.1⟩
    · rw [itemLeaves_of_not_table h htable, List.mem_singleton, Leaf.mk.injEq,
        Bool.eq_iff_iff, isArray_iff]
      exact ⟨fun hleaf => ⟨htable, hleaf.2⟩, fun hleaf => ⟨rfl, hleaf.2⟩⟩
  | cons key keys ih =>
    show Leaf.under key ⟨keys, array⟩ ∈ _ ↔ ItemLeaf item (Leaf.under key ⟨keys, array⟩)
    by_cases htable : item.node = .table
    · obtain ⟨implicit, entries, rfl⟩ := node_eq_table_iff.mp htable
      rw [itemLeaves_table, mem_gather h.entries.keys, itemLeaf_under]
      constructor
      · rintro ⟨item, hitem, hmem⟩
        exact ⟨item, hitem, (ih (h.entries.item hitem)).mp hmem⟩
      · rintro ⟨item, hitem, hleaf⟩
        exact ⟨item, hitem, (ih (h.entries.item hitem)).mpr hleaf⟩
    · rw [itemLeaves_of_not_table h htable, List.mem_singleton]
      exact ⟨fun heq => (nomatch heq), fun hleaf => absurd hleaf (not_itemLeaf_under htable _ _)⟩

/-- The user reaches the leaf through tables and, if it is an array of tables, has one there. -/
def KeptItem (user : Option (Item V)) (leaf : Leaf) : Prop :=
  (∃ node, (user.bind fun u => u.lookup leaf.path) = some node ∧
    (leaf.array = true → node = .arrayOfTables)) ∧
  ∀ front, front <+: leaf.path → front ≠ leaf.path →
    (user.bind fun u => u.lookup front) = some .table

theorem keptItem_under {user : Entries V} :
    KeptItem (some (.table implicit user)) (leaf.under key) ↔ KeptItem (entry user key) leaf := by
  have hpath : (leaf.under key).path = .key key :: leaf.path := rfl
  unfold KeptItem
  rw [hpath, Option.bind_some, lookup_table_key]
  refine and_congr_right fun _ => ⟨fun h front hfront hne => ?_, fun h front hfront hne => ?_⟩
  · have htable := h (.key key :: front) (List.cons_prefix_cons.mpr ⟨rfl, hfront⟩)
      (fun heq => hne (List.cons.inj heq).2)
    rwa [Option.bind_some, lookup_table_key] at htable
  · cases front with
    | nil => exact lookup_nil _
    | cons step front =>
      obtain ⟨hstep, htail⟩ := List.cons_prefix_cons.mp hfront
      subst hstep
      rw [Option.bind_some, lookup_table_key]
      exact h front htail fun heq => hne (heq ▸ rfl)

theorem keptItem_nil :
    KeptItem user ⟨[], array⟩ ↔
      ∃ u, user = some u ∧ (array = true → u.node = .arrayOfTables) := by
  unfold KeptItem
  have hpath : (Leaf.mk [] array).path = [] := rfl
  rw [hpath]
  constructor
  · rintro ⟨⟨node, hnode, harray⟩, _⟩
    obtain ⟨u, hu, hnode⟩ := Option.bind_eq_some_iff.mp hnode
    rw [lookup_nil] at hnode
    exact ⟨u, hu, Option.some.inj hnode ▸ harray⟩
  · rintro ⟨u, rfl, harray⟩
    exact ⟨⟨u.node, lookup_nil u, harray⟩,
      fun front hfront hne => absurd (List.prefix_nil.mp hfront) hne⟩

/-- Only below a table is anything kept. -/
theorem not_keptItem_under (h : user.map Item.node ≠ some .table) (key : String) (leaf : Leaf) :
    ¬ KeptItem user (leaf.under key) := by
  intro hkept
  have hroot := hkept.2 [] List.nil_prefix (List.cons_ne_nil _ _).symm
  obtain ⟨u, hu, hnode⟩ := Option.bind_eq_some_iff.mp hroot
  rw [lookup_nil] at hnode
  exact h (by rw [hu, Option.map_some, hnode])

theorem missingItemLeaves_tables (implicit implicit' : Bool) (template user : Entries V) :
    missingItemLeaves (.table implicit template) (some (.table implicit' user)) =
      gather (fun key item => missingItemLeaves item (entry user key)) template := by
  rw [missingItemLeaves, missingLeaves_eq]

theorem missingItemLeaves_of_not_table (h : user.map Item.node ≠ some .table) (implicit : Bool)
    (template : Entries V) :
    missingItemLeaves (.table implicit template) user = itemLeaves (.table implicit template) := by
  rw [missingItemLeaves, itemLeaves]
  intro implicit' entries huser
  rw [huser] at h
  exact h rfl

/-- An item that is not a table is missing unless the user keeps it. -/
theorem missingItemLeaves_leaf (h : template.WellFormed) (hnot : template.node ≠ .table)
    (user : Option (Item V)) :
    (KeptItem user ⟨[], isArray template⟩ ∧ missingItemLeaves template user = []) ∨
      (¬ KeptItem user ⟨[], isArray template⟩ ∧
        missingItemLeaves template user = [⟨[], isArray template⟩]) := by
  rw [keptItem_nil]
  cases h with
  | table _ _ => exact absurd rfl hnot
  | value v =>
    cases user with
    | none => exact .inr ⟨fun ⟨_, h, _⟩ => (nomatch h), rfl⟩
    | some u => exact .inl ⟨⟨u, rfl, fun h => nomatch h⟩, rfl⟩
  | inlineTable _ _ =>
    cases user with
    | none => exact .inr ⟨fun ⟨_, h, _⟩ => (nomatch h), rfl⟩
    | some u => exact .inl ⟨⟨u, rfl, fun h => nomatch h⟩, rfl⟩
  | @arrayOfTables tables nonempty _ _ =>
    by_cases harray : ∃ tables', user = some (.arrayOfTables tables')
    · obtain ⟨tables', rfl⟩ := harray
      exact .inl ⟨⟨_, rfl, fun _ => rfl⟩, rfl⟩
    · right
      constructor
      · rintro ⟨u, rfl, hu⟩
        have hnode := isArray_iff.mpr (hu rfl)
        cases u with
        | arrayOfTables tables' => exact harray ⟨tables', rfl⟩
        | _ => cases hnode
      · rw [missingItemLeaves, if_neg (by rwa [List.isEmpty_iff])]
        · rfl
        · exact fun tables' h => harray ⟨tables', h⟩

theorem mem_missingItemLeaves_leaf (h : template.WellFormed) (hnot : template.node ≠ .table) :
    leaf ∈ missingItemLeaves template user ↔ ItemLeaf template leaf ∧ ¬ KeptItem user leaf := by
  rw [← mem_itemLeaves h, itemLeaves_of_not_table h hnot, List.mem_singleton]
  rcases missingItemLeaves_leaf h hnot user with ⟨hkept, hmissing⟩ | ⟨hkept, hmissing⟩
  · rw [hmissing]
    exact ⟨fun hmem => absurd hmem List.not_mem_nil, fun hleaf => absurd (hleaf.1 ▸ hkept) hleaf.2⟩
  · rw [hmissing, List.mem_singleton]
    exact ⟨fun heq => ⟨heq, heq ▸ hkept⟩, fun hleaf => hleaf.1⟩

/-- What the report lists: the leaves that the user does not keep. -/
theorem mem_missingItemLeaves (h : template.WellFormed) :
    leaf ∈ missingItemLeaves template user ↔ ItemLeaf template leaf ∧ ¬ KeptItem user leaf := by
  obtain ⟨keys, array⟩ := leaf
  induction keys generalizing template user with
  | nil =>
    by_cases htable : template.node = .table
    · have hnone : ⟨[], array⟩ ∉ missingItemLeaves template user := by
        obtain ⟨implicit, entries, rfl⟩ := node_eq_table_iff.mp htable
        by_cases huser : user.map Item.node = some .table
        · obtain ⟨u, rfl, hu⟩ := Option.map_eq_some_iff.mp huser
          obtain ⟨implicit', entries', rfl⟩ := node_eq_table_iff.mp hu
          rw [missingItemLeaves_tables]
          exact nil_notMem_gather array
        · rw [missingItemLeaves_of_not_table huser, itemLeaves_table]
          exact nil_notMem_gather array
      exact ⟨fun hmem => absurd hmem hnone, fun hleaf => absurd htable (itemLeaf_nil.mp hleaf.1).1⟩
    · exact mem_missingItemLeaves_leaf h htable
  | cons key keys ih =>
    by_cases htable : template.node = .table
    · obtain ⟨implicit, entries, rfl⟩ := node_eq_table_iff.mp htable
      show Leaf.under key ⟨keys, array⟩ ∈ _ ↔
        ItemLeaf _ (Leaf.under key ⟨keys, array⟩) ∧ ¬ KeptItem user (Leaf.under key ⟨keys, array⟩)
      by_cases huser : user.map Item.node = some .table
      · -- the recursion goes down on both sides
        obtain ⟨u, rfl, hu⟩ := Option.map_eq_some_iff.mp huser
        obtain ⟨implicit', entries', rfl⟩ := node_eq_table_iff.mp hu
        rw [missingItemLeaves_tables, mem_gather h.entries.keys, itemLeaf_under, keptItem_under]
        constructor
        · rintro ⟨item, hitem, hmem⟩
          obtain ⟨hleaf, hkept⟩ := (ih (h.entries.item hitem)).mp hmem
          exact ⟨⟨item, hitem, hleaf⟩, hkept⟩
        · rintro ⟨⟨item, hitem, hleaf⟩, hkept⟩
          exact ⟨item, hitem, (ih (h.entries.item hitem)).mpr ⟨hleaf, hkept⟩⟩
      · rw [missingItemLeaves_of_not_table huser, mem_itemLeaves h]
        exact ⟨fun hleaf => ⟨hleaf, not_keptItem_under huser _ _⟩, fun hleaf => hleaf.1⟩
    · exact mem_missingItemLeaves_leaf h htable

theorem nodup_itemLeaves (h : item.WellFormed) : (itemLeaves item).Nodup := by
  induction h with
  | table keys items ih =>
    rw [itemLeaves_table]
    exact nodup_gather keys ih
  | value v => exact List.nodup_singleton _
  | inlineTable _ _ => exact List.nodup_singleton _
  | arrayOfTables _ _ _ =>
    rw [itemLeaves]
    split
    · exact List.nodup_nil
    · exact List.nodup_singleton _

theorem nodup_missing_leaf (h : template.WellFormed) (hnot : template.node ≠ .table)
    (user : Option (Item V)) : (missingItemLeaves template user).Nodup := by
  rcases missingItemLeaves_leaf h hnot user with ⟨_, hmissing⟩ | ⟨_, hmissing⟩
  · rw [hmissing]
    exact List.nodup_nil
  · rw [hmissing]
    exact List.nodup_singleton _

theorem nodup_missingItemLeaves (h : template.WellFormed) (user : Option (Item V)) :
    (missingItemLeaves template user).Nodup := by
  induction h generalizing user with
  | @table implicit entries keys items ih =>
    by_cases huser : user.map Item.node = some .table
    · obtain ⟨u, rfl, hu⟩ := Option.map_eq_some_iff.mp huser
      obtain ⟨implicit', entries', rfl⟩ := node_eq_table_iff.mp hu
      rw [missingItemLeaves_tables]
      exact nodup_gather keys fun e he => ih e he _
    · rw [missingItemLeaves_of_not_table huser]
      exact nodup_itemLeaves (.table keys items)
  | value v => exact nodup_missing_leaf (.value v) (fun h => nomatch h) user
  | inlineTable keys items =>
    exact nodup_missing_leaf (.inlineTable keys items) (fun h => nomatch h) user
  | arrayOfTables nonempty keys items =>
    exact nodup_missing_leaf (.arrayOfTables nonempty keys items) (fun h => nomatch h) user

end Leaves

/-! ## Documents -/

section Report

variable {V : Type} {template user : Document V} {leaf : Leaf}

/-- The leaf is one of the document's. -/
def LeafOf (d : Document V) (leaf : Leaf) : Prop :=
  (∃ node, d.lookup leaf.path = some node ∧ node ≠ .table ∧
    (leaf.array = true ↔ node = .arrayOfTables)) ∧
  ∀ front, front <+: leaf.path → front ≠ leaf.path → d.lookup front = some .table

/-- A leaf of the template that is in the merged document and not in the user's. -/
structure Added (template user : Document V) (leaf : Leaf) : Prop where
  isLeaf : LeafOf template leaf
  merged : ((mergeDocuments template user).lookup leaf.path).isSome
  absent : user.lookup leaf.path = none

/-- The user has something other than a table above the leaf, or something other than an array
of tables where the leaf is one. -/
def Mismatch (user : Document V) (leaf : Leaf) : Prop :=
  (∃ front, front <+: leaf.path ∧ front ≠ leaf.path ∧
    ∃ node, user.lookup front = some node ∧ node ≠ .table) ∨
  (leaf.array = true ∧ ∃ node, user.lookup leaf.path = some node ∧ node ≠ .arrayOfTables)

/-- The user reaches the leaf as the report looks for it. -/
def Kept (user : Document V) (leaf : Leaf) : Prop :=
  (∃ node, user.lookup leaf.path = some node ∧ (leaf.array = true → node = .arrayOfTables)) ∧
  ∀ front, front <+: leaf.path → front ≠ leaf.path → user.lookup front = some .table

def reported (template user : Document V) : List Leaf :=
  missingLeaves template.entries user.entries

theorem reported_eq (template user : Document V) :
    reported template user = missingItemLeaves (.table false template.entries)
      (some (.table false user.entries)) := by
  rw [missingItemLeaves]
  rfl

theorem mem_reported :
    leaf ∈ reported template user ↔ LeafOf template leaf ∧ ¬ Kept user leaf := by
  rw [reported_eq]
  exact mem_missingItemLeaves (template.wellFormed.table false)

theorem nodup_reported (template user : Document V) : (reported template user).Nodup := by
  rw [reported_eq]
  exact nodup_missingItemLeaves (template.wellFormed.table false) _

/-- The report never leaves out what was added. -/
theorem Added.reported (h : Added template user leaf) : leaf ∈ reported template user := by
  rw [mem_reported]
  refine ⟨h.isLeaf, ?_⟩
  rintro ⟨⟨node, hnode, _⟩, _⟩
  rw [h.absent] at hnode
  cases hnode

/-- Without a mismatch the report lists only what was added. -/
theorem added_of_reported (hreported : leaf ∈ reported template user)
    (hmatch : ¬ Mismatch user leaf) : Added template user leaf := by
  obtain ⟨hleaf, hkept⟩ := mem_reported.mp hreported
  have habsent : user.lookup leaf.path = none := by
    by_contra hsome
    obtain ⟨node, hnode⟩ := Option.ne_none_iff_exists'.mp hsome
    refine hkept ⟨⟨node, hnode, fun harray => ?_⟩, fun front hfront hne => ?_⟩
    · by_contra hother
      exact hmatch (.inr ⟨harray, node, hnode, hother⟩)
    · have hfrontSome := isSome_lookup_of_prefix hfront (Option.isSome_of_eq_some hnode)
      obtain ⟨above, habove⟩ := Option.isSome_iff_exists.mp hfrontSome
      by_contra hother
      exact hmatch (.inl ⟨front, hfront, hne, above, habove, fun heq => hother (heq ▸ habove)⟩)
  refine ⟨hleaf, ?_, habsent⟩
  -- nothing of the user stands above the leaf, so the template's is merged
  have hover : ¬ Overridden template user leaf.path := by
    rintro ⟨front, hfront, node, hnode, hnot⟩
    by_cases hsame : front = leaf.path
    · rw [hsame, habsent] at hnode
      cases hnode
    · refine hmatch (.inl ⟨front, hfront, hsame, node, hnode, fun htable => ?_⟩)
      exact hnot ⟨htable, hleaf.2 front hfront hsame⟩
  obtain ⟨node, hnode, _⟩ := hleaf.1
  rw [lookup_of_not_overridden hover, hnode]
  rfl

/-- With a mismatch the report lists a leaf that was not added. -/
theorem mismatch_reported (hleaf : LeafOf template leaf) (hmismatch : Mismatch user leaf) :
    leaf ∈ reported template user ∧ ¬ Added template user leaf := by
  rw [mem_reported]
  rcases hmismatch with ⟨front, hfront, hne, node, hnode, hother⟩ | ⟨harray, node, hnode, hother⟩
  · refine ⟨⟨hleaf, fun hkept => ?_⟩, fun hadded => ?_⟩
    · have htable := hkept.2 front hfront hne
      rw [hnode] at htable
      exact hother (Option.some.inj htable)
    · have hover : Overridden template user leaf.path :=
        ⟨front, hfront, node, hnode, fun h => hother h.1⟩
      have hmerged := hadded.merged
      rw [lookup_of_overridden hover, hadded.absent] at hmerged
      cases hmerged
  · refine ⟨⟨hleaf, fun hkept => ?_⟩, fun hadded => ?_⟩
    · obtain ⟨⟨node', hnode', hkind⟩, _⟩ := hkept
      rw [hnode] at hnode'
      exact hother (Option.some.inj hnode' ▸ hkind harray)
    · rw [hadded.absent] at hnode
      cases hnode

/-- The fields are, without repetition, those of the added leaves. -/
def ReportExact (template user : Document V) (fields : List String) : Prop :=
  fields.Nodup ∧ ∀ field, field ∈ fields ↔ ∃ leaf, Added template user leaf ∧ leaf.text "" = field

theorem added_fields_eq (template user : Document V) :
    collectAddedTemplateFields template.entries user.entries =
      (reported template user).map (Leaf.text "") :=
  collectMissingFields_eq ..

end Report

/-- The report is exact if and only if no leaf of the template meets an item of another kind in
the user's document and no two added leaves are written alike. -/
theorem added_fields_exact_iff {V : Type} :
    (∀ template user : Document V,
      ReportExact template user (collectAddedTemplateFields template.entries user.entries) ↔
        (∀ leaf, LeafOf template leaf → ¬ Mismatch user leaf) ∧
        ∀ leaf leaf', Added template user leaf → Added template user leaf' →
          leaf.text "" = leaf'.text "" → leaf = leaf') ∧
    ∀ (toml : TomlLibrary V) (configTemplate text : Text),
      (syncDefaultTemplateDryRun toml configTemplate text).map TemplateSyncDryRun.addedFields =
        (toml.parse text).bind fun user =>
          (toml.parse (pruneCommentedSectionExamples configTemplate user.entries)).map
            fun template => collectAddedTemplateFields template.entries user.entries := by
  constructor
  · intro template user
    rw [added_fields_eq]
    constructor
    · rintro ⟨hnodup, hfields⟩
      have hinj := List.inj_on_of_nodup_map hnodup
      refine ⟨fun leaf hleaf hmismatch => ?_, fun leaf leaf' h h' => hinj h.reported h'.reported⟩
      obtain ⟨hreported, hnot⟩ := mismatch_reported hleaf hmismatch
      obtain ⟨leaf', hadded, htext⟩ := (hfields _).mp (List.mem_map_of_mem hreported)
      -- the leaf that stands in for it is listed as well
      have hsame := hinj hadded.reported hreported htext
      exact hnot (hsame ▸ hadded)
    · rintro ⟨hmatch, htexts⟩
      have hadded : ∀ leaf ∈ reported template user, Added template user leaf := by
        intro leaf hleaf
        exact added_of_reported hleaf (hmatch leaf (mem_reported.mp hleaf).1)
      refine ⟨(nodup_reported template user).map_on fun a ha b hb htext => ?_, fun field => ?_⟩
      · exact htexts a b (hadded a ha) (hadded b hb) htext
      · rw [List.mem_map]
        exact ⟨fun ⟨leaf, hleaf, htext⟩ => ⟨leaf, hadded leaf hleaf, htext⟩,
          fun ⟨leaf, hleaf, htext⟩ => ⟨leaf, hleaf.reported, htext⟩⟩
  · intro toml configTemplate text
    unfold syncDefaultTemplateDryRun
    cases toml.parse text with
    | none => rfl
    | some user =>
      rw [Option.bind_eq_bind, Option.bind_some, Option.bind_some]
      dsimp only
      cases toml.parse (pruneCommentedSectionExamples configTemplate user.entries) <;> rfl

/-! ## A table that the user writes inline -/

def debugTemplate : Document Bool where
  entries := [("debug", .table false [("control_api", .value false)])]
  wellFormed := by
    refine ⟨by decide, ?_⟩
    intro e he
    rw [List.mem_singleton.mp he]
    refine .table (by decide) fun e he => ?_
    rw [List.mem_singleton.mp he]
    exact .value false

/-- `debug = \x7b control_api = true \x7d`. -/
def inlineDebug : Document Bool where
  entries := [("debug", .inlineTable [("control_api", .value true)])]
  wellFormed := by
    refine ⟨by decide, ?_⟩
    intro e he
    rw [List.mem_singleton.mp he]
    refine .inlineTable (by decide) fun e he => ?_
    rw [List.mem_singleton.mp he]
    exact .value true

/-- The report says that `debug.control_api` was added, which the user has set. -/
theorem inline_table_reported :
    collectAddedTemplateFields debugTemplate.entries inlineDebug.entries = ["debug.control_api"] ∧
      inlineDebug.lookup [.key "debug", .key "control_api"] = some (.value true) ∧
      ¬ ReportExact debugTemplate inlineDebug
        (collectAddedTemplateFields debugTemplate.entries inlineDebug.entries) := by
  have hleaf : LeafOf debugTemplate ⟨["debug", "control_api"], false⟩ :=
    (mem_itemLeaves (debugTemplate.wellFormed.table false)).mp (by decide)
  have hmismatch : Mismatch inlineDebug ⟨["debug", "control_api"], false⟩ :=
    .inl ⟨[.key "debug"], ⟨[.key "control_api"], rfl⟩, by decide, .inlineTable, rfl, by decide⟩
  have hnot := (mismatch_reported hleaf hmismatch).2
  have hfields : collectAddedTemplateFields debugTemplate.entries inlineDebug.entries =
      ["debug.control_api"] := by decide
  refine ⟨hfields, rfl, ?_⟩
  rintro ⟨_, hexact⟩
  rw [hfields] at hexact
  obtain ⟨leaf, hadded, htext⟩ := (hexact "debug.control_api").mp (by decide)
  have hreported := hadded.reported
  have honly : reported debugTemplate inlineDebug = [⟨["debug", "control_api"], false⟩] := by decide
  rw [honly, List.mem_singleton] at hreported
  exact hnot (hreported ▸ hadded)

end VaporForge.Config
