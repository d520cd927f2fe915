import VaporForge.Lib.Records

/-!
# Documents of nested tables

The tree that a TOML library keeps of a document. A table is a list of entries in the order in
which they were inserted; an entry is a value, a table, a table that is written inline, or an
array of tables. A `Document` is a tree in which no table has a key twice and no array of
tables is empty, as every parsed one is.

What a document says is what `lookup` finds at a path. Two documents with the same values
(`SameValues`) may differ in the order of their entries and in how a table came about.
-/

namespace Lib

/-! ## Trees -/

inductive Item (V : Type) where
  | value (v : V)
  | inlineTable (entries : List (String × Item V))
  /-- `implicit`: no header and no value made it a table, only a table inside it. -/
  | table (implicit : Bool) (entries : List (String × Item V))
  | arrayOfTables (tables : List (List (String × Item V)))

abbrev Entries (V : Type) := List (String × Item V)

/-- One step of a path: to an entry of a table or to a table of an array. -/
inductive PathStep where
  | key (key : String)
  | index (index : Nat)
  deriving DecidableEq, Repr

/-- What is found at a path: a value, or what kind of item leads on. -/
inductive ItemNode (V : Type) where
  | value (v : V)
  | inlineTable
  | table
  | arrayOfTables
  deriving DecidableEq, Repr

section Trees

variable {V : Type}

def entry (entries : Entries V) (key : String) : Option (Item V) :=
  (findKey Prod.fst key entries).map Prod.snd

/-- The entry takes the place of the one with its key, or comes behind the others. -/
def setEntry (entries : Entries V) (key : String) (item : Item V) : Entries V :=
  rewriteOrPush Prod.fst key (key, item) (fun e => (e.1, item)) entries

def Item.node : Item V → ItemNode V
  | .value v => .value v
  | .inlineTable _ => .inlineTable
  | .table _ _ => .table
  | .arrayOfTables _ => .arrayOfTables

def Item.child : Item V → PathStep → Option (Item V)
  | .inlineTable entries, .key k => entry entries k
  | .table _ entries, .key k => entry entries k
  | .arrayOfTables tables, .index i => tables[i]?.map (.table false)
  | _, _ => none

def Item.lookup : Item V → List PathStep → Option (ItemNode V)
  | item, [] => some item.node
  | item, step :: path => (item.child step).bind fun next => next.lookup path

inductive Item.WellFormed : Item V → Prop where
  | value (v : V) : WellFormed (.value v)
  | inlineTable {entries : Entries V} (keys : (entries.map Prod.fst).Nodup)
      (items : ∀ e ∈ entries, WellFormed e.2) : WellFormed (.inlineTable entries)
  | table {implicit : Bool} {entries : Entries V} (keys : (entries.map Prod.fst).Nodup)
      (items : ∀ e ∈ entries, WellFormed e.2) : WellFormed (.table implicit entries)
  | arrayOfTables {tables : List (Entries V)} (nonempty : tables ≠ [])
      (keys : ∀ entries ∈ tables, (entries.map Prod.fst).Nodup)
      (items : ∀ entries ∈ tables, ∀ e ∈ entries, WellFormed e.2) :
      WellFormed (.arrayOfTables tables)

/-- The entries of a well-formed table. -/
structure WellFormedEntries (entries : Entries V) : Prop where
  keys : (entries.map Prod.fst).Nodup
  items : ∀ e ∈ entries, e.2.WellFormed

theorem Item.WellFormed.entries {implicit : Bool} {entries : Entries V}
    (h : (Item.table implicit entries).WellFormed) : WellFormedEntries entries := by
  cases h with
  | table keys items => exact ⟨keys, items⟩

theorem WellFormedEntries.table (implicit : Bool) {entries : Entries V}
    (h : WellFormedEntries entries) : (Item.table implicit entries).WellFormed :=
  .table h.keys h.items

/-! ## Entries -/

theorem entry_cons (k : String) (e : String × Item V) (entries : Entries V) :
    entry (e :: entries) k = if e.1 = k then some e.2 else entry entries k := by
  unfold entry
  rw [findKey_cons]
  split <;> rfl

theorem entry_setEntry (entries : Entries V) (k k' : String) (item : Item V) :
    entry (setEntry entries k item) k' = if k' = k then some item else entry entries k' := by
  have hkept : ∀ e : String × Item V, Prod.fst (e.1, item) = Prod.fst e := fun _ => rfl
  have hfresh : Prod.fst (k, item) = k := rfl
  unfold entry setEntry
  rw [findKey_rewriteOrPush hfresh hkept]
  split <;> rfl

theorem entry_eq_none_iff {entries : Entries V} {k : String} :
    entry entries k = none ↔ k ∉ entries.map Prod.fst := by
  unfold entry
  rw [Option.map_eq_none_iff, findKey_eq_none_iff, List.mem_map]
  constructor
  · rintro h ⟨e, he, heq⟩
    exact h e he heq
  · intro h e he heq
    exact h ⟨e, he, heq⟩

theorem mem_of_entry {entries : Entries V} {k : String} {item : Item V}
    (h : entry entries k = some item) : (k, item) ∈ entries := by
  obtain ⟨e, he, hitem⟩ := Option.map_eq_some_iff.mp h
  have hkey := key_of_findKey he
  subst hitem
  subst hkey
  exact mem_of_findKey he

theorem entry_of_mem {entries : Entries V} (hkeys : (entries.map Prod.fst).Nodup)
    {e : String × Item V} (h : e ∈ entries) : entry entries e.1 = some e.2 := by
  unfold entry
  rw [findKey_of_mem hkeys h]
  rfl

theorem WellFormedEntries.item {entries : Entries V} (h : WellFormedEntries entries) {k : String}
    {item : Item V} (hitem : entry entries k = some item) : item.WellFormed :=
  h.items _ (mem_of_entry hitem)

theorem WellFormedEntries.setEntry {entries : Entries V} (h : WellFormedEntries entries)
    (k : String) {item : Item V} (hitem : item.WellFormed) :
    WellFormedEntries (setEntry entries k item) := by
  have hkept : ∀ e : String × Item V, Prod.fst (e.1, item) = Prod.fst e := fun _ => rfl
  have hfresh : Prod.fst (k, item) = k := rfl
  refine ⟨nodup_rewriteOrPush hfresh hkept h.keys, ?_⟩
  exact forall_rewriteOrPush (p := fun e : String × Item V => e.2.WellFormed) hitem
    (fun _ _ => hitem) h.items

/-! ## Paths -/

@[simp] theorem lookup_nil (item : Item V) : item.lookup [] = some item.node := by
  rw [Item.lookup]

theorem lookup_cons (item : Item V) (step : PathStep) (path : List PathStep) :
    item.lookup (step :: path) = (item.child step).bind fun next => next.lookup path := by
  rw [Item.lookup]

@[simp] theorem lookup_table_key (implicit : Bool) (entries : Entries V) (k : String)
    (path : List PathStep) :
    (Item.table implicit entries).lookup (.key k :: path) =
      (entry entries k).bind fun next => next.lookup path :=
  lookup_cons ..

@[simp] theorem lookup_table_index (implicit : Bool) (entries : Entries V) (i : Nat)
    (path : List PathStep) : (Item.table implicit entries).lookup (.index i :: path) = none :=
  lookup_cons ..

/-- A path that is set is set from its beginning on. -/
theorem isSome_lookup_of_prefix {item : Item V} {front path : List PathStep} (h : front <+: path)
    (hpath : (item.lookup path).isSome) : (item.lookup front).isSome := by
  induction front generalizing item path with
  | nil =>
    rw [lookup_nil]
    rfl
  | cons step front ih =>
    obtain ⟨rest, rfl⟩ := h
    rw [List.cons_append, lookup_cons] at hpath
    rw [lookup_cons]
    cases hchild : item.child step with
    | none =>
      rw [hchild] at hpath
      cases hpath
    | some next =>
      rw [hchild] at hpath
      exact ih (List.prefix_append _ _) hpath

theorem node_eq_table_iff {item : Item V} :
    item.node = .table ↔ ∃ implicit entries, item = .table implicit entries := by
  cases item with
  | table implicit entries => exact ⟨fun _ => ⟨implicit, entries, rfl⟩, fun _ => rfl⟩
  | _ => simp [Item.node]

end Trees

/-! ## Documents -/

structure Document (V : Type) where
  entries : Entries V
  wellFormed : WellFormedEntries entries

namespace Document

variable {V : Type}

def lookup (d : Document V) (path : List PathStep) : Option (ItemNode V) :=
  (Item.table false d.entries).lookup path

def SameValues (d d' : Document V) : Prop := ∀ path, d.lookup path = d'.lookup path

theorem SameValues.refl (d : Document V) : SameValues d d := fun _ => rfl

theorem SameValues.trans {d d' d'' : Document V} (h : SameValues d d') (h' : SameValues d' d'') :
    SameValues d d'' :=
  fun path => (h path).trans (h' path)

end Document

end Lib
