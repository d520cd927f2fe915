import Mathlib.Data.List.AList

/-!
# Finite maps that are iterated and pruned

Mathlib's association lists, with what a program that keeps several maps in
step does to them besides inserting and erasing: keep the entries a predicate
accepts (`retain`), with new values (`retainMap`), rewrite one entry in place
(`adjust`), and walk all entries in an order nobody promises (`Arrangement`).
Every operation has one lemma that says what a lookup finds after it.
-/

namespace Lib

/-- An order of iteration that is not specified. -/
structure Arrangement (α : Type) where
  arrange : List α → List α
  perm : ∀ l, (arrange l).Perm l

namespace Arrangement

/-- As stored. -/
def stored {α : Type} : Arrangement α := ⟨id, fun _ => .rfl⟩

theorem mem_arrange {α : Type} (o : Arrangement α) {l : List α} {a : α} :
    a ∈ o.arrange l ↔ a ∈ l := (o.perm l).mem_iff

end Arrangement

abbrev Assoc (K V : Type) := AList fun _ : K => V

namespace Assoc

variable {K V : Type}

/-- Keep the entries that satisfy `p`. -/
def retain (p : K → V → Bool) (m : Assoc K V) : Assoc K V where
  entries := m.entries.filter fun e => p e.1 e.2
  nodupKeys := m.nodupKeys.sublist List.filter_sublist

/-- Keep the entries for which there is a new value, with that value. -/
def retainMap (f : K → V → Option V) (m : Assoc K V) : Assoc K V where
  entries := m.entries.filterMap fun e => (f e.1 e.2).map fun v => ⟨e.1, v⟩
  nodupKeys := by
    refine List.Nodup.sublist ?_ m.nodupKeys
    show List.Sublist (List.map Sigma.fst _) (List.map Sigma.fst _)
    induction m.entries with
    | nil => exact List.nil_sublist _
    | cons e entries ih =>
      cases hf : f e.1 e.2 with
      | none =>
        rw [List.filterMap_cons_none (by rw [hf]; rfl)]
        exact ih.cons e.1
      | some v =>
        rw [List.filterMap_cons_some (by rw [hf]; rfl)]
        exact ih.cons_cons e.1

variable [DecidableEq K]

/-- Rewrite the entry under `k`, if there is one. -/
def adjust (k : K) (f : V → V) (m : Assoc K V) : Assoc K V :=
  match m.lookup k with
  | some v => m.insert k (f v)
  | none => m

theorem lookup_eq_some_iff {m : Assoc K V} {k : K} {v : V} :
    m.lookup k = some v ↔ ⟨k, v⟩ ∈ m.entries := AList.mem_lookup_iff

theorem lookup_retain (p : K → V → Bool) (m : Assoc K V) (k : K) :
    (m.retain p).lookup k = (m.lookup k).filter (p k) := by
  ext v
  rw [Option.filter_eq_some_iff, lookup_eq_some_iff, lookup_eq_some_iff]
  exact List.mem_filter

theorem lookup_retainMap (f : K → V → Option V) (m : Assoc K V) (k : K) :
    (m.retainMap f).lookup k = (m.lookup k).bind (f k) := by
  ext v
  rw [lookup_eq_some_iff, Option.bind_eq_some_iff]
  unfold retainMap
  rw [List.mem_filterMap]
  constructor
  · intro h
    obtain ⟨e, he, hmap⟩ := h
    obtain ⟨w, hw, heq⟩ := Option.map_eq_some_iff.mp hmap
    cases heq
    exact ⟨e.2, lookup_eq_some_iff.mpr he, hw⟩
  · intro h
    obtain ⟨w, hw, hv⟩ := h
    exact ⟨⟨k, w⟩, lookup_eq_some_iff.mp hw, by rw [hv]; rfl⟩

theorem lookup_insert_eq (m : Assoc K V) (k : K) (v : V) (k' : K) :
    (m.insert k v).lookup k' = if k' = k then some v else m.lookup k' := by
  by_cases h : k' = k
  · rw [if_pos h, h, AList.lookup_insert]
  · rw [if_neg h, AList.lookup_insert_ne h]

theorem lookup_erase_eq (m : Assoc K V) (k k' : K) :
    (m.erase k).lookup k' = if k' = k then none else m.lookup k' := by
  by_cases h : k' = k
  · rw [if_pos h, h, AList.lookup_erase]
  · rw [if_neg h, AList.lookup_erase_ne h]

theorem lookup_adjust (m : Assoc K V) (k : K) (f : V → V) (k' : K) :
    (m.adjust k f).lookup k' = if k' = k then (m.lookup k).map f else m.lookup k' := by
  unfold adjust
  cases h : m.lookup k with
  | some v => exact lookup_insert_eq m k (f v) k'
  | none =>
    by_cases hk : k' = k
    · rw [if_pos hk, hk, h]
      rfl
    · rw [if_neg hk]

theorem mem_adjust (m : Assoc K V) (k : K) (f : V → V) (k' : K) :
    k' ∈ m.adjust k f ↔ k' ∈ m := by
  rw [← AList.lookup_isSome, ← AList.lookup_isSome, lookup_adjust]
  by_cases hk : k' = k
  · rw [if_pos hk, hk, Option.isSome_map]
  · rw [if_neg hk]

end Assoc

end Lib
