import Mathlib.Data.List.Sort
import VaporForge.Lib.Keyed

/-!
# Lists of records found by a key

A list in which a record is found by comparing a key, as programs keep small tables: the
first match is rewritten in place, and where there is none a fresh record is pushed and
rewritten (`rewriteOrPush`). As long as no key occurs twice such a list is a map, whatever
order it is put into (`findKey_perm`), and each operation has one lemma that says what is
found after it.
-/

namespace Lib

section Records

variable {R K : Type} [DecidableEq K] {key : R → K}

/-- The first record under a key. -/
def findKey (key : R → K) (k : K) (l : List R) : Option R := l.find? fun r => key r = k

/-- Rewrites the first record under `k`, or a fresh one behind the others. -/
def rewriteOrPush (key : R → K) (k : K) (fresh : R) (f : R → R) : List R → List R
  | [] => [f fresh]
  | r :: l => if key r = k then f r :: l else r :: rewriteOrPush key k fresh f l

variable {l l' : List R} {r : R}

theorem key_of_findKey {k : K} (h : findKey key k l = some r) : key r = k := by
  have hfound := List.find?_some h
  exact of_decide_eq_true hfound

theorem mem_of_findKey {k : K} (h : findKey key k l = some r) : r ∈ l :=
  List.mem_of_find?_eq_some h

theorem findKey_cons (k : K) (r : R) (l : List R) :
    findKey key k (r :: l) = if key r = k then some r else findKey key k l := by
  unfold findKey
  rw [List.find?_cons]
  by_cases hkey : key r = k
  · rw [if_pos hkey, decide_eq_true hkey]
  · rw [if_neg hkey, decide_eq_false hkey]

theorem findKey_eq_none_iff {k : K} : findKey key k l = none ↔ ∀ r ∈ l, key r ≠ k := by
  unfold findKey
  rw [List.find?_eq_none]
  simp

/-- A record is found under its own key where no key occurs twice. -/
theorem findKey_of_mem (hnodup : (l.map key).Nodup) (hmem : r ∈ l) :
    findKey key (key r) l = some r := by
  induction l with
  | nil => cases hmem
  | cons r' l ih =>
    rw [List.map_cons, List.nodup_cons] at hnodup
    rw [findKey_cons]
    rcases List.mem_cons.mp hmem with rfl | hmem
    · exact if_pos rfl
    · have hne : key r' ≠ key r := fun heq => hnodup.1 (heq ▸ List.mem_map_of_mem hmem)
      rw [if_neg hne]
      exact ih hnodup.2 hmem

theorem findKey_eq_some_iff (hnodup : (l.map key).Nodup) {k : K} :
    findKey key k l = some r ↔ r ∈ l ∧ key r = k := by
  constructor
  · intro h
    exact ⟨mem_of_findKey h, key_of_findKey h⟩
  · rintro ⟨hmem, rfl⟩
    exact findKey_of_mem hnodup hmem

/-- The order of the records does not matter. -/
theorem findKey_perm (hperm : l.Perm l') (hnodup : (l.map key).Nodup) (k : K) :
    findKey key k l = findKey key k l' := by
  have hnodup' : (l'.map key).Nodup := (hperm.map key).nodup_iff.mp hnodup
  ext r
  rw [findKey_eq_some_iff hnodup, findKey_eq_some_iff hnodup', hperm.mem_iff]

/-- All records under a key are the one that is found. -/
theorem filter_key (hnodup : (l.map key).Nodup) (k : K) :
    l.filter (fun r => key r = k) = (findKey key k l).toList := by
  induction l with
  | nil => rfl
  | cons r l ih =>
    rw [List.map_cons, List.nodup_cons] at hnodup
    rw [findKey_cons, List.filter_cons, ih hnodup.2]
    by_cases hkey : key r = k
    · have hnone : findKey key k l = none := by
        rw [findKey_eq_none_iff]
        intro r' hr' heq
        exact hnodup.1 (hkey ▸ heq ▸ List.mem_map_of_mem hr')
      rw [if_pos hkey, hnone, decide_eq_true hkey]
      rfl
    · rw [if_neg hkey, decide_eq_false hkey]
      rfl

/-- Dropping everything under one key. -/
theorem findKey_filter_ne (l : List R) (k k' : K) :
    findKey key k' (l.filter fun r => key r ≠ k) = if k' = k then none else findKey key k' l := by
  by_cases hk : k' = k
  · rw [if_pos hk, findKey_eq_none_iff]
    intro r hr heq
    exact of_decide_eq_true (List.mem_filter.mp hr).2 (heq.trans hk)
  · rw [if_neg hk]
    unfold findKey
    rw [List.find?_filter]
    congr 1
    funext r
    by_cases hr : key r = k'
    · simp [hr, hk]
    · simp [hr]

section Rewrite

variable {k : K} {fresh : R} {f : R → R}

theorem findKey_rewriteOrPush (hfresh : key fresh = k) (hf : ∀ r, key (f r) = key r)
    (l : List R) (k' : K) :
    findKey key k' (rewriteOrPush key k fresh f l) =
      if k' = k then some (f ((findKey key k l).getD fresh)) else findKey key k' l := by
  induction l with
  | nil =>
    rw [rewriteOrPush, findKey_cons, hf, hfresh]
    by_cases hk : k = k'
    · rw [if_pos hk, if_pos hk.symm]
      rfl
    · rw [if_neg hk, if_neg (Ne.symm hk)]
  | cons r l ih =>
    rw [rewriteOrPush]
    by_cases hr : key r = k
    · rw [if_pos hr, findKey_cons, hf, findKey_cons, if_pos hr, findKey_cons, hr]
      by_cases hk : k = k'
      · rw [if_pos hk, if_pos hk.symm]
        rfl
      · rw [if_neg hk, if_neg (Ne.symm hk), if_neg hk]
    · rw [if_neg hr, findKey_cons, ih, findKey_cons, if_neg hr, findKey_cons]
      by_cases hk : k' = k
      · rw [hk, if_neg hr, if_pos rfl, if_pos rfl]
      · rw [if_neg hk, if_neg hk]

theorem mem_keys_rewriteOrPush (hfresh : key fresh = k) (hf : ∀ r, key (f r) = key r) {k' : K} :
    k' ∈ (rewriteOrPush key k fresh f l).map key ↔ k' = k ∨ k' ∈ l.map key := by
  induction l with
  | nil => rw [rewriteOrPush, List.map_singleton, hf, hfresh, List.mem_singleton]; simp
  | cons r l ih =>
    rw [rewriteOrPush]
    split
    next hr =>
      rw [List.map_cons, List.map_cons, hf, List.mem_cons, hr]
      exact ⟨fun h => .inr h, fun h => h.elim .inl id⟩
    next =>
      rw [List.map_cons, List.map_cons, List.mem_cons, List.mem_cons, ih]
      exact or_left_comm

theorem nodup_rewriteOrPush (hfresh : key fresh = k) (hf : ∀ r, key (f r) = key r)
    (hnodup : (l.map key).Nodup) : ((rewriteOrPush key k fresh f l).map key).Nodup := by
  induction l with
  | nil => exact List.nodup_singleton _
  | cons r l ih =>
    rw [List.map_cons, List.nodup_cons] at hnodup
    rw [rewriteOrPush]
    split
    next =>
      rw [List.map_cons, hf, List.nodup_cons]
      exact hnodup
    next hr =>
      rw [List.map_cons, List.nodup_cons, mem_keys_rewriteOrPush hfresh hf]
      exact ⟨fun h => h.elim hr hnodup.1, ih hnodup.2⟩

/-- A fresh key is pushed. -/
theorem rewriteOrPush_of_notMem (h : k ∉ l.map key) :
    rewriteOrPush key k fresh f l = l ++ [f fresh] := by
  induction l with
  | nil => rfl
  | cons r l ih =>
    rw [List.map_cons, List.mem_cons, not_or] at h
    rw [rewriteOrPush, if_neg (Ne.symm h.1), ih h.2]
    rfl

/-- What holds of a fresh record and survives the rewriting holds of all records. -/
theorem forall_rewriteOrPush {p : R → Prop} (hfresh : p fresh) (hf : ∀ r, p r → p (f r))
    (h : ∀ r ∈ l, p r) : ∀ r ∈ rewriteOrPush key k fresh f l, p r := by
  induction l with
  | nil =>
    rw [rewriteOrPush, List.forall_mem_singleton]
    exact hf fresh hfresh
  | cons r l ih =>
    rw [List.forall_mem_cons] at h
    rw [rewriteOrPush]
    split
    next => exact List.forall_mem_cons.mpr ⟨hf r h.1, h.2⟩
    next => exact List.forall_mem_cons.mpr ⟨h.1, ih h.2⟩

end Rewrite

/-- Sorting by a key that no two records share. -/
theorem ascending_insertionSort {α : Type} [LinearOrder α] {rank : R → α}
    (hnodup : (l.map rank).Nodup) :
    (l.insertionSort fun a b => rank a ≤ rank b).Pairwise fun a b => rank a < rank b := by
  have hsorted := List.pairwise_insertionSort (fun a b => rank a ≤ rank b) l
  have hdistinct : (l.insertionSort fun a b => rank a ≤ rank b).Pairwise
      fun a b => rank a ≠ rank b := by
    have hperm := (List.perm_insertionSort (fun a b => rank a ≤ rank b) l).map rank
    exact List.pairwise_map.mp (hperm.nodup_iff.mpr hnodup)
  exact (hsorted.and hdistinct).imp fun h => lt_of_le_of_ne h.1 h.2

/-- By a key that no two records share, the same records are put into the same order. -/
theorem insertionSort_eq_of_perm {α : Type} [LinearOrder α] {rank : R → α}
    (hnodup : (l.map rank).Nodup) (hperm : l.Perm l') :
    (l.insertionSort fun a b => rank a ≤ rank b) = l'.insertionSort fun a b => rank a ≤ rank b := by
  have hnodup' : (l'.map rank).Nodup := (hperm.map rank).nodup_iff.mp hnodup
  have hsorted : (l.insertionSort fun a b => rank a ≤ rank b).Perm
      (l'.insertionSort fun a b => rank a ≤ rank b) :=
    (List.perm_insertionSort _ l).trans (hperm.trans (List.perm_insertionSort _ l').symm)
  refine List.Perm.eq_of_pairwise ?_ (ascending_insertionSort hnodup)
    (ascending_insertionSort hnodup') hsorted
  intro a b _ _ hab hba
  exact absurd hba (lt_asymm hab)

theorem insertionSort_eq_of_mem {α : Type} [LinearOrder α] {rank : R → α}
    (hnodup : (l.map rank).Nodup) (hnodup' : (l'.map rank).Nodup) (hmem : ∀ r, r ∈ l ↔ r ∈ l') :
    (l.insertionSort fun a b => rank a ≤ rank b) = l'.insertionSort fun a b => rank a ≤ rank b :=
  insertionSort_eq_of_perm hnodup
    ((List.perm_ext_iff_of_nodup (.of_map rank hnodup) (.of_map rank hnodup')).mpr hmem)

/-- What is made of records with distinct keys is distinct, if it determines the key. -/
theorem nodup_filterMap {α β γ : Type} {key : R → γ} {f : R → Option α} {out : α → β}
    (hnodup : (l.map key).Nodup)
    (hinj : ∀ r r' a a', f r = some a → f r' = some a' → out a = out a' → key r = key r') :
    ((l.filterMap f).map out).Nodup := by
  rw [List.Nodup, List.pairwise_map, List.pairwise_filterMap]
  refine (List.pairwise_map.mp hnodup).imp ?_
  intro r r' hne a ha a' ha' heq
  exact hne (hinj r r' a a' ha ha' heq)

/-- A loop that passes over the items it cannot use. -/
theorem foldl_elim {α β : Type} (f : α → Option β) (g : List R → β → List R) (l : List α)
    (start : List R) :
    l.foldl (fun s a => (f a).elim s (g s)) start = (l.filterMap f).foldl g start := by
  induction l generalizing start with
  | nil => rfl
  | cons a l ih =>
    rw [List.foldl_cons, ih, List.filterMap_cons]
    cases f a with
    | none => rfl
    | some b => rfl

end Records

end Lib
