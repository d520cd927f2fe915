import Mathlib.Order.Bounds.Basic
import Mathlib.Order.Lattice
import VaporForge.Lib.Maps

/-!
# Folding keyed reports into an ordered map

A map that starts empty takes in reports one by one: the first report of a key is kept,
and every later one is combined with what is there. Read at one key, that is a plain fold
over the reports of that key (`getElem?_upsertAll`), so whatever is known of the fold is
known of the map.

Two combinations matter here. *Latest wins* keeps a report of the greatest rank
(`foldl_latest`). A *join* summarises: the least and the greatest of what was known are
those of the union (`LeastOf.union`, `GreatestOf.union`).
-/

namespace Lib

section Upsert

variable {α β : Type*} [LinearOrder α] (f : β → β → β)

def upsertAll (t : Std.ExtTreeMap α β compare) (reports : List (α × β)) :
    Std.ExtTreeMap α β compare :=
  reports.foldl (fun t e => upsert f t e.1 e.2) t

/-- The reports of one key, in order. -/
def valuesAt (k : α) (reports : List (α × β)) : List β :=
  (reports.filter fun e => e.1 = k).map Prod.snd

/-- Reports combined onto what may be there already. -/
def combine : Option β → List β → Option β
  | current, [] => current
  | some current, v :: vs => combine (some (f current v)) vs
  | none, v :: vs => combine (some v) vs

variable {f}

variable {k : α} {t : Std.ExtTreeMap α β compare}

variable {reports : List (α × β)} {v : β}

theorem mem_valuesAt : v ∈ valuesAt k reports ↔ (k, v) ∈ reports := by
  simp [valuesAt]

theorem combine_some (current : β) (vs : List β) :
    combine f (some current) vs = some (vs.foldl f current) := by
  induction vs generalizing current with
  | nil => rfl
  | cons v vs ih => exact ih (f current v)

theorem combine_none_cons (v : β) (vs : List β) : combine f none (v :: vs) = some (vs.foldl f v) :=
  combine_some v vs

theorem combine_append (current : Option β) (vs ws : List β) :
    combine f current (vs ++ ws) = combine f (combine f current vs) ws := by
  induction vs generalizing current with
  | nil => cases current <;> rfl
  | cons v vs ih =>
    cases current with
    | none => exact ih (some v)
    | some current => exact ih (some (f current v))

theorem getElem?_upsert_self (t : Std.ExtTreeMap α β compare) (k : α) (v : β) :
    (upsert f t k v)[k]? = combine f t[k]? [v] := by
  unfold upsert
  cases t[k]? with
  | none => exact Std.ExtTreeMap.getElem?_insert_self
  | some current => exact Std.ExtTreeMap.getElem?_insert_self

theorem getElem?_upsert_of_ne {k' : α} (h : k' ≠ k) (v : β) : (upsert f t k v)[k']? = t[k']? := by
  have hne : compare k k' ≠ .eq := fun heq => h (compare_eq_iff_eq.mp heq).symm
  unfold upsert
  split
  · rw [Std.ExtTreeMap.getElem?_insert, if_neg hne]
  · rw [Std.ExtTreeMap.getElem?_insert, if_neg hne]

/-- The map at one key is the fold of the reports of that key. -/
theorem getElem?_upsertAll (t : Std.ExtTreeMap α β compare) (reports : List (α × β)) (k : α) :
    (upsertAll f t reports)[k]? = combine f t[k]? (valuesAt k reports) := by
  induction reports generalizing t with
  | nil => rfl
  | cons e reports ih =>
    have hcons : upsertAll f t (e :: reports) = upsertAll f (upsert f t e.1 e.2) reports := rfl
    rw [hcons, ih]
    by_cases hk : e.1 = k
    · subst hk
      have hvalues : valuesAt e.1 (e :: reports) = e.2 :: valuesAt e.1 reports := by
        simp [valuesAt]
      rw [hvalues, getElem?_upsert_self]
      cases t[e.1]? with
      | none => rfl
      | some current => rfl
    · have hvalues : valuesAt k (e :: reports) = valuesAt k reports := by
        simp [valuesAt, hk]
      rw [hvalues, getElem?_upsert_of_ne (Ne.symm hk)]

/-- A nested loop over reports is one pass over all of them. -/
theorem foldl_upsert_eq {γ δ : Type*} (reports : γ → List δ) (key : γ → δ → α) (value : γ → δ → β)
    (l : List γ) (t : Std.ExtTreeMap α β compare) :
    l.foldl (fun t x => (reports x).foldl (fun t y => upsert f t (key x y) (value x y)) t) t =
      upsertAll f t (l.flatMap fun x => (reports x).map fun y => (key x y, value x y)) := by
  simp only [upsertAll, List.foldl_flatMap, List.foldl_map]

/-- From nothing: a key that was reported holds the fold of its reports. -/
theorem getElem?_upsertAll_eq_some_iff {r : β} :
    (upsertAll f ∅ reports)[k]? = some r ↔
      ∃ v vs, valuesAt k reports = v :: vs ∧ vs.foldl f v = r := by
  rw [getElem?_upsertAll, Std.ExtTreeMap.getElem?_empty]
  cases hvalues : valuesAt k reports with
  | nil => simp [combine]
  | cons v vs => simp [combine_none_cons]

/-- Two maps that hold the same at every key are equal. -/
theorem map_eq_of_getElem? {t' : Std.ExtTreeMap α β compare}
    (h : ∀ (k : α) (v : β), t[k]? = some v ↔ t'[k]? = some v) : t = t' :=
  Std.ExtTreeMap.ext_getElem? fun k => Option.ext fun v => h k v

theorem getElem?_eq_none_of_keys (h : k ∉ t.keys) : t[k]? = none :=
  Std.ExtTreeMap.getElem?_eq_none fun hmem => h (Std.ExtTreeMap.mem_keys.mpr hmem)

theorem mem_toList_iff {e : α × β} : e ∈ t.toList ↔ t[e.1]? = some e.2 :=
  Std.ExtTreeMap.mem_toList_iff_getElem?_eq_some

theorem mem_values_iff : v ∈ t.toList.map Prod.snd ↔ ∃ k : α, t[k]? = some v := by
  simp only [List.mem_map, Prod.exists, exists_eq_right,
    Std.ExtTreeMap.mem_toList_iff_getElem?_eq_some]

/-- Two lists that ascend by a rank and have the same members are equal. -/
theorem eq_of_ascending_rank {γ : Type*} (rank : γ → α) {l₁ l₂ : List γ}
    (h₁ : l₁.Pairwise fun x y => rank x < rank y) (h₂ : l₂.Pairwise fun x y => rank x < rank y)
    (hmem : ∀ x, x ∈ l₁ ↔ x ∈ l₂) : l₁ = l₂ := by
  have hne : ∀ {x y : γ}, rank x < rank y → x ≠ y := fun hlt heq => lt_irrefl _ (heq ▸ hlt)
  have hperm : l₁.Perm l₂ := (List.perm_ext_iff_of_nodup (h₁.imp hne) (h₂.imp hne)).mpr hmem
  exact hperm.eq_of_pairwise (fun x y _ _ hxy hyx => absurd hxy (lt_asymm hyx)) h₁ h₂

end Upsert

theorem forall_mem_concat {α : Type*} {p : α → Prop} {l : List α} {a : α} :
    (∀ x ∈ l ++ [a], p x) ↔ (∀ x ∈ l, p x) ∧ p a := by
  rw [List.forall_mem_append, List.forall_mem_singleton]

/-! ## Latest wins -/

section Latest

variable {β ρ : Type*} [LinearOrder ρ] (rank : β → ρ)

/-- The later report wins if it ranks strictly higher. -/
def latest (current incoming : β) : β := if rank current < rank incoming then incoming else current

theorem foldl_latest (v : β) (vs : List β) :
    vs.foldl (latest rank) v ∈ v :: vs ∧
      ∀ x ∈ v :: vs, rank x ≤ rank (vs.foldl (latest rank) v) := by
  induction vs generalizing v with
  | nil => simp
  | cons w vs ih =>
    obtain ⟨hmem, hmax⟩ := ih (latest rank v w)
    rw [List.foldl_cons]
    have hstep : latest rank v w ∈ [v, w] ∧ rank v ≤ rank (latest rank v w) ∧
        rank w ≤ rank (latest rank v w) := by
      unfold latest
      split
      next hlt => exact ⟨by simp, hlt.le, le_rfl⟩
      next hle => exact ⟨by simp, le_rfl, not_lt.mp hle⟩
    refine ⟨?_, fun x hx => ?_⟩
    · rcases List.mem_cons.mp hmem with heq | hin
      · rw [heq]
        exact List.mem_append_left vs hstep.1
      · exact List.mem_cons_of_mem _ (List.mem_cons_of_mem _ hin)
    · have htop := hmax _ List.mem_cons_self
      rcases List.mem_cons.mp hx with rfl | hx
      · exact hstep.2.1.trans htop
      · rcases List.mem_cons.mp hx with rfl | hx
        · exact hstep.2.2.trans htop
        · exact hmax x (List.mem_cons_of_mem _ hx)

end Latest

/-! ## The least and the greatest of what is known -/

section Bounds

variable {ρ : Type*} [LinearOrder ρ] {S T : Set ρ} {a b : Option ρ}

/-- The least element, or nothing for the empty set. -/
def LeastOf (S : Set ρ) : Option ρ → Prop
  | none => S = ∅
  | some t => IsLeast S t

/-- The greatest element, or nothing for the empty set. -/
def GreatestOf (S : Set ρ) : Option ρ → Prop
  | none => S = ∅
  | some t => IsGreatest S t

theorem LeastOf.union (ha : LeastOf S a) (hb : LeastOf T b) :
    LeastOf (S ∪ T) (Option.merge min a b) := by
  cases a with
  | none =>
    rw [show S = ∅ from ha, Set.empty_union, Option.merge_none_left]
    exact hb
  | some x =>
    cases b with
    | none =>
      rw [show T = ∅ from hb, Set.union_empty, Option.merge_none_right]
      exact ha
    | some y => exact IsLeast.union ha hb

/-- The greatest is the least of the reversed order. -/
theorem GreatestOf.dual (h : @LeastOf ρᵒᵈ _ S a) : GreatestOf S a := by
  cases a with
  | none => exact h
  | some t => exact h

theorem LeastOf.dual (h : GreatestOf S a) : @LeastOf ρᵒᵈ _ S a := by
  cases a with
  | none => exact h
  | some t => exact h

theorem GreatestOf.union (ha : GreatestOf S a) (hb : GreatestOf T b) :
    GreatestOf (S ∪ T) (Option.merge max a b) :=
  .dual (LeastOf.union (.dual ha) (.dual hb))

theorem LeastOf.intro (hmem : ∀ m, a = some m → m ∈ S)
    (hle : ∀ x ∈ S, ∃ m, a = some m ∧ m ≤ x) : LeastOf S a := by
  cases a with
  | none =>
    refine Set.eq_empty_of_forall_notMem fun x hx => ?_
    obtain ⟨m, hm, _⟩ := hle x hx
    cases hm
  | some m =>
    refine ⟨hmem m rfl, fun x hx => ?_⟩
    obtain ⟨m', hm', hle'⟩ := hle x hx
    cases hm'
    exact hle'

theorem GreatestOf.intro (hmem : ∀ m, a = some m → m ∈ S)
    (hle : ∀ x ∈ S, ∃ m, a = some m ∧ x ≤ m) : GreatestOf S a :=
  .dual (LeastOf.intro hmem hle)

variable {m x : ρ}

theorem GreatestOf.mem (h : GreatestOf S (some m)) : m ∈ S := h.1

theorem LeastOf.mem (h : LeastOf S (some m)) : m ∈ S := h.1

theorem LeastOf.exists_le (h : LeastOf S a) (hx : x ∈ S) : ∃ m, a = some m ∧ m ≤ x := by
  cases a with
  | none =>
    rw [show S = ∅ from h] at hx
    exact hx.elim
  | some m => exact ⟨m, rfl, h.2 hx⟩

theorem GreatestOf.exists_ge (h : GreatestOf S a) (hx : x ∈ S) : ∃ m, a = some m ∧ x ≤ m :=
  (LeastOf.dual h).exists_le hx

theorem LeastOf.unique (ha : LeastOf S a) (hb : LeastOf S b) : a = b := by
  cases a with
  | none =>
    cases b with
    | none => rfl
    | some y =>
      obtain ⟨m, hm, _⟩ := ha.exists_le hb.mem
      cases hm
  | some x =>
    obtain ⟨y, rfl, hle⟩ := hb.exists_le ha.mem
    exact congrArg some (le_antisymm (ha.2 hb.mem) hle)

end Bounds

end Lib
