import Mathlib.Order.Compare
import Mathlib.Order.Defs.LinearOrder
import Mathlib.Order.Lattice
import Mathlib.Data.List.Perm.Basic
import Std.Data.ExtTreeMap

/-!
# Ordered maps filled from lists

A listing in no particular order, with distinct names, goes into an ordered map:
what the map then holds is the listing (`getElem?_collect`), whatever the order,
and its keys come out ascending, so that two key lists with the same members are
the same list (`eq_of_ascending`).
-/

namespace Lib

variable {α β γ : Type*} [LinearOrder α]

/-- Two ascending lists with the same members are equal. -/
theorem eq_of_ascending {l₁ l₂ : List α} (h₁ : l₁.Pairwise (· < ·)) (h₂ : l₂.Pairwise (· < ·))
    (hmem : ∀ x, x ∈ l₁ ↔ x ∈ l₂) : l₁ = l₂ := by
  have hperm : l₁.Perm l₂ :=
    (List.perm_ext_iff_of_nodup (h₁.imp ne_of_lt) (h₂.imp ne_of_lt)).mpr hmem
  exact hperm.eq_of_pairwise (fun a b _ _ hab hba => absurd hab (lt_asymm hba)) h₁ h₂

theorem keys_ascending (t : Std.ExtTreeMap α β compare) : t.keys.Pairwise (· < ·) :=
  Std.ExtTreeMap.ordered_keys.imp fun h => compare_lt_iff_lt.mp h

variable {t : Std.ExtTreeMap α β compare} {k : α} {l : List (α × β)}

theorem mem_iff_exists_getElem? : k ∈ t ↔ ∃ v, t[k]? = some v := by
  rw [Std.ExtTreeMap.mem_iff_isSome_getElem?, Option.isSome_iff_exists]

/-- Insert every pair of a list. -/
def collect (t : Std.ExtTreeMap α β compare) (l : List (α × β)) : Std.ExtTreeMap α β compare :=
  l.foldl (fun t e => t.insert e.1 e.2) t

/-- Keep the first report of a key; combine the later ones with it. -/
def upsert (f : β → β → β) (t : Std.ExtTreeMap α β compare) (k : α) (v : β) : Std.ExtTreeMap α β compare :=
  match t[k]? with
  | some current => t.insert k (f current v)
  | none => t.insert k v

@[simp] theorem collect_nil (t : Std.ExtTreeMap α β compare) : collect t [] = t := rfl

@[simp] theorem collect_cons (t : Std.ExtTreeMap α β compare) (e : α × β) (l : List (α × β)) :
    collect t (e :: l) = collect (t.insert e.1 e.2) l := rfl

theorem mem_collect : k ∈ collect t l ↔ k ∈ l.map Prod.fst ∨ k ∈ t := by
  induction l generalizing t with
  | nil => simp
  | cons e l ih =>
    rw [collect_cons, ih, Std.ExtTreeMap.mem_insert, List.map_cons, List.mem_cons,
      compare_eq_iff_eq, ← or_assoc, or_comm (a := k ∈ l.map Prod.fst), eq_comm]

/-- What the map returns for a key was in the list under that key, or there before. -/
theorem mem_of_getElem?_collect {v : β} (h : (collect t l)[k]? = some v) :
    (k, v) ∈ l ∨ t[k]? = some v := by
  induction l generalizing t with
  | nil => exact .inr h
  | cons e l ih =>
    rw [collect_cons] at h
    rcases ih h with hmem | hold
    · exact .inl (List.mem_cons_of_mem _ hmem)
    · rw [Std.ExtTreeMap.getElem?_insert] at hold
      split at hold
      next heq =>
        have hk : e = (k, v) := Prod.ext (compare_eq_iff_eq.mp heq) (Option.some.inj hold)
        exact .inl (hk ▸ List.mem_cons_self)
      next => exact .inr hold

/-- Names still to come stay new when the first of them goes in. -/
theorem not_mem_insert_of_nodup {e : α × β} (hnd : ((e :: l).map Prod.fst).Nodup)
    (hnew : ∀ e' ∈ e :: l, e'.1 ∉ t) : ∀ e' ∈ l, e'.1 ∉ t.insert e.1 e.2 := by
  intro e' he' hmem
  rw [List.map_cons, List.nodup_cons] at hnd
  rw [Std.ExtTreeMap.mem_insert] at hmem
  rcases hmem with heq | hmem
  · have hk : e.1 = e'.1 := compare_eq_iff_eq.mp heq
    exact hnd.1 (List.mem_map.mpr ⟨e', he', hk.symm⟩)
  · exact hnew e' (List.mem_cons_of_mem _ he') hmem

theorem getElem?_collect (hnd : (l.map Prod.fst).Nodup) (hnew : ∀ e ∈ l, e.1 ∉ t) {v : β} :
    (collect t l)[k]? = some v ↔ (k, v) ∈ l ∨ t[k]? = some v := by
  induction l generalizing t with
  | nil => simp
  | cons e l ih =>
    have hnew' := not_mem_insert_of_nodup hnd hnew
    have hnot : e.1 ∉ t := hnew e List.mem_cons_self
    obtain ⟨k₀, v₀⟩ := e
    rw [List.map_cons, List.nodup_cons] at hnd
    rw [collect_cons, ih hnd.2 hnew', Std.ExtTreeMap.getElem?_insert]
    by_cases hk : k₀ = k
    · subst hk
      have hnone : t[k₀]? = none := Std.ExtTreeMap.getElem?_eq_none hnot
      have hl : (k₀, v) ∉ l := fun hmem => hnd.1 (List.mem_map.mpr ⟨_, hmem, rfl⟩)
      simp [hnone, hl, eq_comm]
    · have hne : compare k₀ k ≠ .eq := fun heq => hk (compare_eq_iff_eq.mp heq)
      simp [hne, Ne.symm hk]

theorem size_collect (hnd : (l.map Prod.fst).Nodup) (hnew : ∀ e ∈ l, e.1 ∉ t) :
    (collect t l).size = t.size + l.length := by
  induction l generalizing t with
  | nil => rfl
  | cons e l ih =>
    have hnew' := not_mem_insert_of_nodup hnd hnew
    have hnot : e.1 ∉ t := hnew e List.mem_cons_self
    rw [List.map_cons, List.nodup_cons] at hnd
    rw [collect_cons, ih hnd.2 hnew', Std.ExtTreeMap.size_insert]
    have hfalse : t.contains e.1 = false := by
      rw [← Bool.not_eq_true, Std.ExtTreeMap.contains_iff_mem]
      exact hnot
    simp only [hfalse, List.length_cons]
    rw [if_neg (by simp)]
    omega

end Lib
