import Mathlib.Data.List.Nodup

/-!
# Hash sets whose equality is coarser than identity

Values that count as equal when their keys agree, as in a hash set over a type with a
hand-written equality. A set holds at most one value per key; inserting a value whose key
is present keeps the old one, and removal is by key. The list is the content in an order
that means nothing.
-/

namespace Lib

structure KeySet {α K : Type} (key : α → K) where
  elems : List α
  nodup : (elems.map key).Nodup

namespace KeySet

variable {α K : Type} {key : α → K}

def empty : KeySet key := ⟨[], List.nodup_nil⟩

/-- A value of this key is in the set. -/
def Has (s : KeySet key) (k : K) : Prop := ∃ a ∈ s.elems, key a = k

variable [DecidableEq K]

instance decidableHas (s : KeySet key) (k : K) : Decidable (s.Has k) :=
  inferInstanceAs (Decidable (∃ a ∈ s.elems, key a = k))

def contains (s : KeySet key) (a : α) : Bool := s.Has (key a)

/-- `HashSet::insert`; whether it inserted is `!s.contains a`. -/
def insert (s : KeySet key) (a : α) : KeySet key :=
  if h : s.Has (key a) then s
  else ⟨a :: s.elems, by
    rw [List.map_cons, List.nodup_cons, List.mem_map]
    exact ⟨h, s.nodup⟩⟩

def remove (s : KeySet key) (a : α) : KeySet key :=
  ⟨s.elems.filter fun b => key b ≠ key a, (List.filter_sublist.map key).nodup s.nodup⟩

def insertAll (s : KeySet key) (as : List α) : KeySet key := as.foldl insert s

def removeAll (s : KeySet key) (as : List α) : KeySet key := as.foldl remove s

@[simp] theorem contains_iff (s : KeySet key) (a : α) : s.contains a = true ↔ s.Has (key a) := by
  simp [contains]

theorem mem_insert (s : KeySet key) (a b : α) :
    b ∈ (s.insert a).elems ↔ b ∈ s.elems ∨ b = a ∧ ¬ s.Has (key a) := by
  unfold insert
  split
  · next h => simp [h]
  · next h => simp [h, or_comm]

theorem has_insert (s : KeySet key) (a : α) : (s.insert a).Has (key a) := by
  by_cases h : s.Has (key a)
  · obtain ⟨b, hb, hkey⟩ := h
    exact ⟨b, (s.mem_insert a b).mpr (.inl hb), hkey⟩
  · exact ⟨a, (s.mem_insert a a).mpr (.inr ⟨rfl, h⟩), rfl⟩

variable {s : KeySet key} {k : K} {as : List α}

theorem Has.insert (h : s.Has k) (a : α) : (s.insert a).Has k := by
  obtain ⟨b, hb, hkey⟩ := h
  exact ⟨b, (s.mem_insert a b).mpr (.inl hb), hkey⟩

theorem Has.insertAll (h : s.Has k) (as : List α) : (s.insertAll as).Has k := by
  induction as generalizing s with
  | nil => exact h
  | cons a as ih => exact ih (h.insert a)

theorem has_insertAll (s : KeySet key) {a : α} (ha : a ∈ as) : (s.insertAll as).Has (key a) := by
  induction as generalizing s with
  | nil => exact absurd ha List.not_mem_nil
  | cons b as ih =>
    rcases List.mem_cons.mp ha with rfl | ha
    · exact (s.has_insert a).insertAll as
    · exact ih (s.insert b) ha

theorem mem_remove (s : KeySet key) (a b : α) :
    b ∈ (s.remove a).elems ↔ b ∈ s.elems ∧ key b ≠ key a := by
  simp [remove]

/-- Whatever is in the set after inserting was there before or is one of the new ones. -/
theorem of_mem_insertAll {b : α} (h : b ∈ (s.insertAll as).elems) : b ∈ s.elems ∨ b ∈ as := by
  induction as generalizing s with
  | nil => exact .inl h
  | cons a as ih =>
    rcases ih h with hold | hnew
    · rcases (s.mem_insert a b).mp hold with hold | ⟨rfl, _⟩
      · exact .inl hold
      · exact .inr List.mem_cons_self
    · exact .inr (List.mem_cons_of_mem _ hnew)

theorem mem_removeAll (s : KeySet key) (as : List α) (b : α) :
    b ∈ (s.removeAll as).elems ↔ b ∈ s.elems ∧ ∀ a ∈ as, key b ≠ key a := by
  induction as generalizing s with
  | nil => simp [removeAll]
  | cons a as ih =>
    show b ∈ ((s.remove a).removeAll as).elems ↔ _
    rw [ih, mem_remove, List.forall_mem_cons, and_assoc]

end KeySet

end Lib
