import Mathlib.Data.List.Basic

/-!
# Length-delimited frames

A sequence of byte strings is written as one string, each of them behind a header that
announces its length. When the headers can be told apart (`SelfDelimiting`) nothing is lost:

> two sequences with the same frames are the same sequence (`flatMap_frame_inj`).
-/

namespace Lib

variable {α : Type}

/-- Headers of lengths below `bound`: where a header ends, and what it announces, is decided
by what is written. -/
structure SelfDelimiting (header : Nat → List α) (bound : Nat) : Prop where
  nonempty : ∀ n, header n ≠ []
  cut : ∀ {n m : Nat} {r r' : List α}, n < bound → m < bound →
    header n ++ r = header m ++ r' → n = m ∧ r = r'

def frame (header : Nat → List α) (x : List α) : List α := header x.length ++ x

section Frames

variable {header : Nat → List α} {bound : Nat} (h : SelfDelimiting header bound)

include h

theorem frame_append_inj {x y r r' : List α} (hx : x.length < bound) (hy : y.length < bound)
    (heq : frame header x ++ r = frame header y ++ r') : x = y ∧ r = r' := by
  unfold frame at heq
  rw [List.append_assoc, List.append_assoc] at heq
  obtain ⟨hlen, hrest⟩ := h.cut hx hy heq
  exact List.append_inj hrest hlen

theorem flatMap_frame_inj {xs ys : List (List α)} (hxs : ∀ x ∈ xs, x.length < bound)
    (hys : ∀ y ∈ ys, y.length < bound)
    (heq : xs.flatMap (frame header) = ys.flatMap (frame header)) : xs = ys := by
  induction xs generalizing ys with
  | nil =>
    cases ys with
    | nil => rfl
    | cons y ys =>
      rw [List.flatMap_nil, List.flatMap_cons] at heq
      have hframe := (List.append_eq_nil_iff.mp heq.symm).1
      exact absurd (List.append_eq_nil_iff.mp hframe).1 (h.nonempty _)
  | cons x xs ih =>
    cases ys with
    | nil =>
      rw [List.flatMap_nil, List.flatMap_cons] at heq
      have hframe := (List.append_eq_nil_iff.mp heq).1
      exact absurd (List.append_eq_nil_iff.mp hframe).1 (h.nonempty _)
    | cons y ys =>
      rw [List.forall_mem_cons] at hxs hys
      rw [List.flatMap_cons, List.flatMap_cons] at heq
      obtain ⟨hxy, hrest⟩ := frame_append_inj h hxs.1 hys.1 heq
      rw [hxy, ih hxs.2 hys.2 hrest]

end Frames

end Lib
