import Mathlib.Data.List.Infix
import Mathlib.Order.Bounds.Basic
import VaporForge.Patterns.Resolve

/-!
# The search upwards for a prologue

`find_prologue_upwards` of `patterns/src/lib.rs` walks back from the body of a function to the
prologue before it. The prologue is given last byte first, as it is met.

> The walk finds the occurrence whose last byte is nearest to the body, and nothing only if
> none ends in its window. Its arithmetic stays above zero unless the occurrence it finds
> begins with the buffer (`upward_search_exact_iff`).

In that one case `anchor - prologue.len()` is evaluated at -1. A build that wraps adds the one
and returns the right entry; a build that checks arithmetic ends.
-/

namespace VaporForge.Patterns

open Lib

/-! ## What is looked for -/

section Spec
variable (haystack : List UInt8) (bodyOffset : Nat) (prologue : List UInt8) (maxScan : Nat)

/-- The bytes up to `last` and with it end with the prologue. -/
def EndsAt (last : Nat) : Prop := prologue.reverse <:+ haystack.take (last + 1)

/-- An occurrence that ends at the body or before it, at most `maxScan` bytes away. -/
def InWindow (last : Nat) : Prop :=
  EndsAt haystack prologue last ∧ last ≤ bodyOffset ∧ bodyOffset ≤ last + maxScan

def Nearest (last : Nat) : Prop :=
  IsGreatest {last | InWindow haystack bodyOffset prologue maxScan last} last

/-- The search returns. It returns the first byte of the nearest occurrence, or finds none
where there is none. -/
def FoundExactly : Ran (Except FollowError Nat) → Prop
  | .aborted => False
  | .returned (.ok entry) => ∃ last, Nearest haystack bodyOffset prologue maxScan last ∧
      entry + prologue.length = last + 1
  | .returned (.error error) => error = .pattern .noMatch ∧
      ∀ last, ¬InWindow haystack bodyOffset prologue maxScan last

end Spec

variable {haystack prologue : List UInt8} {anchor : Nat}

theorem EndsAt.length_le {last : Nat} (h : EndsAt haystack prologue last) :
    prologue.length ≤ last + 1 := by
  have hle := List.IsSuffix.length_le h
  rw [List.length_reverse, List.length_take] at hle
  omega

/-! ## One anchor -/

theorem prologueEndsAt_zero_eq (h : anchor < haystack.length) (found : Bool) :
    prologueEndsAt haystack anchor 0 prologue = .returned found ↔
      (found = true ↔ EndsAt haystack prologue anchor) := by
  rw [prologueEndsAt_eq h, List.drop_zero, EndsAt, ← List.reverse_prefix, List.reverse_reverse]
  cases found <;> simp

/-! ## The loop -/

/-- Of the `tries` anchors from `anchor` down, the loop stops at the first that ends the
prologue. -/
theorem searchUpwards_cases (checks : Bool) (prologue : List UInt8)
    (h : anchor < haystack.length) : ∀ tries ≤ anchor + 1,
    (searchUpwards haystack checks prologue tries anchor = .returned (.error (.pattern .noMatch)) ∧
      ∀ last ≤ anchor, anchor < last + tries → ¬EndsAt haystack prologue last) ∨
    ∃ last ≤ anchor, anchor < last + tries ∧ EndsAt haystack prologue last ∧
      (∀ other ≤ anchor, EndsAt haystack prologue other → other ≤ last) ∧
      searchUpwards haystack checks prologue tries anchor =
        (entryAt checks last prologue.length).map .ok := by
  intro tries
  induction tries generalizing anchor with
  | zero =>
    intro _
    exact .inl ⟨rfl, fun last hle hlt => by omega⟩
  | succ tries ih =>
    intro htries
    by_cases hends : EndsAt haystack prologue anchor
    · have hfound := (prologueEndsAt_zero_eq h true).mpr (iff_of_true rfl hends)
      refine .inr ⟨anchor, Nat.le_refl _, by omega, hends, fun other hle _ => hle, ?_⟩
      rw [searchUpwards, hfound]
    · have hmissed := (prologueEndsAt_zero_eq h false).mpr
        (iff_of_false Bool.false_ne_true hends)
      rw [searchUpwards, hmissed]
      dsimp only
      -- what ends at `anchor` or before it ends before it
      have hbefore : ∀ last ≤ anchor, EndsAt haystack prologue last → last < anchor := by
        intro last hle hlast
        refine Nat.lt_of_le_of_ne hle fun heq => ?_
        exact hends (heq ▸ hlast)
      obtain ⟨hnone, hno⟩ | ⟨last, hle, hlt, hlast, hnearest, hentry⟩ :=
        @ih (anchor - 1) (by omega) (by omega)
      · refine .inl ⟨hnone, fun last hle hlt hlast => ?_⟩
        have := hbefore last hle hlast
        exact hno last (by omega) (by omega) hlast
      · refine .inr ⟨last, by omega, by omega, hlast, fun other hother hends' => ?_, hentry⟩
        have := hbefore other hother hends'
        exact hnearest other (by omega) hends'

/-! ## Exactness -/

variable {bodyOffset : Nat}

/-- The search in the terms of its window. -/
theorem findPrologueUpwards_cases (checks : Bool) (maxScan : Nat)
    (hbody : bodyOffset < haystack.length) (hne : prologue ≠ []) :
    (findPrologueUpwards haystack checks bodyOffset prologue maxScan =
        .returned (.error (.pattern .noMatch)) ∧
      ∀ last, ¬InWindow haystack bodyOffset prologue maxScan last) ∨
    ∃ last, Nearest haystack bodyOffset prologue maxScan last ∧
      findPrologueUpwards haystack checks bodyOffset prologue maxScan =
        (entryAt checks last prologue.length).map .ok := by
  have hdef : findPrologueUpwards haystack checks bodyOffset prologue maxScan =
      searchUpwards haystack checks prologue (min maxScan bodyOffset + 1) bodyOffset := if_neg hne
  have htries : min maxScan bodyOffset + 1 ≤ bodyOffset + 1 := by omega
  rw [hdef]
  obtain ⟨hnone, hno⟩ | ⟨last, hle, hlt, hlast, hnearest, hentry⟩ :=
    searchUpwards_cases checks prologue hbody _ htries
  · refine .inl ⟨hnone, fun last hwindow => ?_⟩
    obtain ⟨hlast, hle, hfar⟩ := hwindow
    exact hno last hle (by omega) hlast
  · refine .inr ⟨last, ⟨⟨hlast, hle, by omega⟩, fun other hother => ?_⟩, hentry⟩
    exact hnearest other hother.2.1 hother.1

/-- **The search upwards is exact**, and its arithmetic is sound if and only if the occurrence
it finds does not begin with the buffer. Where arithmetic wraps the result is exact always. -/
theorem upward_search_exact_iff (haystack : List UInt8) (bodyOffset : Nat)
    (prologue : List UInt8) (maxScan : Nat) (hbody : bodyOffset < haystack.length)
    (hne : prologue ≠ []) :
    (FoundExactly haystack bodyOffset prologue maxScan
        (findPrologueUpwards haystack true bodyOffset prologue maxScan) ↔
      ∀ last, Nearest haystack bodyOffset prologue maxScan last → last + 1 ≠ prologue.length) ∧
    FoundExactly haystack bodyOffset prologue maxScan
      (findPrologueUpwards haystack false bodyOffset prologue maxScan) := by
  have hfits : ∀ last, Nearest haystack bodyOffset prologue maxScan last →
      prologue.length ≤ last + 1 := fun last h => h.1.1.length_le
  constructor
  · obtain ⟨hnone, hno⟩ | ⟨last, hlast, hentry⟩ :=
      findPrologueUpwards_cases true maxScan hbody hne
    · rw [hnone]
      exact iff_of_true ⟨rfl, hno⟩ fun last hlast => absurd hlast.1 (hno last)
    · have hlen := hfits last hlast
      rw [hentry, entryAt]
      split
      · next hunder =>
        refine iff_of_false (fun h => h) fun h => ?_
        have := h last hlast
        omega
      · next habove =>
        refine iff_of_true ⟨last, hlast, by omega⟩ fun other hother => ?_
        obtain rfl := hother.unique hlast
        simp only [and_true] at habove
        omega
  · obtain ⟨hnone, hno⟩ | ⟨last, hlast, hentry⟩ :=
      findPrologueUpwards_cases false maxScan hbody hne
    · rw [hnone]
      exact ⟨rfl, hno⟩
    · have hlen := hfits last hlast
      rw [hentry, entryAt, if_neg (by simp)]
      exact ⟨last, hlast, by omega⟩

/-- A function whose prologue stands behind a byte of padding. -/
theorem prologue_behind_padding :
    (FoundExactly [0x90, 0x55, 0x89, 0xe5, 0xc3] 4 [0xe5, 0x89, 0x55] 16
        (findPrologueUpwards [0x90, 0x55, 0x89, 0xe5, 0xc3] true 4 [0xe5, 0x89, 0x55] 16) ↔
      ∀ last, Nearest [0x90, 0x55, 0x89, 0xe5, 0xc3] 4 [0xe5, 0x89, 0x55] 16 last →
        last + 1 ≠ 3) ∧
    FoundExactly [0x90, 0x55, 0x89, 0xe5, 0xc3] 4 [0xe5, 0x89, 0x55] 16
      (findPrologueUpwards [0x90, 0x55, 0x89, 0xe5, 0xc3] false 4 [0xe5, 0x89, 0x55] 16) :=
  upward_search_exact_iff _ _ _ _ (by decide) (by decide)

/-- The same function at the very start of the buffer: the search ends below zero. -/
theorem prologue_begins_buffer :
    ¬FoundExactly [0x55, 0x89, 0xe5, 0xc3] 3 [0xe5, 0x89, 0x55] 16
      (findPrologueUpwards [0x55, 0x89, 0xe5, 0xc3] true 3 [0xe5, 0x89, 0x55] 16) := by
  have hrun : findPrologueUpwards [0x55, 0x89, 0xe5, 0xc3] true 3 [0xe5, 0x89, 0x55] 16 =
      .aborted := by decide
  rw [hrun]
  exact fun h => h

end VaporForge.Patterns
