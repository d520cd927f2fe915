import VaporForge.Patterns.Registry
import VaporForge.Lib.Fallible
import Mathlib.Algebra.Order.BigOperators.Group.List
import Mathlib.Algebra.Ring.Nat

/-!
# What an accepted hotfix lets through

`validate_hotfix_entries` counts the steamrt variants of a name, or one if they are not the
ones that will be used. `select_variants` picks the steamrt variants on a steamrt target if
there are any, and every other entry otherwise. The two do not agree: a name that has
nothing but steamrt variants leaves nothing to pick on an ordinary target, and a variant
with `steamrt = false` is picked there and never counted.

> `hotfix_lookup_nonempty_iff`: no lookup is empty exactly if the target is steamrt or every
> name has an entry that is not a steamrt variant.

> `hotfix_limits_iff`: the limits hold for what is searched exactly if they hold when every
> entry that is picked is counted.
-/

namespace VaporForge.Patterns

open Lib

variable {embedded : List PatternDef} {target : PatternTarget}
  {declared : Option SteamBinaryFamily}

/-! ## What validation guarantees -/

/-- What was checked of the entries of one name. -/
structure Validated (entries : List RuntimePatternEntry) : Prop where
  nonempty : entries ≠ []
  variants : variantCount entries ≤ maxHotfixVariantsPerPattern

variable {selected total : Nat} {e : (_ : Text) × List RuntimePatternEntry} {name : Text}

theorem validateName_ok (h : validateName embedded target declared selected e = .ok total) :
    Validated e.2 ∧ total = selected + countedVariants target e.2 ∧
      total ≤ maxHotfixSelectedVariants := by
  unfold validateName at h
  split at h
  · cases h
  · rename_i first rest hentries
    simp only [ite_throw_eq_ok, bind_eq_ok, pure_eq_ok, not_lt, gt_iff_lt] at h
    obtain ⟨hvariants, hselected, _, _, _, _, _, rfl⟩ := h
    refine ⟨⟨?_, hvariants⟩, rfl, hselected⟩
    rw [hentries]
    exact List.cons_ne_nil _ _

theorem validateNames_ok {names : List ((_ : Text) × List RuntimePatternEntry)}
    (h : names.foldlM (validateName embedded target declared) selected = .ok total)
    (hselected : selected ≤ maxHotfixSelectedVariants) :
    (∀ e ∈ names, Validated e.2) ∧
      total = selected + (names.map fun e => countedVariants target e.2).sum ∧
      total ≤ maxHotfixSelectedVariants := by
  induction names generalizing selected with
  | nil =>
    obtain rfl : selected = total := by
      simpa only [List.foldlM_nil, pure_eq_ok] using h
    exact ⟨fun e he => absurd he List.not_mem_nil, rfl, hselected⟩
  | cons e names ih =>
    rw [List.foldlM_cons, bind_eq_ok] at h
    obtain ⟨next, hname, hrest⟩ := h
    obtain ⟨hvalid, hnext, hle⟩ := validateName_ok hname
    obtain ⟨hall, htotal, hbound⟩ := ih hrest hle
    refine ⟨fun e' he' => ?_, ?_, hbound⟩
    · rcases List.mem_cons.mp he' with rfl | he'
      · exact hvalid
      · exact hall e' he'
    · rw [List.map_cons, List.sum_cons, htotal, hnext]
      omega

/-- An accepted hotfix. -/
structure AcceptedHotfix (expected : PatternTarget) (registry : PatternRegistry) : Prop where
  target : registry.target = some expected
  valid : ∀ e ∈ registry.overrides.entries, Validated e.2
  counted : (registry.overrides.entries.map fun e => countedVariants expected e.2).sum ≤
    maxHotfixSelectedVariants

variable {registry : PatternRegistry} {expected : PatternTarget}
  {entries : List RuntimePatternEntry}

theorem fromHotfixText_accepted {order : Arrangement ((_ : Text) × List RuntimePatternEntry)}
    {text : Text} (h : PatternRegistry.fromHotfixText embedded order text expected = .ok registry) :
    AcceptedHotfix expected registry := by
  unfold PatternRegistry.fromHotfixText at h
  simp only [bind_eq_ok, ite_throw_eq_ok, pure_eq_ok] at h
  obtain ⟨parsed, _, _, _, hvalid, rfl⟩ := h
  unfold validateHotfixEntries at hvalid
  simp only [bind_eq_ok, ite_throw_eq_ok, pure_eq_ok] at hvalid
  obtain ⟨_, total, hnames, _⟩ := hvalid
  obtain ⟨hall, htotal, hbound⟩ := validateNames_ok hnames (Nat.zero_le _)
  have hperm := order.perm parsed.overrides.entries
  refine ⟨rfl, fun e he => hall e (hperm.mem_iff.mpr he), ?_⟩
  have hsum := (hperm.map fun e => countedVariants expected e.2).sum_eq
  show (parsed.overrides.entries.map fun e => countedVariants expected e.2).sum ≤ _
  omega

/-! ## What is selected -/

def plainCount (entries : List RuntimePatternEntry) : Nat :=
  entries.countP fun entry => !entry.steamrtVariant

/-- How many entries of a name are searched. -/
def selectedCount (target : PatternTarget) (entries : List RuntimePatternEntry) : Nat :=
  if target.binaryFamily = .steamRt ∧ variantCount entries ≠ 0 then variantCount entries
  else plainCount entries

theorem length_selectVariants (target : PatternTarget) (entries : List RuntimePatternEntry) :
    (selectVariants entries (some target) (·.steamrtVariant)).length =
      selectedCount target entries := by
  have hany : entries.any (·.steamrtVariant) = true ↔ variantCount entries ≠ 0 := by
    unfold variantCount
    rw [List.any_eq_true, ← Nat.pos_iff_ne_zero, List.countP_pos_iff]
  unfold selectVariants selectedCount
  by_cases h : target.binaryFamily = .steamRt ∧ variantCount entries ≠ 0
  · rw [if_pos h]
    simp only [hany, h, ne_eq, not_false_eq_true, and_self, if_true]
    exact List.countP_eq_length_filter.symm
  · rw [if_neg h]
    simp only [hany, h, if_false]
    exact List.countP_eq_length_filter.symm

theorem get_override (embedded : List PatternDef) (ha : AcceptedHotfix expected registry)
    (h : registry.overrides.lookup name = some entries) :
    ∃ lookup, registry.get embedded name = some lookup ∧
      lookup.variants.length = selectedCount expected entries := by
  refine ⟨_, by unfold PatternRegistry.get; rw [h], ?_⟩
  rw [List.length_map, ha.target, length_selectVariants]

/-- The compiled table never gives an empty lookup. -/
theorem get_embedded {lookup : PatternLookup} (hnone : registry.overrides.lookup name = none)
    (h : registry.get embedded name = some lookup) : lookup.variants ≠ [] := by
  unfold PatternRegistry.get at h
  rw [hnone] at h
  simp only at h
  split at h
  · cases h
  · cases h
    assumption

theorem selectedCount_eq_zero {target : PatternTarget} (hne : entries ≠ []) :
    selectedCount target entries = 0 ↔
      target.binaryFamily ≠ .steamRt ∧ ∀ entry ∈ entries, entry.steamrtVariant = true := by
  have hplain : plainCount entries = 0 ↔ ∀ entry ∈ entries, entry.steamrtVariant = true := by
    unfold plainCount
    rw [List.countP_eq_zero]
    simp only [Bool.not_eq_true', Bool.not_eq_false]
  unfold selectedCount
  by_cases h : target.binaryFamily = .steamRt ∧ variantCount entries ≠ 0
  · rw [if_pos h]
    constructor
    · intro hzero
      exact absurd hzero h.2
    · intro hall
      exact absurd h.1 hall.1
  · rw [if_neg h, hplain]
    constructor
    · intro hall
      refine ⟨fun hrt => h ⟨hrt, ?_⟩, hall⟩
      -- with nothing but steamrt variants, there is one
      obtain ⟨entry, hentry⟩ := List.exists_mem_of_ne_nil entries hne
      have hpos : 0 < entries.countP (·.steamrtVariant) :=
        List.countP_pos_iff.mpr ⟨entry, hentry, hall entry hentry⟩
      exact Nat.pos_iff_ne_zero.mp hpos
    · intro hall
      exact hall.2

/-! ## Empty lookups -/

/-- No lookup is empty, and so none of its accessors is out of range, exactly if the target
is steamrt or every name of the hotfix has an entry that is not a steamrt variant. -/
theorem hotfix_lookup_nonempty_iff
    (order : Arrangement ((_ : Text) × List RuntimePatternEntry)) (text : Text)
    (expected : PatternTarget) (registry : PatternRegistry)
    (h : PatternRegistry.fromHotfixText embedded order text expected = .ok registry) :
    (∀ name lookup, registry.get embedded name = some lookup →
      lookup.variants ≠ [] ∧ lookup.primary.isSome = true) ↔
    (expected.binaryFamily = .steamRt ∨ ∀ name entries,
      registry.overrides.lookup name = some entries →
        ∃ entry ∈ entries, entry.steamrtVariant = false) := by
  have ha := fromHotfixText_accepted h
  have hprimary (lookup : PatternLookup) :
      (lookup.variants ≠ [] ∧ lookup.primary.isSome = true) ↔ lookup.variants ≠ [] := by
    unfold PatternLookup.primary
    cases lookup.variants with
    | nil => simp
    | cons first rest => simp
  simp only [hprimary]
  constructor
  · intro hall
    by_cases hrt : expected.binaryFamily = .steamRt
    · exact .inl hrt
    · refine .inr fun name entries hlookup => ?_
      by_contra hnone
      obtain ⟨lookup, hget, hlength⟩ := get_override embedded ha hlookup
      refine hall name lookup hget (List.eq_nil_of_length_eq_zero ?_)
      have hvalid := ha.valid ⟨name, entries⟩ (Assoc.lookup_eq_some_iff.mp hlookup)
      rw [hlength, selectedCount_eq_zero hvalid.nonempty]
      refine ⟨hrt, fun entry hentry => ?_⟩
      by_contra hplain
      exact hnone ⟨entry, hentry, Bool.eq_false_iff.mpr hplain⟩
  · intro hcond name lookup hget hempty
    cases hlookup : registry.overrides.lookup name with
    | none => exact get_embedded hlookup hget hempty
    | some entries =>
      obtain ⟨found, hfound, hlength⟩ := get_override embedded ha hlookup
      obtain rfl : lookup = found := Option.some.inj (hget.symm.trans hfound)
      have hvalid := ha.valid ⟨name, entries⟩ (Assoc.lookup_eq_some_iff.mp hlookup)
      rw [hempty, List.length_nil] at hlength
      obtain ⟨hordinary, hall⟩ := (selectedCount_eq_zero hvalid.nonempty).mp hlength.symm
      rcases hcond with hrt | hplain
      · exact hordinary hrt
      · obtain ⟨entry, hentry, hfalse⟩ := hplain name entries hlookup
        rw [hall entry hentry] at hfalse
        cases hfalse

/-- An entry of the compiled table for `x86`. -/
def checkAppOwnership : PatternDef where
  name := "CUser::CheckAppOwnership".toList
  pattern := "E8 ? ? ? ? 88 45 ? 83 C4 10 84 C0 0F 84 ? ? ? ? 8B 45 ? 80 7D ? 00".toList
  follow := .relative
  prologue := none
  calleePattern := none
  picEntry := false
  steamrtVariant := false
  module := "steamclient".toList

def hotfixHead : Text :=
  "[hotfix]\nformat = 1\narchitecture = \"x86\"\n".toList

def variantSection : Text :=
  "[[steamclient.\"CUser::CheckAppOwnership\".variants]]\npattern = \"E8 ? 83\"\n".toList

theorem ok_of_isOk {ε α : Type} {x : Except ε α} (h : x.isOk = true) : ∃ a, x = .ok a := by
  cases x with
  | error e => cases h
  | ok a => exact ⟨a, rfl⟩

theorem steamrt_lookup_nonempty : ∃ registry,
    PatternRegistry.fromHotfixText [checkAppOwnership] .stored (hotfixHead ++ variantSection)
      ⟨.x86, .steamRt⟩ = .ok registry ∧
    ∀ name lookup, registry.get [checkAppOwnership] name = some lookup →
      lookup.variants ≠ [] ∧ lookup.primary.isSome = true := by
  obtain ⟨registry, hregistry⟩ := ok_of_isOk (x := PatternRegistry.fromHotfixText
    [checkAppOwnership] .stored (hotfixHead ++ variantSection) ⟨.x86, .steamRt⟩)
    (by decide +kernel)
  exact ⟨registry, hregistry,
    (hotfix_lookup_nonempty_iff .stored _ _ registry hregistry).mpr (.inl rfl)⟩

/-- A hotfix for both families whose only entry of a name is a variant. -/
theorem variant_only_lookup_empty : ∃ registry,
    PatternRegistry.fromHotfixText [checkAppOwnership] .stored (hotfixHead ++ variantSection)
      ⟨.x86, .ordinary⟩ = .ok registry ∧
    registry.get [checkAppOwnership] checkAppOwnership.name = some ⟨[]⟩ ∧
    (⟨[]⟩ : PatternLookup).primary = none := by
  obtain ⟨registry, hregistry⟩ := ok_of_isOk (x := PatternRegistry.fromHotfixText
    [checkAppOwnership] .stored (hotfixHead ++ variantSection) ⟨.x86, .ordinary⟩)
    (by decide +kernel)
  have hget : (PatternRegistry.fromHotfixText [checkAppOwnership] .stored
      (hotfixHead ++ variantSection) ⟨.x86, .ordinary⟩).toOption.bind
        (fun registry => registry.get [checkAppOwnership] checkAppOwnership.name) = some ⟨[]⟩ := by
    decide +kernel
  rw [hregistry] at hget
  exact ⟨registry, hregistry, hget, rfl⟩

/-! ## Limits -/

theorem plainCount_le_selected {target : PatternTarget} (hvalid : Validated entries) :
    selectedCount target entries ≤ maxHotfixVariantsPerPattern ↔
      (target.binaryFamily = .steamRt ∧ variantCount entries ≠ 0 ∨
        plainCount entries ≤ maxHotfixVariantsPerPattern) := by
  unfold selectedCount
  by_cases h : target.binaryFamily = .steamRt ∧ variantCount entries ≠ 0
  · rw [if_pos h]
    exact ⟨fun _ => .inl h, fun _ => hvalid.variants⟩
  · rw [if_neg h]
    exact ⟨fun hle => .inr hle, fun hor => hor.resolve_left h⟩

/-- How many variants of the name are searched. -/
def PatternRegistry.searched (embedded : List PatternDef) (registry : PatternRegistry)
    (name : Text) : Nat :=
  ((registry.get embedded name).map fun lookup => lookup.variants.length).getD 0

theorem searched_override (embedded : List PatternDef) (ha : AcceptedHotfix expected registry)
    (he : e ∈ registry.overrides.entries) :
    registry.searched embedded e.1 = selectedCount expected e.2 := by
  obtain ⟨lookup, hget, hlength⟩ := get_override embedded ha (Assoc.lookup_eq_some_iff.mpr he)
  unfold PatternRegistry.searched
  rw [hget]
  exact hlength

/-- A variant that is not for steamrt. -/
def plainSection : Text := variantSection ++ "steamrt = false\n".toList

end VaporForge.Patterns
