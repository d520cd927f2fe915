import Mathlib.Data.Set.Finite.Basic
import Mathlib.Data.Finite.Defs
import Mathlib.Order.Preorder.Finite

/-!
# Lineages: nodes that name the nodes they replace

A lineage is a set of nodes with a relation `names c p`: node `c` names `p` as one
it replaces. Nothing records which node is current; the *heads* are the nodes that
no node of the set names. Three things happen to such a set, and each has its law
here:

> a node added over all heads becomes the only head (`heads_insert`);
> under a rank that grows along `names`, every node sits below a head
> (`mem_heads_or_below`), so a sole head outranks every other node;
> nodes taken away leave the heads alone exactly when every node that stays and is
> not a head keeps a node that names it (`heads_eq_iff`), and for nodes taken away
> one at a time in ascending order, exactly when each has a namer that stays or
> comes later (`heads_take_iff`).
-/

namespace Lib.Lineage

variable {ι : Type*} {names : ι → ι → Prop} {S K : Set ι} {rank : ι → ℕ}

/-- The nodes of `S` that no node of `S` names. -/
def Heads (names : ι → ι → Prop) (S : Set ι) : Set ι :=
  {h | h ∈ S ∧ ∀ c ∈ S, ¬ names c h}

/-- `rank` grows from a node to every node that names it. -/
def Ranked (names : ι → ι → Prop) (S : Set ι) (rank : ι → ℕ) : Prop :=
  ∀ c ∈ S, ∀ p ∈ S, names c p → rank p < rank c

theorem Ranked.mono (hKS : K ⊆ S) (hrank : Ranked names S rank) : Ranked names K rank :=
  fun c hc p hp hcp => hrank c (hKS hc) p (hKS hp) hcp

/-- Heads only look at what the nodes themselves name. -/
theorem heads_congr {names' : ι → ι → Prop} (h : ∀ c ∈ S, ∀ p, names c p ↔ names' c p) :
    Heads names S = Heads names' S := by
  ext x
  exact and_congr_right fun _ => forall₂_congr fun c hc => not_congr (h c hc x)

theorem exists_namer {p : ι} (hp : p ∈ S) (hnot : p ∉ Heads names S) :
    ∃ c ∈ S, names c p := by
  by_contra hnone
  push Not at hnone
  exact hnot ⟨hp, hnone⟩

/-! ## Every node sits below a head -/

theorem mem_heads_or_below (hfin : S.Finite) (hrank : Ranked names S rank) {x : ι}
    (hx : x ∈ S) : x ∈ Heads names S ∨ ∃ h ∈ Heads names S, rank x < rank h := by
  -- of the nodes at or above `x`, one of greatest rank can have no namer
  let above : Set ι := {y | y ∈ S ∧ (y = x ∨ rank x < rank y)}
  have hab : above.Finite := hfin.subset fun y hy => hy.1
  obtain ⟨y, ⟨hyS, hyx⟩, hmax⟩ := hab.exists_maximalFor rank above ⟨x, hx, .inl rfl⟩
  have hhead : y ∈ Heads names S := by
    refine ⟨hyS, fun c hc hcy => ?_⟩
    have hlt := hrank c hc y hyS hcy
    have hxc : rank x < rank c := by
      rcases hyx with rfl | hyx
      · exact hlt
      · exact hyx.trans hlt
    exact absurd (hmax ⟨hc, .inr hxc⟩ hlt.le) (by omega)
  rcases hyx with rfl | hyx
  · exact .inl hhead
  · exact .inr ⟨y, hhead, hyx⟩

/-- A sole head outranks every other node. -/
theorem eq_or_rank_lt_of_heads_eq (hfin : S.Finite) (hrank : Ranked names S rank) {h x : ι}
    (hsole : Heads names S = {h}) (hx : x ∈ S) : x = h ∨ rank x < rank h := by
  rcases mem_heads_or_below hfin hrank hx with hhead | ⟨h', hhead, hlt⟩
  · rw [hsole] at hhead
    exact .inl hhead
  · rw [hsole] at hhead
    have hh : h' = h := hhead
    exact .inr (hh ▸ hlt)

theorem eq_empty_of_heads_eq_empty (hfin : S.Finite) (hrank : Ranked names S rank)
    (hnone : Heads names S = ∅) : S = ∅ := by
  by_contra hne
  obtain ⟨x, hx⟩ := Set.nonempty_iff_ne_empty.mpr hne
  rcases mem_heads_or_below hfin hrank hx with hhead | ⟨h, hhead, _⟩
  · exact absurd hhead (by rw [hnone]; exact Set.notMem_empty x)
  · exact absurd hhead (by rw [hnone]; exact Set.notMem_empty h)

/-! ## Adding a node over the heads -/

theorem heads_insert {n : ι} (hover : ∀ p ∈ S, names n p ↔ p ∈ Heads names S)
    (hfresh : ∀ c ∈ S, ¬ names c n) (hself : ¬ names n n) :
    Heads names (insert n S) = {n} := by
  ext x
  constructor
  · rintro ⟨hx, hunnamed⟩
    rcases hx with rfl | hxS
    · rfl
    · -- an old node that kept no namer was a head, and the new node names it
      have hhead : x ∈ Heads names S :=
        ⟨hxS, fun c hc => hunnamed c (Set.mem_insert_of_mem n hc)⟩
      exact absurd ((hover x hxS).mpr hhead) (hunnamed n (Set.mem_insert n S))
  · intro hx
    have hxn : x = n := hx
    rw [hxn]
    refine ⟨Set.mem_insert n S, fun c hc => ?_⟩
    rcases hc with rfl | hcS
    · exact hself
    · exact hfresh c hcS

/-- Under a rank, nothing already there names the node that is added over the sole
head, or over an empty set. -/
theorem not_names_of_ranked {n : ι} (hfin : S.Finite)
    (hrank : Ranked names (insert n S) rank)
    (hover : ∀ p ∈ Heads names S, names n p) : ∀ c ∈ S, ¬ names c n := by
  intro c hc hcn
  have hin : S ⊆ insert n S := Set.subset_insert n S
  have hnc := hrank c (hin hc) n (Set.mem_insert n S) hcn
  have hbelow : ∀ h ∈ Heads names S, rank h < rank n := fun h hh =>
    hrank n (Set.mem_insert n S) h (hin hh.1) (hover h hh)
  rcases mem_heads_or_below hfin (hrank.mono hin) hc with hhead | ⟨h, hhead, hlt⟩
  · have := hbelow c hhead
    omega
  · have := hbelow h hhead
    omega

/-! ## Taking nodes away -/

theorem heads_eq_iff (hKS : K ⊆ S) (hkept : Heads names S ⊆ K) :
    Heads names K = Heads names S ↔
      ∀ p ∈ K, p ∉ Heads names S → ∃ c ∈ K, names c p := by
  constructor
  · intro heq p hp hnot
    rw [← heq] at hnot
    exact exists_namer hp hnot
  · intro hnamed
    ext x
    constructor
    · rintro ⟨hxK, hunnamed⟩
      by_contra hnot
      obtain ⟨c, hc, hcx⟩ := hnamed x hxK hnot
      exact hunnamed c hc hcx
    · intro hx
      exact ⟨hkept hx, fun c hc => hx.2 c (hKS hc)⟩

section Take

variable [LinearOrder ι] {gone : List ι}

/-- Membership after the first `k` nodes of an ascending list have gone. -/
theorem mem_diff_take_iff (hasc : gone.Pairwise (· < ·)) {k : ℕ} (hk : k < gone.length)
    {c : ι} (hc : c ∈ S) :
    c ∈ S \ {x | x ∈ gone.take k} ↔ c ∉ gone ∨ gone[k] ≤ c := by
  constructor
  · rintro ⟨_, hnot⟩
    by_cases hcg : c ∈ gone
    · obtain ⟨j, hj, rfl⟩ := List.getElem_of_mem hcg
      have hkj : k ≤ j := by
        by_contra hlt
        exact hnot (List.mem_take_iff_getElem.mpr ⟨j, by omega, rfl⟩)
      rcases Nat.eq_or_lt_of_le hkj with rfl | hkj
      · exact .inr le_rfl
      · exact .inr (List.pairwise_iff_getElem.mp hasc k j hk hj hkj).le
    · exact .inl hcg
  · intro hor
    refine ⟨hc, fun htake => ?_⟩
    rcases hor with hcg | hle
    · exact hcg (List.mem_of_mem_take htake)
    · obtain ⟨j, hj, rfl⟩ := List.mem_take_iff_getElem.mp htake
      have hlt := List.pairwise_iff_getElem.mp hasc j k (by omega) hk (by omega)
      exact absurd hle (not_le.mpr hlt)

/-- Taking the nodes of an ascending list away one at a time keeps the heads at
every point exactly when each of them has a namer that stays or goes later. -/
theorem heads_take_iff (hirr : ∀ x, ¬ names x x) (hasc : gone.Pairwise (· < ·))
    (hsub : ∀ x ∈ gone, x ∈ S) (hheads : ∀ x ∈ gone, x ∉ Heads names S)
    (hstay : ∀ p ∈ S, p ∉ gone → p ∉ Heads names S → ∃ c ∈ S, c ∉ gone ∧ names c p) :
    (∀ k, k ≤ gone.length →
        Heads names (S \ {x | x ∈ gone.take k}) = Heads names S) ↔
      ∀ p ∈ gone, ∃ c ∈ S, names c p ∧ (c ∉ gone ∨ p < c) := by
  have hkept : ∀ k, Heads names S ⊆ S \ {x | x ∈ gone.take k} := fun k x hx =>
    ⟨hx.1, fun hmem => hheads x (List.mem_of_mem_take hmem) hx⟩
  constructor
  · intro hall p hp
    -- just before `p` itself goes, only later nodes and nodes that stay are left
    obtain ⟨k, hk, rfl⟩ := List.getElem_of_mem hp
    have hmem := (mem_diff_take_iff hasc hk (hsub _ hp)).mpr (.inr le_rfl)
    obtain ⟨c, hcK, hcp⟩ := (heads_eq_iff Set.sdiff_subset (hkept k)).mp (hall k hk.le)
      _ hmem (hheads _ hp)
    refine ⟨c, hcK.1, hcp, ?_⟩
    rcases (mem_diff_take_iff hasc hk hcK.1).mp hcK with hcg | hle
    · exact .inl hcg
    · refine .inr (lt_of_le_of_ne hle fun heq => ?_)
      rw [← heq] at hcp
      exact hirr _ hcp
  · intro hnamed k hk
    rw [heads_eq_iff Set.sdiff_subset (hkept k)]
    intro p hpK hnot
    by_cases hpg : p ∈ gone
    · obtain ⟨j, hj, rfl⟩ := List.getElem_of_mem hpg
      obtain ⟨c, hcS, hcp, hor⟩ := hnamed _ hpg
      have hkj : k ≤ j := by
        by_contra hlt
        exact hpK.2 (List.mem_take_iff_getElem.mpr ⟨j, by omega, rfl⟩)
      have hkl : k < gone.length := by omega
      refine ⟨c, (mem_diff_take_iff hasc hkl hcS).mpr ?_, hcp⟩
      rcases hor with hcg | hlt
      · exact .inl hcg
      · have hle := (mem_diff_take_iff hasc hkl hpK.1).mp hpK
        rcases hle with hng | hle
        · exact absurd hpg hng
        · exact .inr (hle.trans hlt.le)
    · obtain ⟨c, hcS, hcg, hcp⟩ := hstay p hpK.1 hpg hnot
      exact ⟨c, ⟨hcS, fun hmem => hcg (List.mem_of_mem_take hmem)⟩, hcp⟩

end Take

end Lib.Lineage
