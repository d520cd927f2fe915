import VaporForge.Features.OnlinePatterns

/-!
# The online pattern cache only moves forward

For every interleaving of downloads, promotions and discards:

> every active file's content was a cached candidate and passed the validation of the
> promotion that published it

> the revision of the candidate and of each active file never decreases between two discards

> when a discard has completed and nothing was cached since it began, no candidate and no
> active file exist and no later promotion publishes one

A promotion holds the lock of the candidate from before it reads it until after it has
published it, so that what it publishes is the candidate at that moment. A discard that has
removed the candidate therefore leaves nobody behind who could publish (`Cleared`), although
it holds no lock while it goes from one file to the next.
-/

namespace VaporForge.Features

open Lib

section Outline

variable {Content : Type}

/-! ## Assertions -/

/-- The locks that a thread holds. -/
def CacheLocal.held : CacheLocal Content → List CacheFile
  | .comparing _ | .storing _ | .reading _ _ | .wantActive _ _ _ _ | .unlocking => [.candidate]
  | .judging mod _ _ _ | .publishing mod _ _ | .releasing mod => [.candidate, .active mod]
  | .removing _ file _ | .removed _ file _ | .failing file => [file]
  | _ => []

/-- The content may take the place of what a file has: something else that is not a hotfix, or
a hotfix of an earlier revision. -/
def Replaces (revision : HotfixRevision Content) (current : Option Content) (content : Content) :
    Prop :=
  ∀ c, current = some c → c ≠ content ∧
    ∃ incoming, revision content = some incoming ∧ mayReplace revision incoming c = true

/-- If nothing was cached since a discard began, the files that it has been at are gone. -/
structure Cleared (files : CacheFile → Option Content) (cached : List Content) (begun : Nat)
    (todo : List CacheFile) : Prop where
  le : begun ≤ cached.length
  first : .candidate ∈ todo → todo = CacheFile.all
  gone : begun = cached.length → ∀ f, f ∉ todo → files f = none

/-- What a thread knows of the files. -/
def Knows (revision : HotfixRevision Content) (files : CacheFile → Option Content)
    (cached : List Content) : CacheLocal Content → Prop
  | .storing content => Replaces revision (files .candidate) content
  | .wantActive _ _ content r => files .candidate = some content ∧ revision content = some r
  | .judging _ _ content r => files .candidate = some content ∧ revision content = some r
  | .publishing mod validate content =>
    files .candidate = some content ∧ validate content = true ∧
      Replaces revision (files (.active mod)) content
  | .discarding begun todo => Cleared files cached begun todo
  | .removing begun file todo => Cleared files cached begun (file :: todo)
  | .removed begun _ todo => Cleared files cached begun todo
  | _ => True

/-- What is true of a thread. -/
structure Standing (revision : HotfixRevision Content) (t : Nat) (s : PatternCache Content)
    (l : CacheLocal Content) : Prop where
  locks : ∀ f ∈ l.held, s.locks f = some t
  knows : Knows revision s.files s.cached l

/-- What is true of the files. -/
structure CacheInv (s : PatternCache Content) : Prop where
  candidate : ∀ c, s.files .candidate = some c → c ∈ s.cached
  active : ∀ mod c, s.files (.active mod) = some c →
    c ∈ s.cached ∧ ∃ validate, s.validatedBy mod = some validate ∧ validate c = true
  completed : ∀ n ∈ s.completed, n ≤ s.cached.length ∧
    (n = s.cached.length → ∀ f, s.files f = none)

/-- What a step can do to one file: nothing, remove it, or publish something in its place. -/
def Forward (revision : HotfixRevision Content) (s s' : PatternCache Content) (f : CacheFile) :
    Prop :=
  (s'.files f = s.files f ∧ s'.removals f = s.removals f) ∨
  s'.removals f = s.removals f + 1 ∨
  (s'.removals f = s.removals f ∧ ∃ content, s'.files f = some content ∧
    content ∈ s'.cached ∧ Replaces revision (s.files f) content)

/-- What a thread guarantees of its steps. -/
structure CacheGuarantee (revision : HotfixRevision Content) (t : Nat)
    (s s' : PatternCache Content) : Prop where
  locks : ∀ f t', t' ≠ t → s.locks f = some t' → s'.locks f = some t'
  files : ∀ f, s'.files f = s.files f ∨ s.locks f = some t
  cached : s.cached.Sublist s'.cached
  appears : s.cached.length = s'.cached.length → s.files .candidate = none →
    ∀ f, s.files f = none → s'.files f = none
  forward : ∀ f, Forward revision s s' f

variable {revision : HotfixRevision Content} {t t' : Nat} {s s' : PatternCache Content}
  {l l' : CacheLocal Content}

variable {begun : Nat} {todo : List CacheFile} {mod : PatternModule} {validate : Content → Bool}
  {b c : Content}

/-- Another thread's step. -/
theorem Cleared.stable (hG : CacheGuarantee revision t s s')
    (h : Cleared s.files s.cached begun todo) : Cleared s'.files s'.cached begun todo := by
  have hle := hG.cached.length_le
  refine ⟨Nat.le_trans h.le hle, h.first, ?_⟩
  intro hsame f hf
  have hbegun := h.le
  -- nothing was cached, so the candidate is gone, and with it whoever could publish
  have hcandidate : CacheFile.candidate ∉ todo := by
    intro hin
    rw [h.first hin] at hf
    cases f with
    | candidate => exact hf (by decide)
    | active mod => cases mod <;> exact hf (by decide)
  refine hG.appears (by omega) (h.gone (by omega) _ hcandidate) f (h.gone (by omega) f hf)

theorem Standing.stable (hG : CacheGuarantee revision t s s') (ht : t' ≠ t)
    (h : Standing revision t' s l) : Standing revision t' s' l := by
  -- a file under a lock of this thread does not change
  have hmine {f : CacheFile} (hf : f ∈ l.held) : s'.files f = s.files f := by
    rcases hG.files f with hsame | hlock
    · exact hsame
    · rw [h.locks f hf] at hlock
      exact absurd (Option.some.inj hlock) ht
  refine ⟨fun f hf => hG.locks f t' ht (h.locks f hf), ?_⟩
  have hknows := h.knows
  cases l with
  | storing content =>
    show Replaces revision (s'.files .candidate) content
    rw [hmine List.mem_cons_self]
    exact hknows
  | wantActive mod validate content r =>
    show s'.files .candidate = some content ∧ _
    rw [hmine List.mem_cons_self]
    exact hknows
  | judging mod validate content r =>
    show s'.files .candidate = some content ∧ _
    rw [hmine List.mem_cons_self]
    exact hknows
  | publishing mod validate content =>
    show s'.files .candidate = some content ∧ validate content = true ∧
      Replaces revision (s'.files (.active mod)) content
    rw [hmine List.mem_cons_self, hmine (List.mem_cons_of_mem _ List.mem_cons_self)]
    exact hknows
  | discarding begun todo => exact Cleared.stable hG hknows
  | removing begun file todo => exact Cleared.stable hG hknows
  | removed begun file todo => exact Cleared.stable hG hknows
  | _ => trivial

/-! ## What the pieces of a step guarantee -/

theorem guarantee_refl (revision : HotfixRevision Content) (t : Nat) (s : PatternCache Content) :
    CacheGuarantee revision t s s :=
  ⟨fun _ _ _ h => h, fun _ => .inl rfl, List.Sublist.refl _, fun _ _ _ h => h,
    fun _ => .inl ⟨rfl, rfl⟩⟩

variable {file f : CacheFile} {content a : Content}

theorem guarantee_lock (h : s.locks file = none) : CacheGuarantee revision t s (s.lock file t) := by
  refine { guarantee_refl revision t s with locks := ?_ }
  intro f t' _ hf
  show Function.update s.locks file (some t) f = some t'
  by_cases heq : f = file
  · rw [heq, h] at hf
    cases hf
  · rw [Function.update_of_ne heq]
    exact hf

theorem guarantee_unlock (h : s.locks file = some t) :
    CacheGuarantee revision t s (s.unlock file) := by
  refine { guarantee_refl revision t s with locks := ?_ }
  intro f t' ht hf
  show Function.update s.locks file none f = some t'
  by_cases heq : f = file
  · rw [heq, h] at hf
    exact absurd (Option.some.inj hf).symm ht
  · rw [Function.update_of_ne heq]
    exact hf

/-- The two publications: only one file changes, under its lock, and for the better. -/
theorem forward_update {cached : List Content}
    {validatedBy : PatternModule → Option (Content → Bool)} (hmem : content ∈ cached)
    (hreplaces : Replaces revision (s.files file) content) (f : CacheFile) :
    Forward revision s { s with
      files := Function.update s.files file (some content)
      cached := cached
      validatedBy := validatedBy } f := by
  by_cases heq : f = file
  · subst heq
    exact .inr (.inr ⟨rfl, content, Function.update_self .., hmem, hreplaces⟩)
  · exact .inl ⟨Function.update_of_ne heq .., rfl⟩

theorem guarantee_store (hlock : s.locks .candidate = some t)
    (hreplaces : Replaces revision (s.files .candidate) content) :
    CacheGuarantee revision t s (s.storeCandidate content) where
  locks := fun _ _ _ h => h
  files := by
    intro f
    by_cases heq : f = .candidate
    · exact .inr (heq ▸ hlock)
    · exact .inl (Function.update_of_ne heq ..)
  cached := List.sublist_append_left _ _
  appears := by
    intro hlength
    have hlonger : (s.cached ++ [content]).length = s.cached.length + 1 := List.length_append
    have hlength : s.cached.length = (s.cached ++ [content]).length := hlength
    omega
  forward := forward_update (List.mem_append_right _ (List.mem_singleton_self content)) hreplaces

theorem guarantee_publish (hI : CacheInv s) (hlock : s.locks (.active mod) = some t)
    (hcandidate : s.files .candidate = some content)
    (hreplaces : Replaces revision (s.files (.active mod)) content) :
    CacheGuarantee revision t s (s.publishActive mod validate content) where
  locks := fun _ _ _ h => h
  files := by
    intro f
    by_cases heq : f = .active mod
    · exact .inr (heq ▸ hlock)
    · exact .inl (Function.update_of_ne heq ..)
  cached := List.Sublist.refl _
  appears := by
    intro _ hnone
    rw [hcandidate] at hnone
    cases hnone
  forward := forward_update (hI.candidate content hcandidate) hreplaces

theorem guarantee_remove (hlock : s.locks file = some t) :
    CacheGuarantee revision t s (s.remove file) where
  locks := fun _ _ _ h => h
  files := by
    intro f
    by_cases heq : f = file
    · exact .inr (heq ▸ hlock)
    · exact .inl (Function.update_of_ne heq ..)
  cached := List.Sublist.refl _
  appears := by
    intro _ _ f hf
    show Function.update s.files file none f = none
    by_cases heq : f = file
    · rw [heq, Function.update_self]
    · rw [Function.update_of_ne heq]
      exact hf
  forward := by
    intro f
    by_cases heq : f = file
    · subst heq
      exact .inr (.inl (Function.update_self ..))
    · exact .inl ⟨Function.update_of_ne heq .., Function.update_of_ne heq ..⟩

theorem CacheInv.store (hI : CacheInv s) (content : Content) :
    CacheInv (s.storeCandidate content) where
  candidate := by
    intro c hc
    have hc : Function.update s.files .candidate (some content) .candidate = some c := hc
    rw [Function.update_self] at hc
    cases hc
    exact List.mem_append_right _ (List.mem_singleton_self content)
  active := by
    intro mod c hc
    have hc : Function.update s.files .candidate (some content) (.active mod) = some c := hc
    have hne : CacheFile.active mod ≠ .candidate := fun h => nomatch h
    rw [Function.update_of_ne hne] at hc
    obtain ⟨hmem, hvalidated⟩ := hI.active mod c hc
    exact ⟨List.mem_append_left _ hmem, hvalidated⟩
  completed := by
    intro n hn
    have hle := (hI.completed n hn).1
    have hlonger : (s.cached ++ [content]).length = s.cached.length + 1 := List.length_append
    refine ⟨?_, fun heq => ?_⟩
    · show n ≤ (s.cached ++ [content]).length
      omega
    · have heq : n = (s.cached ++ [content]).length := heq
      omega

theorem CacheInv.publish (hI : CacheInv s) (hcandidate : s.files .candidate = some content)
    (hvalid : validate content = true) :
    CacheInv (s.publishActive mod validate content) where
  candidate := by
    intro c hc
    have hc : Function.update s.files (.active mod) (some content) .candidate = some c := hc
    have hne : CacheFile.candidate ≠ .active mod := fun h => nomatch h
    rw [Function.update_of_ne hne] at hc
    exact hI.candidate c hc
  active := by
    intro m c hc
    have hc : Function.update s.files (.active mod) (some content) (.active m) = some c := hc
    show c ∈ s.cached ∧ ∃ v, Function.update s.validatedBy mod (some validate) m = some v ∧ _
    by_cases heq : m = mod
    · subst heq
      rw [Function.update_self] at hc
      cases hc
      exact ⟨hI.candidate content hcandidate, validate, Function.update_self .., hvalid⟩
    · rw [Function.update_of_ne fun h => heq (CacheFile.active.inj h)] at hc
      rw [Function.update_of_ne heq]
      exact hI.active m c hc
  completed := by
    intro n hn
    obtain ⟨hle, hgone⟩ := hI.completed n hn
    refine ⟨hle, fun heq => ?_⟩
    -- a candidate that is there was cached after the discard
    have hnone := hgone heq .candidate
    rw [hcandidate] at hnone
    cases hnone

theorem CacheInv.remove (hI : CacheInv s) (file : CacheFile) : CacheInv (s.remove file) := by
  have hfile (f : CacheFile) : Function.update s.files file none f = none ∨
      Function.update s.files file none f = s.files f := by
    by_cases heq : f = file
    · exact .inl (by rw [heq, Function.update_self])
    · exact .inr (Function.update_of_ne heq ..)
  refine ⟨fun c hc => ?_, fun mod c hc => ?_, fun n hn => ?_⟩
  · have hc : Function.update s.files file none .candidate = some c := hc
    rcases hfile .candidate with hnone | hsame
    · rw [hnone] at hc
      cases hc
    · rw [hsame] at hc
      exact hI.candidate c hc
  · have hc : Function.update s.files file none (.active mod) = some c := hc
    rcases hfile (.active mod) with hnone | hsame
    · rw [hnone] at hc
      cases hc
    · rw [hsame] at hc
      exact hI.active mod c hc
  · obtain ⟨hle, hgone⟩ := hI.completed n hn
    refine ⟨hle, fun heq f => ?_⟩
    show Function.update s.files file none f = none
    rcases hfile f with hnone | hsame
    · exact hnone
    · rw [hsame]
      exact hgone heq f

/-! ## Steps -/

/-- What a step has to show. -/
def Own (revision : HotfixRevision Content) (t : Nat) (s s' : PatternCache Content)
    (l' : CacheLocal Content) : Prop :=
  CacheGuarantee revision t s s' ∧ CacheInv s' ∧ Standing revision t s' l'

/-- A step that leaves the cache as it is and gives up no lock. -/
theorem own_quiet (hI : CacheInv s) (hlocks : ∀ f ∈ l'.held, s.locks f = some t)
    (hknows : Knows revision s.files s.cached l') : Own revision t s s l' :=
  ⟨guarantee_refl revision t s, hI, hlocks, hknows⟩

theorem own_lock (hI : CacheInv s) (hfree : s.locks file = none)
    (hlocks : ∀ f ∈ l'.held, f = file ∨ s.locks f = some t)
    (hknows : Knows revision s.files s.cached l') : Own revision t s (s.lock file t) l' := by
  refine ⟨guarantee_lock hfree, ⟨hI.candidate, hI.active, hI.completed⟩, fun f hf => ?_, hknows⟩
  show Function.update s.locks file (some t) f = some t
  by_cases heq : f = file
  · rw [heq, Function.update_self]
  · rw [Function.update_of_ne heq]
    exact (hlocks f hf).resolve_left heq

theorem own_unlock (hI : CacheInv s) (hlock : s.locks file = some t)
    (hlocks : ∀ f ∈ l'.held, f ≠ file ∧ s.locks f = some t)
    (hknows : Knows revision s.files s.cached l') : Own revision t s (s.unlock file) l' := by
  refine ⟨guarantee_unlock hlock, ⟨hI.candidate, hI.active, hI.completed⟩, fun f hf => ?_, hknows⟩
  show Function.update s.locks file none f = some t
  obtain ⟨hne, hlock⟩ := hlocks f hf
  rw [Function.update_of_ne hne]
  exact hlock

/-- One more file is gone. -/
theorem Cleared.remove (h : Cleared s.files s.cached begun (file :: todo)) :
    Cleared (s.remove file).files (s.remove file).cached begun todo := by
  refine ⟨h.le, fun hin => ?_, fun hsame f hf => ?_⟩
  · -- the candidate is the first of them
    obtain ⟨_, htodo⟩ := List.cons.inj (h.first (List.mem_cons_of_mem _ hin))
    rw [htodo] at hin
    exact absurd hin (by decide)
  · show Function.update s.files file none f = none
    by_cases heq : f = file
    · rw [heq, Function.update_self]
    · rw [Function.update_of_ne heq]
      refine h.gone hsame f fun hin => ?_
      rcases List.mem_cons.mp hin with hin | hin
      · exact heq hin
      · exact hf hin

theorem discardStep_own (h : discardStep t s l = some (s', l')) (hI : CacheInv s)
    (hL : Standing revision t s l) : Own revision t s s' l' := by
  have hlocks := hL.locks
  have hknows := hL.knows
  cases l with
  | discarding begun todo =>
    cases todo with
    | nil =>
      cases h
      have hcleared : Cleared s.files s.cached begun [] := hknows
      refine ⟨{ guarantee_refl revision t s with }, ⟨hI.candidate, hI.active, ?_⟩, hlocks, trivial⟩
      intro n hn
      rcases List.mem_append.mp hn with hn | hn
      · exact hI.completed n hn
      · rw [List.mem_singleton.mp hn]
        exact ⟨hcleared.le, fun hsame f => hcleared.gone hsame f List.not_mem_nil⟩
    | cons file todo =>
      simp only [discardStep] at h
      split at h
      · rename_i hfree
        cases h
        exact own_lock hI hfree (fun f hf => .inl (List.mem_singleton.mp hf)) hknows
      · cases h
  | removing begun file todo =>
    cases h
    have hlock := hlocks file List.mem_cons_self
    exact ⟨guarantee_remove hlock, hI.remove file, hlocks, Cleared.remove hknows⟩
  | removed begun file todo =>
    cases h
    exact own_unlock hI (hlocks file List.mem_cons_self)
      (fun f hf => absurd hf List.not_mem_nil) hknows
  | failing file =>
    cases h
    exact own_unlock hI (hlocks file List.mem_cons_self)
      (fun f hf => absurd hf List.not_mem_nil) trivial
  | _ => cases h

/-- After an error a thread holds what it held, or less than it needs no more. -/
theorem afterError_own (h : l.afterError = some l') (hI : CacheInv s)
    (hL : Standing revision t s l) : Own revision t s s l' := by
  have hlocks := hL.locks
  cases l with
  | caching _ | promoting _ _ | discarding _ _ =>
    cases h
    exact own_quiet hI (fun f hf => absurd hf List.not_mem_nil) trivial
  | comparing _ | storing _ | reading _ _ | wantActive _ _ _ _ | judging _ _ _ _
  | publishing _ _ _ | removing _ _ _ =>
    cases h
    exact own_quiet hI hlocks trivial
  | _ => cases h

theorem startCache_own {action : CacheAction Content} (h : startCache s action = some (s', l'))
    (hI : CacheInv s) : Own revision t s s' l' := by
  cases action with
  | cacheCandidate content =>
    cases h
    exact own_quiet hI (fun f hf => absurd hf List.not_mem_nil) trivial
  | promote mod validate =>
    cases h
    exact own_quiet hI (fun f hf => absurd hf List.not_mem_nil) trivial
  | discard =>
    cases h
    refine own_quiet hI (fun f hf => absurd hf List.not_mem_nil)
      ⟨Nat.le_refl _, fun _ => rfl, fun _ f hf => ?_⟩
    cases f with
    | candidate => exact absurd hf (by decide)
    | active mod => cases mod <;> exact absurd hf (by decide)
  | _ => cases h

variable [DecidableEq Content]

theorem cacheStep_own (h : cacheStep revision t s l = some (s', l')) (hI : CacheInv s)
    (hL : Standing revision t s l) : Own revision t s s' l' := by
  cases l with
  | caching content =>
    simp only [cacheStep] at h
    split at h
    · rename_i hfree
      cases h
      exact own_lock hI hfree (fun f hf => .inl (List.mem_singleton.mp hf)) trivial
    · cases h
  | comparing content =>
    have hlocks := hL.locks
    simp only [cacheStep] at h
    split at h
    · cases h
      exact own_quiet hI hlocks trivial
    · rename_i incoming hincoming
      split at h
      · rename_i hnone
        cases h
        refine own_quiet hI hlocks fun c hc => ?_
        rw [hnone] at hc
        cases hc
      · rename_i current hcurrent
        split at h
        · cases h
          exact own_quiet hI hlocks trivial
        · rename_i hne
          split at h
          · rename_i hmay
            cases h
            refine own_quiet hI hlocks fun c hc => ?_
            rw [hcurrent] at hc
            cases hc
            exact ⟨hne, incoming, hincoming, hmay⟩
          · cases h
            exact own_quiet hI hlocks trivial
  | storing content =>
    cases h
    have hlock := hL.locks .candidate List.mem_cons_self
    exact ⟨guarantee_store hlock hL.knows, hI.store content, hL.locks, trivial⟩
  | unlocking =>
    cases h
    exact own_unlock hI (hL.locks .candidate List.mem_cons_self)
      (fun f hf => absurd hf List.not_mem_nil) trivial
  | _ => cases h

theorem promoteStep_own (h : promoteStep revision t s l = some (s', l')) (hI : CacheInv s)
    (hL : Standing revision t s l) : Own revision t s s' l' := by
  have hlocks := hL.locks
  have hknows := hL.knows
  cases l with
  | promoting mod validate =>
    simp only [promoteStep] at h
    split at h
    · rename_i hfree
      cases h
      exact own_lock hI hfree (fun f hf => .inl (List.mem_singleton.mp hf)) trivial
    · cases h
  | reading mod validate =>
    simp only [promoteStep] at h
    split at h
    · cases h
      exact own_quiet hI hlocks trivial
    · rename_i content hcontent
      split at h
      · cases h
        exact own_quiet hI hlocks trivial
      · rename_i r hr
        cases h
        exact own_quiet hI hlocks ⟨hcontent, hr⟩
  | wantActive mod validate content r =>
    simp only [promoteStep] at h
    split at h
    · rename_i hfree
      cases h
      refine own_lock hI hfree (fun f hf => ?_) hknows
      rcases List.mem_cons.mp hf with hf | hf
      · exact .inr (hf ▸ hlocks .candidate List.mem_cons_self)
      · exact .inl (List.mem_singleton.mp hf)
    · cases h
  | judging mod validate content r =>
    obtain ⟨hcandidate, hr⟩ := hknows
    simp only [promoteStep] at h
    split at h
    · rename_i hnone
      split at h
      · rename_i hvalid
        cases h
        refine own_quiet hI hlocks ⟨hcandidate, hvalid, fun c hc => ?_⟩
        rw [hnone] at hc
        cases hc
      · cases h
        exact own_quiet hI hlocks trivial
    · rename_i active hactive
      split at h
      · cases h
        exact own_quiet hI hlocks trivial
      · rename_i hne
        split at h
        · rename_i hboth
          obtain ⟨hmay, hvalid⟩ := Bool.and_eq_true_iff.mp hboth
          cases h
          refine own_quiet hI hlocks ⟨hcandidate, hvalid, fun c hc => ?_⟩
          rw [hactive] at hc
          cases hc
          exact ⟨hne, r, hr, hmay⟩
        · cases h
          exact own_quiet hI hlocks trivial
  | publishing mod validate content =>
    obtain ⟨hcandidate, hvalid, hreplaces⟩ := hknows
    cases h
    have hlock := hlocks (.active mod) (List.mem_cons_of_mem _ List.mem_cons_self)
    exact ⟨guarantee_publish hI hlock hcandidate hreplaces, hI.publish hcandidate hvalid,
      hlocks, trivial⟩
  | releasing mod =>
    cases h
    refine own_unlock hI (hlocks (.active mod) (List.mem_cons_of_mem _ List.mem_cons_self))
      (fun f hf => ?_) trivial
    rw [List.mem_singleton.mp hf]
    exact ⟨fun h => (nomatch h), hlocks .candidate List.mem_cons_self⟩
  | _ => cases h

theorem pattern_outline (revision : HotfixRevision Content) :
    (patternThreads revision).Outline (fun _ => True) CacheInv (Standing revision)
      (CacheGuarantee revision) where
  back := fun _ _ => trivial
  own := by
    intro t action s l s' l' hstep _ hI hL
    have hstep : patternStep revision t action s l = some (s', l') := hstep
    unfold patternStep at hstep
    split at hstep
    · exact startCache_own hstep hI
    · obtain ⟨out, hout, heq⟩ := Option.map_eq_some_iff.mp hstep
      cases heq
      exact afterError_own hout hI hL
    · rcases Option.or_eq_some_iff.mp hstep with hstep | ⟨_, hstep⟩
      · exact cacheStep_own hstep hI hL
      · rcases Option.or_eq_some_iff.mp hstep with hstep | ⟨_, hstep⟩
        · exact promoteStep_own hstep hI hL
        · exact discardStep_own hstep hI hL
    · cases hstep
  stable := fun hG ht hL => hL.stable hG ht

theorem pattern_holds (revision : HotfixRevision Content)
    (actions : List (Nat × CacheAction Content)) :
    Threads.Holds CacheInv (Standing revision) (patternsAfter revision actions) := by
  have hstart : Threads.Holds CacheInv (Standing revision)
      ⟨PatternCache.empty, fun _ => CacheLocal.idle⟩ :=
    ⟨⟨fun _ h => (nomatch h), fun _ _ h => (nomatch h), fun _ h => absurd h List.not_mem_nil⟩,
      fun _ => ⟨fun _ h => absurd h List.not_mem_nil, trivial⟩⟩
  exact (pattern_outline revision).run hstart actions trivial

/-! ## Revisions -/

/-- The same content, or one of a later revision. -/
def Later (revision : HotfixRevision Content) (a b : Content) : Prop :=
  a = b ∨ ∃ x y, revision a = some (some x) ∧ revision b = some (some y) ∧ x < y

omit [DecidableEq Content] in
theorem Later.trans (hab : Later revision a b) (hbc : Later revision b c) : Later revision a c := by
  rcases hab with rfl | ⟨x, y, hx, hy, hlt⟩
  · exact hbc
  · rcases hbc with rfl | ⟨y', z, hy', hz, hlt'⟩
    · exact .inr ⟨x, y, hx, hy, hlt⟩
    · rw [hy] at hy'
      cases hy'
      exact .inr ⟨x, z, hx, hz, Nat.lt_trans hlt hlt'⟩

/-- Every content declares a revision. -/
def Declared (revision : HotfixRevision Content) (contents : List Content) : Prop :=
  ∀ c ∈ contents, ∃ r, revision c = some (some r)

omit [DecidableEq Content] in
theorem Replaces.later (h : Replaces revision (some a) b) (ha : ∃ r, revision a = some (some r))
    (hb : ∃ r, revision b = some (some r)) : Later revision a b := by
  obtain ⟨x, hx⟩ := ha
  obtain ⟨y, hy⟩ := hb
  obtain ⟨_, incoming, hincoming, hmay⟩ := h a rfl
  rw [hy] at hincoming
  cases hincoming
  unfold mayReplace at hmay
  rw [hx] at hmay
  exact .inr ⟨x, y, hx, hy, of_decide_eq_true hmay⟩

omit [DecidableEq Content] in
theorem CacheInv.mem_cached (hI : CacheInv s) (h : s.files f = some c) : c ∈ s.cached := by
  cases f with
  | candidate => exact hI.candidate c h
  | active mod => exact (hI.active mod c h).1

omit [DecidableEq Content] in
theorem Forward.removals_le (h : Forward revision s s' f) : s.removals f ≤ s'.removals f := by
  rcases h with ⟨_, h⟩ | h | ⟨h, _⟩
  · exact Nat.le_of_eq h.symm
  · rw [h]
    exact Nat.le_succ _
  · exact Nat.le_of_eq h.symm

omit [DecidableEq Content] in
/-- A step that does not remove the file leaves it or moves it forward. -/
theorem Forward.later (h : Forward revision s s' f) (hI : CacheInv s)
    (hcached : s.cached.Sublist s'.cached) (hdeclared : Declared revision s'.cached)
    (hkept : s'.removals f = s.removals f) (ha : s.files f = some a) :
    ∃ b, s'.files f = some b ∧ Later revision a b := by
  rcases h with ⟨hsame, _⟩ | hremoved | ⟨_, content, hcontent, hmem, hreplaces⟩
  · exact ⟨a, hsame.trans ha, .inl rfl⟩
  · omega
  · rw [ha] at hreplaces
    have hdeclaredA := hdeclared a (hcached.subset (hI.mem_cached ha))
    exact ⟨content, hcontent, hreplaces.later hdeclaredA (hdeclared content hmem)⟩

/-- One action, if it did anything. -/
theorem pattern_guarantee (revision : HotfixRevision Content)
    (actions : List (Nat × CacheAction Content)) (e : Nat × CacheAction Content) :
    (patternsAfter revision (actions ++ [e])).shared = (patternsAfter revision actions).shared ∨
      CacheGuarantee revision e.1 (patternsAfter revision actions).shared
        (patternsAfter revision (actions ++ [e])).shared := by
  have hrun : patternsAfter revision (actions ++ [e]) =
      (patternThreads revision).act (patternsAfter revision actions) e :=
    Threads.run_concat ..
  rw [hrun]
  rcases (pattern_outline revision).guarantee (pattern_holds revision actions) trivial with h | h
  · exact .inl (congrArg System.shared h)
  · exact .inr h

/-- As long as a file is not removed, its content only becomes later. -/
theorem files_later (revision : HotfixRevision Content)
    (actions more : List (Nat × CacheAction Content)) (f : CacheFile)
    (hdeclared : Declared revision (patternsAfter revision (actions ++ more)).shared.cached) :
    (patternsAfter revision actions).shared.removals f ≤
        (patternsAfter revision (actions ++ more)).shared.removals f ∧
      ((patternsAfter revision (actions ++ more)).shared.removals f =
          (patternsAfter revision actions).shared.removals f →
        ∀ a, (patternsAfter revision actions).shared.files f = some a →
          ∃ b, (patternsAfter revision (actions ++ more)).shared.files f = some b ∧
            Later revision a b) := by
  induction more using List.reverseRecOn with
  | nil =>
    rw [List.append_nil]
    exact ⟨Nat.le_refl _, fun _ a ha => ⟨a, ha, .inl rfl⟩⟩
  | append_singleton more e ih =>
    rw [← List.append_assoc] at hdeclared ⊢
    rcases pattern_guarantee revision (actions ++ more) e with hsame | hG
    · rw [hsame] at hdeclared ⊢
      exact ih hdeclared
    · have hbefore : Declared revision (patternsAfter revision (actions ++ more)).shared.cached :=
        fun c hc => hdeclared c (hG.cached.subset hc)
      obtain ⟨hle, hlater⟩ := ih hbefore
      have hle' := (hG.forward f).removals_le
      refine ⟨Nat.le_trans hle hle', fun hkept a ha => ?_⟩
      obtain ⟨b, hb, hab⟩ := hlater (by omega) a ha
      have hI := (pattern_holds revision (actions ++ more)).shared
      obtain ⟨c, hc, hbc⟩ := (hG.forward f).later hI hG.cached hdeclared (by omega) hb
      exact ⟨c, hc, hab.trans hbc⟩

end Outline

/-- The cache only moves forward: what is active was a candidate and is validated; between two
removals of a file its revision does not decrease, and stays the same only with its content;
and after a discard during and since which nothing was cached, nothing is there. -/
theorem online_cache_forward {Content : Type} [DecidableEq Content]
    (revision : HotfixRevision Content) (actions : List (Nat × CacheAction Content)) :
    (∀ mod c, (patternsAfter revision actions).shared.files (.active mod) = some c →
      c ∈ (patternsAfter revision actions).shared.cached ∧
      ∃ validate, (patternsAfter revision actions).shared.validatedBy mod = some validate ∧
        validate c = true) ∧
    (∀ more, Declared revision (patternsAfter revision (actions ++ more)).shared.cached →
      ∀ f, (patternsAfter revision (actions ++ more)).shared.removals f =
          (patternsAfter revision actions).shared.removals f →
      ∀ a, (patternsAfter revision actions).shared.files f = some a →
        ∃ b x y, (patternsAfter revision (actions ++ more)).shared.files f = some b ∧
          revision a = some (some x) ∧ revision b = some (some y) ∧ x ≤ y ∧ (x = y → a = b)) ∧
    ∀ n ∈ (patternsAfter revision actions).shared.completed,
      n = (patternsAfter revision actions).shared.cached.length →
        ∀ f, (patternsAfter revision actions).shared.files f = none := by
  have hI := (pattern_holds revision actions).shared
  refine ⟨hI.active, ?_, fun n hn => (hI.completed n hn).2⟩
  intro more hdeclared f hkept a ha
  obtain ⟨b, hb, hlater⟩ := (files_later revision actions more f hdeclared).2 hkept a ha
  have hI' := (pattern_holds revision (actions ++ more)).shared
  obtain ⟨y, hy⟩ := hdeclared b (hI'.mem_cached hb)
  rcases hlater with rfl | ⟨x, y', hx, hy', hlt⟩
  · exact ⟨a, y, y, hb, hy, hy, Nat.le_refl _, fun _ => rfl⟩
  · rw [hy] at hy'
    cases hy'
    exact ⟨b, x, y, hb, hx, hy, Nat.le_of_lt hlt, fun heq => absurd heq (Nat.ne_of_lt hlt)⟩

/-- A thread that is told to go on, some times. -/
def goOn {Content : Type} (t n : Nat) : List (Nat × CacheAction Content) :=
  List.replicate n (t, .next)

/-- A hotfix is promoted, and a later one is promoted in its place. -/
def twoHotfixes : List (Nat × CacheAction Nat) × List (Nat × CacheAction Nat) :=
  ([(0, .cacheCandidate 50)] ++ goOn 0 4 ++
      [(1, .promote .steamclient fun c => c % 10 == 0)] ++ goOn 1 7,
    [(0, .cacheCandidate 60)] ++ goOn 0 4 ++
      [(1, .promote .steamclient fun c => c % 10 == 0)] ++ goOn 1 7)

theorem later_hotfix_promoted :
    ∃ b x y, (patternsAfter (fun c => some (some (c / 10)))
        (twoHotfixes.1 ++ twoHotfixes.2)).shared.files (.active .steamclient) = some b ∧
      (50 : Nat) / 10 = x ∧ b / 10 = y ∧ x ≤ y ∧ (x = y → 50 = b) := by
  have hforward := (online_cache_forward (fun c => some (some (c / 10))) twoHotfixes.1).2.1
    twoHotfixes.2 (fun c _ => ⟨c / 10, rfl⟩) (.active .steamclient) rfl 50 rfl
  obtain ⟨b, x, y, hb, hx, hy, hle, hsame⟩ := hforward
  exact ⟨b, x, y, hb, Option.some.inj (Option.some.inj hx), Option.some.inj (Option.some.inj hy),
    hle, hsame⟩

/-- After a discard the candidate may be another content of the revision that it had before. -/
theorem revision_returns_after_discard :
    let first : List (Nat × CacheAction Nat) := [(0, .cacheCandidate 50)] ++ goOn 0 4
    let second := first ++ [(1, .discard)] ++ goOn 1 10 ++ [(0, .cacheCandidate 51)] ++ goOn 0 4
    let revision : HotfixRevision Nat := fun c => some (some (c / 10))
    (patternsAfter revision first).shared.files .candidate = some 50 ∧
      (patternsAfter revision second).shared.files .candidate = some 51 ∧
      revision 50 = revision 51 ∧
      Declared revision (patternsAfter revision second).shared.cached := by
  exact ⟨rfl, rfl, rfl, fun c _ => ⟨c / 10, rfl⟩⟩

end VaporForge.Features
