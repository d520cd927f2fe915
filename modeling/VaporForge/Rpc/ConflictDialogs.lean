import VaporForge.Rpc.ConflictRun

/-!
# Dialogs of the conflict chooser

The tables of the coordinator (pending conflicts, shown dialogs, token bindings)
are pruned by key, by window, by context and by epoch in different methods. What
has to stay true of them is one invariant, `DialogsInv`:

> A token belongs to a dialog that is on screen; a dialog on screen is about a
> conflict that is pending and not being resolved, and has exactly one button per
> head and one to cancel.

Every operation keeps it but one, `FailsWhileShown`: a failed `finish_choice`
forgets that dialogs are shown without dropping their bindings. That matters when
the conflict was registered again, and shown again, while the resolver was still
working on the old choice.
-/

namespace VaporForge.Rpc

open VaporForge.CloudCore
open VaporForge.Local (CommitIdentity StoreView ManifestCandidate)
open Lib (Assoc Arrangement)

/-! ## The buttons of a dialog -/

/-- The heads the tokens of one key stand for in one window. -/
def headsOf (bindings : Assoc String Binding) (key : ConflictKey) (context : UiContext) :
    List String :=
  (bindings.entries.filter fun e => e.2.key = key ∧ e.2.context = context).map (·.2.head)

variable {token : String} {s : ConflictState} {pending : Assoc ConflictKey PendingConflict}

theorem mem_headsOf {bindings : Assoc String Binding} {b : Binding}
    (h : bindings.lookup token = some b) : b.head ∈ headsOf bindings b.key b.context := by
  have hentry := Assoc.lookup_eq_some_iff.mp h
  refine List.mem_map.mpr ⟨⟨token, b⟩, List.mem_filter.mpr ⟨hentry, ?_⟩, rfl⟩
  simp

theorem exists_of_mem_headsOf {bindings : Assoc String Binding} {key : ConflictKey}
    {context : UiContext} {head : String} (h : head ∈ headsOf bindings key context) :
    ∃ token, bindings.lookup token = some ⟨key, head, context⟩ := by
  obtain ⟨⟨token, b⟩, hmem, rfl⟩ := List.mem_map.mp h
  obtain ⟨hentry, hb⟩ := List.mem_filter.mp hmem
  rw [decide_eq_true_eq] at hb
  refine ⟨token, Assoc.lookup_eq_some_iff.mpr ?_⟩
  rw [← hb.1, ← hb.2]
  exact hentry

theorem headsOf_insert {bindings : Assoc String Binding} (b : Binding) (hfresh : token ∉ bindings)
    (key : ConflictKey) (context : UiContext) :
    headsOf (bindings.insert token b) key context =
      if b.key = key ∧ b.context = context then b.head :: headsOf bindings key context
      else headsOf bindings key context := by
  unfold headsOf
  rw [AList.entries_insert_of_notMem hfresh, List.filter_cons]
  by_cases h : b.key = key ∧ b.context = context
  · rw [if_pos h, if_pos (decide_eq_true h), List.map_cons]
  · rw [if_neg h, if_neg (by simpa using h)]

/-- Pruning by key and window keeps or drops the buttons of a dialog together. -/
theorem headsOf_retain (q : ConflictKey × UiContext → Bool) (bindings : Assoc String Binding)
    (key : ConflictKey) (context : UiContext) :
    headsOf (bindings.retain fun _ b => q (b.key, b.context)) key context =
      if q (key, context) then headsOf bindings key context else [] := by
  unfold headsOf Assoc.retain
  dsimp only
  rw [List.filter_filter]
  by_cases h : q (key, context) = true
  · rw [if_pos h]
    congr 1
    refine List.filter_congr fun e _ => ?_
    by_cases he : e.2.key = key ∧ e.2.context = context
    · rw [he.1, he.2, h]
      simp
    · simp [he]
  · rw [if_neg h, List.map_eq_nil_iff, List.filter_eq_nil_iff]
    intro e _ he
    rw [Bool.and_eq_true, decide_eq_true_eq] at he
    rw [he.1.1, he.1.2] at he
    exact h he.2

/-! ## The invariant -/

/-- What the four tables have to do with each other. -/
structure DialogsInv (s : ConflictState) : Prop where
  /-- The candidates of a conflict are its heads. -/
  heads : ∀ key p, s.pending.lookup key = some p → p.heads = p.candidates.map (·.id)
  /-- A token belongs to a dialog that is on screen. -/
  bound : ∀ token b, s.bindings.lookup token = some b → (b.key, b.context) ∈ s.presented
  /-- A dialog on screen is about an unresolved conflict and has all its buttons. -/
  shown : ∀ key context, (key, context) ∈ s.presented →
    ∃ p, s.pending.lookup key = some p ∧ p.resolving = false ∧
      (headsOf s.bindings key context).Perm ("" :: p.heads)

theorem DialogsInv.initial : DialogsInv .initial where
  heads := fun key p h => absurd h (by simp [ConflictState.initial])
  bound := fun token b h => absurd h (by simp [ConflictState.initial])
  shown := fun key context h => absurd h (by simp [ConflictState.initial])

/-- Flags and minimum revisions of conflicts may change at will. -/
theorem DialogsInv.touch (h : DialogsInv s)
    (hsame : ∀ key, (pending.lookup key).map (fun p => (p.heads, p.candidates, p.resolving)) = (s.pending.lookup key).map fun p => (p.heads, p.candidates, p.resolving))
    :
    DialogsInv { s with pending } where
  heads := by
    intro key p' hp'
    have hk := hsame key
    rw [hp', Option.map_some] at hk
    obtain ⟨p, hp, heq⟩ := Option.map_eq_some_iff.mp hk.symm
    rw [Prod.mk.injEq, Prod.mk.injEq] at heq
    rw [← heq.1, ← heq.2.1]
    exact h.heads key p hp
  bound := h.bound
  shown := by
    intro key context hshown
    obtain ⟨p, hp, hres, hperm⟩ := h.shown key context hshown
    have hk := hsame key
    rw [hp, Option.map_some] at hk
    obtain ⟨p', hp', heq⟩ := Option.map_eq_some_iff.mp hk
    rw [Prod.mk.injEq, Prod.mk.injEq] at heq
    exact ⟨p', hp', heq.2.2.trans hres, heq.1 ▸ hperm⟩

/-- Taking dialogs off the screen together with their tokens. -/
theorem DialogsInv.prune (h : DialogsInv s) (q : ConflictKey × UiContext → Bool) :
    DialogsInv
      { s with
        bindings := s.bindings.retain fun _ b => q (b.key, b.context)
        presented := s.presented.filter fun shown => q shown = true } where
  heads := h.heads
  bound := by
    intro token b hb
    rw [Assoc.lookup_retain, Option.filter_eq_some_iff] at hb
    exact Finset.mem_filter.mpr ⟨h.bound token b hb.1, hb.2⟩
  shown := by
    intro key context hshown
    obtain ⟨hin, hq⟩ := Finset.mem_filter.mp hshown
    obtain ⟨p, hp, hres, hperm⟩ := h.shown key context hin
    refine ⟨p, hp, hres, ?_⟩
    show (headsOf (s.bindings.retain _) key context).Perm _
    rw [headsOf_retain, if_pos hq]
    exact hperm

/-- A conflict nobody is shown may be replaced or dropped. -/
theorem DialogsInv.replace (h : DialogsInv s) {key : ConflictKey}
    (hnone : ∀ context, (key, context) ∉ s.presented)
    (hother : ∀ key', key' ≠ key → pending.lookup key' = s.pending.lookup key')
    (hheads : ∀ p, pending.lookup key = some p → p.heads = p.candidates.map (·.id)) :
    DialogsInv { s with pending } where
  heads := by
    intro key' p hp
    by_cases hkey : key' = key
    · exact hheads p (hkey ▸ hp)
    · exact h.heads key' p (hother key' hkey ▸ hp)
  bound := h.bound
  shown := by
    intro key' context hshown
    have hkey : key' ≠ key := fun heq => hnone context (heq ▸ hshown)
    obtain ⟨p, hp, hrest⟩ := h.shown key' context hshown
    exact ⟨p, (hother key' hkey).trans hp, hrest⟩

theorem discardKeyBindings_eq (s : ConflictState) (key : ConflictKey) :
    discardKeyBindings s key =
      { s with
        bindings := s.bindings.retain fun _ b => (fun x : ConflictKey × UiContext => x.1 != key)
          (b.key, b.context)
        presented := s.presented.filter fun shown => (shown.1 != key) = true } := by
  unfold discardKeyBindings
  congr 1
  refine Finset.filter_congr fun shown _ => ?_
  rw [bne_iff_ne]

/-- Dropping the dialogs of a key makes room for any new entry under it. -/
theorem DialogsInv.discard (h : DialogsInv s) {key : ConflictKey}
    (hother : ∀ key', key' ≠ key → pending.lookup key' = s.pending.lookup key')
    (hheads : ∀ p, pending.lookup key = some p → p.heads = p.candidates.map (·.id)) :
    DialogsInv (discardKeyBindings { s with pending } key) := by
  have hpruned : DialogsInv (discardKeyBindings s key) := by
    rw [discardKeyBindings_eq]
    exact h.prune fun x => x.1 != key
  refine hpruned.replace (fun context hshown => ?_) hother hheads
  exact (Finset.mem_filter.mp hshown).2 rfl

/-! ## Registering, arming, submitting -/

theorem DialogsInv.register (h : DialogsInv s) (D : Digests) (settings : CloudSettings)
    (appId : Nat) (identity : CommitIdentity) (view : StoreView) (required : Bool)
    (minimumRevision : Nat) :
    DialogsInv (register D s settings appId identity view required minimumRevision) := by
  unfold Rpc.register
  split
  · exact h
  · next steamId64 _ =>
    split
    · unfold registerRequired
      dsimp only
      split
      · next current hcurrent =>
        split
        · refine h.touch fun key => ?_
          rw [Assoc.lookup_insert_eq]
          by_cases hkey : key = (steamId64, appId)
          · rw [if_pos hkey, hkey, hcurrent]
            rfl
          · rw [if_neg hkey]
        · refine h.discard (fun key' hkey => AList.lookup_insert_ne hkey) fun p hp => ?_
          rw [AList.lookup_insert, Option.some.injEq] at hp
          exact hp ▸ rfl
      · refine h.discard (fun key' hkey => AList.lookup_insert_ne hkey) fun p hp => ?_
        rw [AList.lookup_insert, Option.some.injEq] at hp
        exact hp ▸ rfl
    · refine h.discard (fun key' hkey => AList.lookup_erase_ne hkey) fun p hp => ?_
      rw [AList.lookup_erase] at hp
      exact absurd hp (by simp)

/-- Rewriting flags of the entry under a key. -/
theorem DialogsInv.adjustFlags (h : DialogsInv s) {key : ConflictKey} {p p' : PendingConflict}
    (hp : s.pending.lookup key = some p) (hheads : p'.heads = p.heads)
    (hcands : p'.candidates = p.candidates) (hres : p'.resolving = p.resolving) :
    DialogsInv { s with pending := s.pending.insert key p' } := by
  refine h.touch fun key' => ?_
  rw [Assoc.lookup_insert_eq]
  by_cases hkey : key' = key
  · rw [if_pos hkey, hkey, hp, Option.map_some, Option.map_some, hheads, hcands, hres]
  · rw [if_neg hkey]

theorem DialogsInv.armFirst (h : DialogsInv s) (D : Digests) (settings : CloudSettings)
    (key : ConflictKey) (identity : CommitIdentity) (view : StoreView) (minimumRevision : Nat) :
    DialogsInv (armFirst D s settings key identity view minimumRevision).1 := by
  unfold Rpc.armFirst
  split
  · next pending hpending =>
    split
    · exact h.adjustFlags hpending rfl rfl rfl
    · exact h
  · exact h

theorem DialogsInv.armLast (h : DialogsInv s) (key : ConflictKey) :
    DialogsInv (armLast s key).1 := by
  unfold Rpc.armLast
  split
  · next pending hpending => exact h.adjustFlags hpending rfl rfl rfl
  · exact h

/-- Acknowledgements play no part in the invariant. -/
theorem DialogsInv.withAcks (h : DialogsInv s) (acks : List PendingAck) :
    DialogsInv { s with acks } := ⟨h.heads, h.bound, h.shown⟩

theorem DialogsInv.erase (h : DialogsInv s) (key : ConflictKey) :
    DialogsInv (discardKeyBindings { s with pending := s.pending.erase key } key) := by
  refine h.discard (fun key' hkey => AList.lookup_erase_ne hkey) fun p hp => ?_
  rw [AList.lookup_erase] at hp
  exact absurd hp (by simp)

theorem DialogsInv.submit (h : DialogsInv s) (token : String) (context : UiContext) :
    DialogsInv (submit s token context).1 := by
  unfold Rpc.submit
  split
  · exact h
  · next binding _ =>
    split
    · split
      · exact h.erase binding.key
      · exact h
    · split
      · exact (h.erase binding.key).withAcks _
      · split
        · exact h
        · next pending hpending =>
          split
          · exact h
          · refine h.discard (fun key' hkey => AList.lookup_insert_ne hkey) fun p hp => ?_
            rw [AList.lookup_insert, Option.some.injEq] at hp
            exact hp ▸ h.heads binding.key pending hpending

theorem DialogsInv.retryDialog (h : DialogsInv s) (context : UiContext) (token : String) :
    DialogsInv (retryDialog s context token).1 := by
  unfold Rpc.retryDialog
  split
  · exact h
  · next binding _ =>
    have hpruned := h.prune fun x => x.1 != binding.key || x.2 != context
    have hsame : s.presented.erase (binding.key, context) =
        s.presented.filter fun x => (x.1 != binding.key || x.2 != context) = true := by
      ext x
      simp only [Finset.mem_erase, Finset.mem_filter, ne_eq, Bool.or_eq_true, bne_iff_ne,
        Prod.ext_iff, not_and_or]
      exact And.comm
    exact hsame ▸ hpruned

theorem DialogsInv.retryContext (h : DialogsInv s) (context : UiContext) :
    DialogsInv (retryContext s context) := by
  have hpruned := h.prune fun x => x.2 != context
  have hsame : s.presented.filter (fun x => x.2 ≠ context) =
      s.presented.filter fun x => (x.2 != context) = true :=
    Finset.filter_congr fun x _ => bne_iff_ne.symm
  unfold Rpc.retryContext
  rw [hsame]
  exact hpruned

theorem DialogsInv.retainUiWindows (h : DialogsInv s) (generations : List Nat) :
    DialogsInv (retainUiWindows s generations) := by
  have hpruned := h.prune fun x => generations.contains x.2.windowGeneration
  have hsame : s.presented.filter (fun x => x.2.windowGeneration ∈ generations) =
      s.presented.filter fun x => generations.contains x.2.windowGeneration = true :=
    Finset.filter_congr fun x _ => List.contains_iff_mem.symm
  exact (hsame ▸ hpruned).withAcks _

/-! ## Showing dialogs -/

section Dialogs

variable {mint : TokenMint}

/-- Tokens of different sequence numbers differ. -/
def TokenMint.Distinct (mint : TokenMint) : Prop :=
  ∀ ⦃n n' key key' label label' context context'⦄,
    mint n key label context = mint n' key' label' context' → n = n'

/-- No token from sequence number `n` on is in use. -/
def Unissued (mint : TokenMint) (n : Nat) (bindings : Assoc String Binding) : Prop :=
  ∀ n' key label context, n ≤ n' → mint n' key label context ∉ bindings

theorem Unissued.insert (hmint : mint.Distinct) {n : Nat} {bindings : Assoc String Binding}
    (h : Unissued mint n bindings) (key : ConflictKey) (label : String) (context : UiContext)
    (b : Binding) : Unissued mint (n + 1) (bindings.insert (mint n key label context) b) := by
  intro n' key' label' context' hle hmem
  rcases (AList.mem_insert bindings).mp hmem with heq | hold
  · have := hmint heq
    omega
  · exact h n' key' label' context' (by omega) hold

/-- What the candidates' loop adds to the bindings: one button per candidate,
under tokens that were not in use. -/
structure BoundButtons (mint : TokenMint) (key : ConflictKey) (context : UiContext)
    (candidates : List ManifestCandidate) (bindings : Assoc String Binding) (n : Nat)
    (out : List ConflictDialogCandidate × Assoc String Binding × Nat) : Prop where
  sequence : n ≤ out.2.2
  unissued : Unissued mint out.2.2 out.2.1
  heads : ∀ key' context', (headsOf out.2.1 key' context').Perm
    (if key = key' ∧ context = context' then
      candidates.map (·.id) ++ headsOf bindings key' context'
    else headsOf bindings key' context')
  old : ∀ token b, bindings.lookup token = some b → out.2.1.lookup token = some b
  new : ∀ token b, out.2.1.lookup token = some b → bindings.lookup token = some b ∨
    b.key = key ∧ b.context = context ∧ token ∈ out.1.map (·.token)
  tokens : ∀ token ∈ out.1.map (·.token), ∃ n' label, n ≤ n' ∧ n' < out.2.2 ∧
    token = mint n' key label context

theorem bindCandidates_spec (hmint : mint.Distinct) (key : ConflictKey) (context : UiContext)
    (identity : CommitIdentity) (candidates : List ManifestCandidate)
    (bindings : Assoc String Binding) (n : Nat) (h : Unissued mint n bindings) :
    BoundButtons mint key context candidates bindings n
      (bindCandidates mint key context identity candidates bindings n) := by
  induction candidates generalizing bindings n with
  | nil =>
    refine ⟨Nat.le_refl n, h, fun key' context' => ?_, fun _ _ hb => hb, fun _ _ hb => Or.inl hb,
      fun token htoken => absurd htoken (by simp [bindCandidates])⟩
    simp [bindCandidates]
  | cons candidate rest ih =>
    have hfresh := h n key candidate.id context (Nat.le_refl n)
    have hnext := h.insert hmint key candidate.id context ⟨key, candidate.id, context⟩
    have hrest := ih _ _ hnext
    unfold bindCandidates
    dsimp only
    refine ⟨Nat.le_of_succ_le hrest.sequence, hrest.unissued, fun key' context' => ?_,
      fun token b hb => ?_, fun token b hb => ?_, fun token htoken => ?_⟩
    · refine (hrest.heads key' context').trans ?_
      rw [headsOf_insert _ hfresh]
      by_cases hk : key = key' ∧ context = context'
      · simp only [if_pos hk, List.map_cons, List.cons_append]
        exact List.perm_middle
      · simp only [if_neg hk]
        exact .rfl
    · refine hrest.old token b ?_
      rw [AList.lookup_insert_ne]
      · exact hb
      · intro heq
        exact hfresh (heq ▸ AList.lookup_isSome.mp (Option.isSome_of_eq_some hb))
    · rcases hrest.new token b hb with hold | ⟨hkey, hcontext, hin⟩
      · rw [Assoc.lookup_insert_eq] at hold
        split at hold
        · next heq =>
          cases hold
          exact Or.inr ⟨rfl, rfl, by rw [List.map_cons, heq]; exact List.mem_cons_self ..⟩
        · exact Or.inl hold
      · exact Or.inr ⟨hkey, hcontext, List.mem_cons_of_mem _ hin⟩
    · rcases List.mem_cons.mp htoken with heq | hin
      · exact ⟨n, candidate.id, Nat.le_refl n, hrest.sequence, heq⟩
      · obtain ⟨n', label, hle, hlt, heq⟩ := hrest.tokens token hin
        exact ⟨n', label, by omega, hlt, heq⟩

/-- Where the loop over the keys has got to. -/
structure Presents (mint : TokenMint) (context : UiContext) (s : ConflictState) (n : Nat)
    (acc : ConflictState × Nat × List ConflictDialog) : Prop where
  pending : acc.1.pending = s.pending
  epoch : acc.1.epoch = s.epoch
  acks : acc.1.acks = s.acks
  inv : DialogsInv s → DialogsInv acc.1
  sequence : n ≤ acc.2.1
  unissued : Unissued mint acc.2.1 acc.1.bindings
  new : ∀ token b, acc.1.bindings.lookup token = some b → s.bindings.lookup token = some b ∨
    ⟨token, b.key, b.context⟩ ∈ acc.2.2.flatMap (issuedBy context)
  tokens : ∀ i ∈ acc.2.2.flatMap (issuedBy context), ∃ n' label, n ≤ n' ∧ n' < acc.2.1 ∧
    i.token = mint n' i.key label i.context
  unique : ∀ i ∈ acc.2.2.flatMap (issuedBy context), ∀ j ∈ acc.2.2.flatMap (issuedBy context),
    i.token = j.token → i = j

theorem Presents.start {context : UiContext} {n : Nat} (hfresh : Unissued mint n s.bindings) :
    Presents mint context s n (s, n, []) where
  pending := rfl
  epoch := rfl
  acks := rfl
  inv := id
  sequence := Nat.le_refl n
  unissued := hfresh
  new := fun _ _ hb => Or.inl hb
  tokens := fun i hi => absurd hi (by simp)
  unique := fun i hi => absurd hi (by simp)

/-- A dialog of a window it was not shown in has no buttons there yet. -/
theorem DialogsInv.headsOf_eq_nil (h : DialogsInv s) {key : ConflictKey} {context : UiContext}
    (hnot : (key, context) ∉ s.presented) : headsOf s.bindings key context = [] := by
  refine List.eq_nil_iff_forall_not_mem.mpr fun head hhead => ?_
  obtain ⟨token, htoken⟩ := exists_of_mem_headsOf hhead
  exact hnot (h.bound token _ htoken)

theorem mem_issuedBy {context : UiContext} {appId : Nat} {cancelToken : String}
    {candidates : List ConflictDialogCandidate} {key : ConflictKey}
    (hkey : key = (context.steamId64, appId))
    (h : token = cancelToken ∨ token ∈ candidates.map (·.token)) :
    ⟨token, key, context⟩ ∈ issuedBy context ⟨appId, cancelToken, candidates⟩ := by
  refine List.mem_map.mpr ⟨token, ?_, by rw [hkey]⟩
  exact List.mem_cons.mpr h

section Cancel

variable {key : ConflictKey} {context : UiContext} {candidates : List ManifestCandidate}
  {bindings bound : Assoc String Binding} {n k : Nat} {buttons : List ConflictDialogCandidate}

/-- A token of the table is an old one, a candidate's or the cancel button's. -/
theorem BoundButtons.lookup_cancel
    (h : BoundButtons mint key context candidates bindings n (buttons, bound, k)) {b : Binding}
    (hb : (bound.insert (mint k key "cancel" context) ⟨key, "", context⟩).lookup token = some b) :
    bindings.lookup token = some b ∨ b.key = key ∧ b.context = context ∧
      (token = mint k key "cancel" context ∨ token ∈ buttons.map (·.token)) := by
  rw [Assoc.lookup_insert_eq] at hb
  split at hb
  · next heq =>
    cases hb
    exact Or.inr ⟨rfl, rfl, Or.inl heq⟩
  · rcases h.new token b hb with hold | ⟨hk, hc, hin⟩
    · exact Or.inl hold
    · exact Or.inr ⟨hk, hc, Or.inr hin⟩

/-- The tokens of a dialog are numbered from `n` on. -/
theorem BoundButtons.issued
    (h : BoundButtons mint key context candidates bindings n (buttons, bound, k))
    (hkey : key = (context.steamId64, key.2)) {i : Issued}
    (hi : i ∈ issuedBy context ⟨key.2, mint k key "cancel" context, buttons⟩) :
    i.key = key ∧ i.context = context ∧ ∃ n' label, n ≤ n' ∧ n' < k + 1 ∧
      i.token = mint n' key label context := by
  obtain ⟨token, htoken, rfl⟩ := List.mem_map.mp hi
  refine ⟨hkey.symm, rfl, ?_⟩
  rcases List.mem_cons.mp htoken with heq | hbutton
  · exact ⟨k, "cancel", h.sequence, Nat.lt_succ_self k, heq⟩
  · obtain ⟨n', label, hle, hlt, heq⟩ := h.tokens token hbutton
    exact ⟨n', label, hle, Nat.lt_succ_of_lt hlt, heq⟩

/-- A dialog that was not on screen is shown with all its buttons. -/
theorem DialogsInv.present {t : ConflictState} (ht : DialogsInv t) {pending : PendingConflict}
    (h : BoundButtons mint key context pending.candidates t.bindings n (buttons, bound, k))
    (hpending : t.pending.lookup key = some pending) (hopen : pending.resolving = false)
    (hnot : (key, context) ∉ t.presented) :
    DialogsInv { t with
      bindings := bound.insert (mint k key "cancel" context) ⟨key, "", context⟩
      presented := insert (key, context) t.presented } := by
  have hcancel := h.unissued k key "cancel" context (Nat.le_refl k)
  refine ⟨ht.heads, fun token b hb => ?_, fun key' context' hshown => ?_⟩
  · rcases h.lookup_cancel hb with hold | ⟨hk, hc, _⟩
    · exact Finset.mem_insert_of_mem (ht.bound token b hold)
    · exact hk ▸ hc ▸ Finset.mem_insert_self ..
  · show ∃ p, t.pending.lookup key' = some p ∧ _ ∧ (headsOf (bound.insert _ _) _ _).Perm _
    rw [headsOf_insert _ hcancel]
    have hheads := h.heads key' context'
    by_cases hk : key = key' ∧ context = context'
    · obtain ⟨rfl, rfl⟩ := hk
      rw [if_pos ⟨rfl, rfl⟩]
      refine ⟨pending, hpending, hopen, .cons "" ?_⟩
      rw [if_pos ⟨rfl, rfl⟩, ht.headsOf_eq_nil hnot, List.append_nil,
        ← ht.heads key pending hpending] at hheads
      exact hheads
    · rw [if_neg hk]
      rw [if_neg hk] at hheads
      have hold : (key', context') ∈ t.presented := by
        rcases Finset.mem_insert.mp hshown with heq | hin
        · rw [Prod.mk.injEq] at heq
          exact absurd ⟨heq.1.symm, heq.2.symm⟩ hk
        · exact hin
      obtain ⟨p, hp, hres, hperm⟩ := ht.shown key' context' hold
      exact ⟨p, hp, hres, hheads.trans hperm⟩

end Cancel

theorem Presents.presentKey (hmint : mint.Distinct) {context : UiContext} {n : Nat}
    {acc : ConflictState × Nat × List ConflictDialog} (h : Presents mint context s n acc)
    {key : ConflictKey} (haccount : key.1 = context.steamId64)
    (hopen : ∀ p, s.pending.lookup key = some p → p.resolving = false) :
    Presents mint context s n (presentKey mint context acc key) := by
  obtain ⟨t, m, shown⟩ := acc
  unfold Rpc.presentKey
  dsimp only
  split
  · exact h
  · next hnot =>
    split
    · exact h
    · next pending hpending =>
      have hspec := bindCandidates_spec hmint key context pending.identity pending.candidates
        t.bindings m h.unissued
      generalize bindCandidates mint key context pending.identity pending.candidates t.bindings m
        = out at hspec
      obtain ⟨buttons, bindings, k⟩ := out
      have hkey : key = (context.steamId64, key.2) := by rw [← haccount]
      refine ⟨h.pending, h.epoch, h.acks, fun hs => (h.inv hs).present hspec hpending
        (hopen pending (h.pending ▸ hpending)) hnot, ?_, ?_, ?_, ?_, ?_⟩
      · exact Nat.le_trans h.sequence (Nat.le_succ_of_le hspec.sequence)
      · exact hspec.unissued.insert hmint key "cancel" context _
      · intro token b hb
        rw [List.flatMap_append, List.mem_append, List.flatMap_singleton]
        rcases hspec.lookup_cancel hb with hold | ⟨hk, hc, hin⟩
        · exact (h.new token b hold).imp_right .inl
        · rw [hk, hc]
          exact .inr (.inr (mem_issuedBy hkey hin))
      · intro i hi
        rw [List.flatMap_append, List.flatMap_singleton] at hi
        rcases List.mem_append.mp hi with hold | hin
        · obtain ⟨n', label, hle, hlt, heq⟩ := h.tokens i hold
          exact ⟨n', label, hle, Nat.lt_of_lt_of_le hlt (Nat.le_succ_of_le hspec.sequence), heq⟩
        · obtain ⟨hk, hc, n', label, hle, hlt, heq⟩ := hspec.issued hkey hin
          exact ⟨n', label, Nat.le_trans h.sequence hle, hlt, hk ▸ hc ▸ heq⟩
      · -- old tokens have smaller numbers, and those of this dialog agree in all but the token
        have hcross : ∀ i ∈ shown.flatMap (issuedBy context),
            ∀ j ∈ issuedBy context ⟨key.2, mint k key "cancel" context, buttons⟩,
            i.token ≠ j.token := by
          intro i hi j hj heq
          obtain ⟨ni, li, _, hlt, hti⟩ := h.tokens i hi
          obtain ⟨_, _, nj, lj, hle, _, htj⟩ := hspec.issued hkey hj
          have hsame := hmint (hti.symm.trans (heq.trans htj))
          exact absurd hlt (Nat.not_lt.mpr (hsame ▸ hle))
        intro i hi j hj heq
        rw [List.flatMap_append, List.flatMap_singleton] at hi hj
        rcases List.mem_append.mp hi with hi | hi <;> rcases List.mem_append.mp hj with hj | hj
        · exact h.unique i hi j hj heq
        · exact absurd heq (hcross i hi j hj)
        · exact absurd heq.symm (hcross j hj i hi)
        · obtain ⟨hki, hci, _⟩ := hspec.issued hkey hi
          obtain ⟨hkj, hcj, _⟩ := hspec.issued hkey hj
          obtain ⟨ti, ki, ci⟩ := i
          obtain ⟨tj, kj, cj⟩ := j
          dsimp only at hki hci hkj hcj heq
          rw [hki, hci, hkj, hcj, heq]

theorem dialogs_presents (hmint : mint.Distinct)
    (order : Arrangement (Sigma fun _ : ConflictKey => PendingConflict)) {n : Nat}
    (hfresh : Unissued mint n s.bindings) (context : UiContext) :
    Presents mint context s n (dialogs mint order s n context) := by
  unfold dialogs
  split
  · exact .start hfresh
  · have hkeys : ∀ key ∈ dialogKeys order s context, key.1 = context.steamId64 ∧
        ∀ p, s.pending.lookup key = some p → p.resolving = false := by
      intro key hkey
      obtain ⟨⟨key', q⟩, hentry, rfl⟩ := List.mem_map.mp hkey
      obtain ⟨hmem, hcond⟩ := List.mem_filter.mp hentry
      simp only [Bool.and_eq_true, beq_iff_eq, Bool.not_eq_true'] at hcond
      refine ⟨hcond.1.1.1, fun p hp => ?_⟩
      have hq := Assoc.lookup_eq_some_iff.mpr (order.mem_arrange.mp hmem)
      rw [hp, Option.some.injEq] at hq
      exact hq ▸ hcond.2
    generalize dialogKeys order s context = keys at hkeys
    have hstart : Presents mint context s n (s, n, []) := .start hfresh
    generalize (s, n, ([] : List ConflictDialog)) = acc at hstart
    induction keys generalizing acc with
    | nil => exact hstart
    | cons key keys ih =>
      rw [List.foldl_cons]
      have hkey := hkeys key (List.mem_cons_self ..)
      exact ih (fun k hk => hkeys k (List.mem_cons_of_mem _ hk)) _
        (hstart.presentKey hmint hkey.1 hkey.2)

/-! ## Finishing -/

theorem DialogsInv.finishChoice (h : DialogsInv s) {choice : Choice} {result : Except String Unit}
    (hshown : ∀ message, result = .error message → choice.Current s → ∀ context, (choice.key, context) ∉ s.presented)
    : DialogsInv (finishChoice s choice result) := by
  unfold Rpc.finishChoice
  split
  · next hcurrent =>
    cases result with
    | ok => exact (h.erase choice.key).withAcks _
    | error message =>
      have hnone := hshown message rfl hcurrent
      have hkeep : s.presented.filter (fun shown => shown.1 ≠ choice.key) = s.presented :=
        Finset.filter_true_of_mem fun shown hin heq => hnone shown.2 (heq ▸ hin)
      have hreplaced : DialogsInv
          { s with
            pending := s.pending.adjust choice.key fun p => { p with resolving := false } } := by
        refine h.replace hnone (fun key' hkey => ?_) fun p hp => ?_
        · rw [Assoc.lookup_adjust, if_neg hkey]
        · rw [Assoc.lookup_adjust, if_pos rfl] at hp
          obtain ⟨q, hq, rfl⟩ := Option.map_eq_some_iff.mp hp
          exact h.heads choice.key q hq
      dsimp only
      rw [hkeep]
      exact hreplaced.withAcks _
  · exact h

/-- The one way to spoil the tables: a failed choice is reported while dialogs of
its conflict are on screen. -/
def FailsWhileShown (c : Coordinator) (op : ConflictOp) : Prop :=
  ∃ message choice, op = .finish (.error message) ∧ c.working = some choice ∧
    choice.Current c.state ∧ ∃ context, (choice.key, context) ∈ c.state.presented

theorem DialogsInv.act (D : Digests) (hmint : mint.Distinct) {c : Coordinator}
    (h : DialogsInv c.state) (hfresh : Unissued mint c.sequence c.state.bindings)
    {op : ConflictOp} (hop : ¬ FailsWhileShown c op) :
    DialogsInv (c.act D mint op).state := by
  cases op with
  | register settings appId identity view required minimumRevision =>
    exact h.register D settings appId identity view required minimumRevision
  | armFirst settings key identity view minimumRevision =>
    exact h.armFirst D settings key identity view minimumRevision
  | armLast key => exact h.armLast key
  | dialogs order context => exact (dialogs_presents hmint order hfresh context).inv h
  | submit token context =>
    show DialogsInv (c.submit token context).1.state
    rw [c.submit_state]
    exact h.submit token context
  | retryDialog context token => exact h.retryDialog context token
  | retryContext context => exact h.retryContext context
  | retainUiWindows generations => exact h.retainUiWindows generations
  | cancelPending =>
    exact ⟨DialogsInv.initial.heads, DialogsInv.initial.bound, DialogsInv.initial.shown⟩
  | receive index =>
    unfold Coordinator.act
    dsimp only
    split
    · exact h
    · exact h
  | finish result =>
    unfold Coordinator.act
    dsimp only
    split
    · next choice hworking =>
      refine h.finishChoice fun message hresult hcurrent context hin => ?_
      exact hop ⟨message, choice, by rw [hresult], hworking, hcurrent, context, hin⟩
    · exact h
  | stop => exact h

end Dialogs

end VaporForge.Rpc
