import Mathlib.Data.List.Induction
import Std.Data.String.ToNat
import VaporForge.Rpc.ConflictDialogs

/-!
# Chooser tokens

Along a run of the coordinator, over any number of apps, accounts and windows:

> A token stands for a button of a conflict that is pending and not yet being
> resolved; it is accepted at most once, only in its own window, and never after
> another token of the same conflict was accepted.

The token half holds in every run: a token that was issued and is bound no more
is dead for good, and an acceptance unbinds all tokens of its key. The screen
half holds up to the exception `FailsWhileShown`, and `tokens_sound_iff` says
that it is the only one.
-/

namespace VaporForge.Rpc

open VaporForge.CloudCore
open VaporForge.Local (CommitIdentity StoreView)
open Lib (Assoc)

variable {mint : TokenMint}

/-! ## Tokens -/

/-- No token of `s'` is new. -/
def NoNewTokens (s s' : ConflictState) : Prop :=
  ∀ token b, s'.bindings.lookup token = some b → s.bindings.lookup token = some b

variable {s s' : ConflictState} {op : ConflictOp} {r : ConflictRun} {token : String}
  {pre : List ConflictOp} {c : Coordinator} {context : UiContext}

theorem NoNewTokens.of_eq (h : s'.bindings = s.bindings) :
    NoNewTokens s s' := fun _ _ hb => h ▸ hb

theorem NoNewTokens.of_retain (keep : String → Binding → Bool)
    (h : s'.bindings = s.bindings.retain keep) : NoNewTokens s s' := by
  intro token b hb
  rw [h, Assoc.lookup_retain, Option.filter_eq_some_iff] at hb
  exact hb.1

theorem NoNewTokens.discard (key : ConflictKey)
    (h : s'.bindings = (discardKeyBindings s key).bindings) : NoNewTokens s s' :=
  .of_retain (fun _ b => b.key != key) h

theorem noNewTokens_register (D : Digests) (s : ConflictState) (settings : CloudSettings)
    (appId : Nat) (identity : CommitIdentity) (view : StoreView) (required : Bool)
    (minimumRevision : Nat) :
    NoNewTokens s (register D s settings appId identity view required minimumRevision) := by
  unfold register
  split
  · exact .of_eq rfl
  · split
    · unfold registerRequired
      dsimp only
      split
      · split
        · exact .of_eq rfl
        · exact .discard _ rfl
      · exact .discard _ rfl
    · exact .discard _ rfl

theorem noNewTokens_armFirst (D : Digests) (s : ConflictState) (settings : CloudSettings)
    (key : ConflictKey) (identity : CommitIdentity) (view : StoreView) (minimumRevision : Nat) :
    NoNewTokens s (armFirst D s settings key identity view minimumRevision).1 := by
  unfold armFirst
  split
  · split <;> exact .of_eq rfl
  · exact .of_eq rfl

theorem noNewTokens_submit (s : ConflictState) (token : String) (context : UiContext) :
    NoNewTokens s (submit s token context).1 := by
  unfold submit
  split
  · exact .of_eq rfl
  · split
    · split
      · exact .discard _ rfl
      · exact .of_eq rfl
    · split
      · exact .discard _ rfl
      · split
        · exact .of_eq rfl
        · split
          · exact .of_eq rfl
          · exact .discard _ rfl

theorem noNewTokens_finishChoice (s : ConflictState) (choice : Choice)
    (result : Except String Unit) : NoNewTokens s (finishChoice s choice result) := by
  unfold finishChoice
  split
  · cases result with
    | ok => exact .discard _ rfl
    | error => exact .of_eq rfl
  · exact .of_eq rfl

/-- Only showing dialogs makes tokens. -/
theorem noNewTokens_act (D : Digests) (c : Coordinator)
    (hop : ∀ order context, op ≠ .dialogs order context) :
    NoNewTokens c.state (c.act D mint op).state := by
  cases op with
  | register settings appId identity view required minimumRevision =>
    exact noNewTokens_register D c.state settings appId identity view required minimumRevision
  | armFirst settings key identity view minimumRevision =>
    exact noNewTokens_armFirst D c.state settings key identity view minimumRevision
  | armLast key =>
    refine .of_eq ?_
    unfold Coordinator.act armLast
    dsimp only
    split <;> rfl
  | dialogs order context => exact absurd rfl (hop order context)
  | submit token context =>
    show NoNewTokens _ (c.submit token context).1.state
    rw [c.submit_state]
    exact noNewTokens_submit c.state token context
  | retryDialog context token =>
    unfold Coordinator.act retryDialog
    dsimp only
    split
    · exact .of_eq rfl
    · next binding _ =>
      exact .of_retain (fun _ b => b.key != binding.key || b.context != context) rfl
  | retryContext context => exact .of_retain (fun _ b => b.context != context) rfl
  | retainUiWindows generations =>
    exact .of_retain (fun _ b => generations.contains b.context.windowGeneration) rfl
  | cancelPending => exact fun token b hb => absurd hb (by simp [Coordinator.act, cancelPending])
  | receive index =>
    unfold Coordinator.act
    dsimp only
    split <;> exact .of_eq rfl
  | finish result =>
    unfold Coordinator.act
    dsimp only
    split
    · next choice _ => exact noNewTokens_finishChoice c.state choice result
    · exact .of_eq rfl
  | stop => exact .of_eq rfl

/-- What a run knows about the tokens it issued. -/
structure TokensInv (mint : TokenMint) (r : ConflictRun) : Prop where
  bound : ∀ token b, r.coordinator.state.bindings.lookup token = some b →
    ⟨token, b.key, b.context⟩ ∈ r.issued
  past : ∀ i ∈ r.issued, ∃ n label, n < r.coordinator.sequence ∧
    i.token = mint n i.key label i.context
  unique : ∀ i ∈ r.issued, ∀ j ∈ r.issued, i.token = j.token → i = j

theorem TokensInv.initial : TokensInv mint .initial where
  bound := fun token b h =>
    absurd h (by simp [ConflictRun.initial, Coordinator.initial, ConflictState.initial])
  past := fun i hi => absurd hi (by simp [ConflictRun.initial])
  unique := fun i hi => absurd hi (by simp [ConflictRun.initial])

theorem TokensInv.unissued (hmint : mint.Distinct) (h : TokensInv mint r) :
    Unissued mint r.coordinator.sequence r.coordinator.state.bindings := by
  intro n' key label context hle hin
  obtain ⟨b, hb⟩ := Option.isSome_iff_exists.mp (AList.lookup_isSome.mpr hin)
  obtain ⟨n, label', hlt, heq⟩ := h.past _ (h.bound _ b hb)
  exact absurd hlt (Nat.not_lt.mpr (hmint heq ▸ hle))

/-- What showing dialogs does to the tokens; every other operation issues none. -/
structure Issues (mint : TokenMint) (c c' : Coordinator) (issued : List Issued) : Prop where
  sequence : c.sequence ≤ c'.sequence
  new : ∀ token b, c'.state.bindings.lookup token = some b →
    c.state.bindings.lookup token = some b ∨ ⟨token, b.key, b.context⟩ ∈ issued
  tokens : ∀ i ∈ issued, ∃ n label, c.sequence ≤ n ∧ n < c'.sequence ∧
    i.token = mint n i.key label i.context
  unique : ∀ i ∈ issued, ∀ j ∈ issued, i.token = j.token → i = j

theorem act_sequence (D : Digests) (c : Coordinator)
    (hop : ∀ order context, op ≠ .dialogs order context) :
    (c.act D mint op).sequence = c.sequence ∧ op.issues mint c = [] := by
  cases op with
  | dialogs order context => exact absurd rfl (hop order context)
  | submit token context =>
    refine ⟨?_, rfl⟩
    show (c.submit token context).1.sequence = _
    unfold Coordinator.submit
    split
    · rfl
    · split <;> rfl
  | receive index =>
    refine ⟨?_, rfl⟩
    unfold Coordinator.act
    dsimp only
    split <;> rfl
  | finish result =>
    refine ⟨?_, rfl⟩
    unfold Coordinator.act
    dsimp only
    split <;> rfl
  | register | armFirst | armLast | retryDialog | retryContext | retainUiWindows | cancelPending
  | stop => exact ⟨rfl, rfl⟩

theorem act_issues (D : Digests) (hmint : mint.Distinct) (h : TokensInv mint r) (op : ConflictOp) :
    Issues mint r.coordinator (r.coordinator.act D mint op) (op.issues mint r.coordinator) := by
  by_cases hop : ∃ order context, op = .dialogs order context
  · obtain ⟨order, context, rfl⟩ := hop
    have hshow := dialogs_presents hmint order (h.unissued hmint) context
    exact ⟨hshow.sequence, hshow.new, hshow.tokens, hshow.unique⟩
  · have hother : ∀ order context, op ≠ .dialogs order context :=
      fun order context heq => hop ⟨order, context, heq⟩
    have hsame : (r.coordinator.act D mint op).sequence = r.coordinator.sequence ∧
        op.issues mint r.coordinator = [] := act_sequence D r.coordinator hother
    obtain ⟨hseq, hnone⟩ := hsame
    rw [hnone]
    refine ⟨hseq.ge, fun token b hb => Or.inl ?_, fun i hi => ?_, fun i hi => ?_⟩
    · exact noNewTokens_act D r.coordinator hother token b hb
    · exact absurd hi List.not_mem_nil
    · exact absurd hi List.not_mem_nil

/-- A token issued now was never issued before. -/
theorem TokensInv.not_again (hmint : mint.Distinct) (h : TokensInv mint r) {c' : Coordinator}
    {issued : List Issued} (hnew : Issues mint r.coordinator c' issued) {i j : Issued}
    (hi : i ∈ r.issued) (hj : j ∈ issued) : i.token ≠ j.token := by
  intro heq
  obtain ⟨n, label, hlt, hti⟩ := h.past i hi
  obtain ⟨n', label', hle, _, htj⟩ := hnew.tokens j hj
  have hsame : n = n' := hmint (hti.symm.trans (heq.trans htj))
  exact absurd hlt (Nat.not_lt.mpr (hsame ▸ hle))

theorem TokensInv.act (D : Digests) (hmint : mint.Distinct) (h : TokensInv mint r) (op : ConflictOp) :
    TokensInv mint (r.act D mint op) := by
  have hnew := act_issues D hmint h op
  refine ⟨fun token b hb => ?_, fun i hi => ?_, fun i hi j hj heq => ?_⟩
  · rcases hnew.new token b hb with hold | hin
    · exact List.mem_append_left _ (h.bound token b hold)
    · exact List.mem_append_right _ hin
  · rcases List.mem_append.mp hi with hold | hin
    · obtain ⟨n, label, hlt, htoken⟩ := h.past i hold
      exact ⟨n, label, Nat.lt_of_lt_of_le hlt hnew.sequence, htoken⟩
    · obtain ⟨n, label, _, hlt, htoken⟩ := hnew.tokens i hin
      exact ⟨n, label, hlt, htoken⟩
  · rcases List.mem_append.mp hi with hi | hi <;> rcases List.mem_append.mp hj with hj | hj
    · exact h.unique i hi j hj heq
    · exact absurd heq (h.not_again hmint hnew hi hj)
    · exact absurd heq.symm (h.not_again hmint hnew hj hi)
    · exact hnew.unique i hi j hj heq

theorem tokensInv_run (D : Digests) (hmint : mint.Distinct) (trace : List ConflictOp) :
    TokensInv mint (conflictRun D mint trace) := by
  induction trace using List.reverseRecOn with
  | nil => exact .initial
  | append_singleton trace op ih =>
    rw [conflictRun_concat]
    exact ih.act D hmint op

/-- A token that was issued and is bound no more. -/
def Dead (r : ConflictRun) (token : String) : Prop :=
  (∃ i ∈ r.issued, i.token = token) ∧ r.coordinator.state.bindings.lookup token = none

theorem Dead.act (D : Digests) (hmint : mint.Distinct) (hdead : Dead r token) (h : TokensInv mint r)
    (op : ConflictOp) : Dead (r.act D mint op) token := by
  obtain ⟨⟨i, hi, htoken⟩, hnone⟩ := hdead
  have hnew := act_issues D hmint h op
  refine ⟨⟨i, List.mem_append_left _ hi, htoken⟩, ?_⟩
  refine Option.eq_none_iff_forall_ne_some.mpr fun b hb => ?_
  rcases hnew.new token b hb with hold | hin
  · rw [hnone] at hold
    exact absurd hold (by simp)
  · exact h.not_again hmint hnew hi hin htoken

theorem Dead.run (D : Digests) (hmint : mint.Distinct) (hdead : Dead (conflictRun D mint pre) token)
    (later : List ConflictOp) : Dead (conflictRun D mint (pre ++ later)) token := by
  induction later using List.reverseRecOn with
  | nil => exact (List.append_nil pre).symm ▸ hdead
  | append_singleton later op ih =>
    rw [← List.append_assoc, conflictRun_concat]
    exact ih.act D hmint (tokensInv_run D hmint _) op

/-- An accepted token is bound in the window it is submitted in, and the
acceptance unbinds every token of its key. -/
theorem submit_accepted (h : (c.submit token context).2 = .accepted) :
    ∃ b, c.state.bindings.lookup token = some b ∧ b.context = context ∧
      ∀ token' b', (c.submit token context).1.state.bindings.lookup token' = some b' →
        b'.key ≠ b.key := by
  have haccept : (submit c.state token context).2.1 = .accepted := by
    unfold Coordinator.submit at h
    split at h
    · next hout => rw [hout]; exact h
    · next hout =>
      split at h
      · rw [hout]; exact h
      · cases h
  have hgone : ∀ (s : ConflictState) (key : ConflictKey) token' b',
      (discardKeyBindings s key).bindings.lookup token' = some b' → b'.key ≠ key := by
    intro s key token' b' hb'
    unfold discardKeyBindings at hb'
    rw [Assoc.lookup_retain, Option.filter_eq_some_iff] at hb'
    exact bne_iff_ne.mp hb'.2
  rw [c.submit_state]
  unfold submit at haccept ⊢
  split at haccept
  · cases haccept
  · next b hb =>
    refine ⟨b, hb, ?_⟩
    dsimp only
    split at haccept
    · split at haccept <;> cases haccept
    · next hcontext =>
      rw [if_neg hcontext]
      refine ⟨Classical.not_not.mp fun hne => hcontext (Or.inl hne), ?_⟩
      split at haccept
      · next hhead =>
        rw [if_pos hhead]
        exact hgone _ b.key
      · next hhead =>
        rw [if_neg hhead]
        split at haccept
        · cases haccept
        · next pending hpending =>
          split at haccept
          · cases haccept
          · next hopen =>
            rw [if_neg hopen]
            exact hgone _ b.key

theorem submit_unbound (context : UiContext) (h : c.state.bindings.lookup token = none) :
    (c.submit token context).2 ≠ .accepted := by
  intro haccept
  obtain ⟨b, hb, _⟩ := submit_accepted haccept
  rw [h] at hb
  cases hb

/-! ## Soundness -/

/-- The tables of the coordinator agree. -/
structure TokensSound (s : ConflictState) : Prop where
  /-- A token stands for a button of a conflict that is pending and not being
  resolved. -/
  bound : ∀ token b, s.bindings.lookup token = some b →
    ∃ p, s.pending.lookup b.key = some p ∧ p.resolving = false ∧ (b.head = "" ∨ b.head ∈ p.heads)
  /-- A dialog counts as shown exactly when it has one cancel button and one button
  per candidate. -/
  shown : ∀ key context, (key, context) ∈ s.presented ↔ ∃ p, s.pending.lookup key = some p ∧
    (headsOf s.bindings key context).Perm ("" :: p.candidates.map (·.id))

theorem DialogsInv.sound (h : DialogsInv s) : TokensSound s where
  bound := by
    intro token b hb
    obtain ⟨p, hp, hres, hperm⟩ := h.shown b.key b.context (h.bound token b hb)
    exact ⟨p, hp, hres, List.mem_cons.mp (hperm.mem_iff.mp (mem_headsOf hb))⟩
  shown := by
    intro key context
    constructor
    · intro hshown
      obtain ⟨p, hp, _, hperm⟩ := h.shown key context hshown
      exact ⟨p, hp, h.heads key p hp ▸ hperm⟩
    · rintro ⟨p, hp, hperm⟩
      obtain ⟨token, htoken⟩ := exists_of_mem_headsOf (hperm.mem_iff.mpr (List.mem_cons_self ..))
      exact h.bound token _ htoken

/-- The dialogs a failed choice forgets still have all their buttons. -/
theorem FailsWhileShown.unsound (D : Digests) (hop : FailsWhileShown c op)
    (hbefore : TokensSound c.state) : ¬ TokensSound (c.act D mint op).state := by
  obtain ⟨message, choice, rfl, hworking, hcurrent, context, hin⟩ := hop
  intro hafter
  obtain ⟨p, hp, hperm⟩ := (hbefore.shown choice.key context).mp hin
  have hstate : (c.act D mint (.finish (.error message))).state =
      finishChoice c.state choice (.error message) := by
    unfold Coordinator.act
    rw [hworking]
  rw [hstate] at hafter
  unfold finishChoice at hafter
  rw [if_pos hcurrent] at hafter
  have hshown := (hafter.shown choice.key context).mpr
    ⟨{ p with resolving := false }, by rw [Assoc.lookup_adjust, if_pos rfl, hp]; rfl, hperm⟩
  exact (Finset.mem_filter.mp hshown).2 rfl

section Sound

variable (D : Digests) (mint : TokenMint)

/-- The next operation would be an accepted submission. -/
def Accepts (trace : List ConflictOp) (token : String) (context : UiContext) : Prop :=
  ((conflictRun D mint trace).coordinator.submit token context).2 = .accepted

/-- What has to hold along a run. -/
structure ChooserSound (trace : List ConflictOp) : Prop where
  tables : ∀ pre, pre <+: trace → TokensSound (conflictRun D mint pre).coordinator.state
  /-- A token is accepted only in the window it was issued for. -/
  context : ∀ pre token context, pre ++ [.submit token context] <+: trace →
    Accepts D mint pre token context →
      ∃ key, ⟨token, key, context⟩ ∈ (conflictRun D mint pre).issued ∧
        ∀ i ∈ (conflictRun D mint pre).issued, i.token = token → i = ⟨token, key, context⟩
  /-- It is accepted once. -/
  once : ∀ pre mid token context context',
    pre ++ [.submit token context] ++ mid ++ [.submit token context'] <+: trace →
    Accepts D mint pre token context →
      ¬ Accepts D mint (pre ++ [.submit token context] ++ mid) token context'
  /-- From then on no token issued earlier for its key is accepted. -/
  key : ∀ pre mid token context context', ∀ i ∈ (conflictRun D mint pre).issued,
    ∀ j ∈ (conflictRun D mint pre).issued,
    pre ++ [.submit token context] ++ mid ++ [.submit j.token context'] <+: trace →
    Accepts D mint pre token context → i.token = token → j.key = i.key →
      ¬ Accepts D mint (pre ++ [.submit token context] ++ mid) j.token context'

variable {D mint}

/-- An accepted token was issued once, for the window it is submitted in. -/
theorem Accepts.issued (hmint : mint.Distinct) (h : Accepts D mint pre token context) :
    ∃ key, ⟨token, key, context⟩ ∈ (conflictRun D mint pre).issued ∧
      ∀ i ∈ (conflictRun D mint pre).issued, i.token = token → i = ⟨token, key, context⟩ := by
  have hinv := tokensInv_run D hmint pre
  obtain ⟨b, hb, rfl, _⟩ := submit_accepted h
  have hissued := hinv.bound token b hb
  exact ⟨b.key, hissued, fun i hi heq => hinv.unique i hi _ hissued heq⟩

/-- Accepting one token of a key kills every token of the key. -/
theorem Accepts.kills (hmint : mint.Distinct) (h : Accepts D mint pre token context) {i j : Issued}
    (hi : i ∈ (conflictRun D mint pre).issued) (hj : j ∈ (conflictRun D mint pre).issued)
    (htoken : i.token = token) (hkey : j.key = i.key) :
    Dead (conflictRun D mint (pre ++ [.submit token context])) j.token := by
  have hinv := tokensInv_run D hmint pre
  obtain ⟨b, hb, _, hgone⟩ := submit_accepted h
  have hsame : i = ⟨token, b.key, b.context⟩ := hinv.unique i hi _ (hinv.bound token b hb) htoken
  rw [conflictRun_concat]
  refine ⟨⟨j, List.mem_append_left _ hj, rfl⟩, ?_⟩
  refine Option.eq_none_iff_forall_ne_some.mpr fun b' hb' => ?_
  -- the binding of `j`, were it still there, would be one of the accepted key
  have hold : (conflictRun D mint pre).coordinator.state.bindings.lookup j.token = some b' :=
    noNewTokens_act D _ (fun _ _ => ConflictOp.noConfusion) j.token b' hb'
  have hj' := hinv.unique j hj _ (hinv.bound j.token b' hold) rfl
  refine hgone j.token b' hb' ?_
  calc b'.key = j.key := (congrArg Issued.key hj').symm
    _ = i.key := hkey
    _ = b.key := congrArg Issued.key hsame

theorem dialogsInv_run (hmint : mint.Distinct) {trace : List ConflictOp}
    (hgood : ∀ pre op, pre ++ [op] <+: trace →
      ¬ FailsWhileShown (conflictRun D mint pre).coordinator op) :
    DialogsInv (conflictRun D mint trace).coordinator.state := by
  induction trace using List.reverseRecOn with
  | nil => exact .initial
  | append_singleton trace op ih =>
    rw [conflictRun_concat]
    refine (ih fun pre op' hpre => hgood pre op' (hpre.trans (List.prefix_append ..))).act D hmint
      ((tokensInv_run D hmint trace).unissued hmint) ?_
    exact hgood trace op (List.prefix_refl _)

/-- The chooser is sound along a run exactly when no failed choice is reported
while dialogs of its conflict are on screen. -/
theorem tokens_sound_iff (D : Digests) (hmint : mint.Distinct) (trace : List ConflictOp) :
    ChooserSound D mint trace ↔ ∀ pre op, pre ++ [op] <+: trace →
      ¬ FailsWhileShown (conflictRun D mint pre).coordinator op := by
  constructor
  · intro h pre op hpre hfails
    have hbefore := h.tables pre ((List.prefix_append ..).trans hpre)
    have hafter := h.tables (pre ++ [op]) hpre
    rw [conflictRun_concat] at hafter
    exact hfails.unsound D hbefore hafter
  · intro hgood
    refine ⟨fun pre hpre => ?_, fun pre token context _ h => h.issued hmint,
      fun pre mid token context context' _ h => ?_,
      fun pre mid token context context' i hi j hj _ h htoken hkey => ?_⟩
    · exact (dialogsInv_run hmint fun pre' op hop => hgood pre' op (hop.trans hpre)).sound
    · obtain ⟨key, hissued, _⟩ := h.issued hmint
      exact submit_unbound context' ((h.kills hmint hissued hissued rfl rfl).run D hmint mid).2
    · exact submit_unbound context' ((h.kills hmint hi hj htoken hkey).run D hmint mid).2

end Sound

/-! ## A dialog that is forgotten on screen -/

/-- Tokens that are bare sequence numbers. -/
def numbered : TokenMint := fun n _ _ _ => n.repr

theorem numbered_distinct : numbered.Distinct := fun _ _ _ _ _ _ _ _ h => Nat.repr_inj.mp h

def plainDigests : Digests := ⟨id, fun url key => url ++ key⟩

def deckSettings : CloudSettings := ⟨"/saves", none, some 3, some "deck", some 5⟩

def deckIdentity : CommitIdentity := ⟨3, "deck"⟩

def deckWindow : UiContext := ⟨5, 1, 1, 1, deckSettings.conflictScope plainDigests⟩

/-- A folder with the given heads. -/
def viewOf (ids : List String) : StoreView where
  currentChangeNumber := none
  maxRevision := 1
  heads := ids.map fun id => ⟨id, 1, 3, "deck", 0, 0, 0, []⟩

def meetConflict (ids : List String) : ConflictOp :=
  .register deckSettings 7 deckIdentity (viewOf ids) true 1

/-- The user picks the first head of two and the resolver starts on it. -/
def chooseFirst : List ConflictOp :=
  [meetConflict ["a", "b"], .armFirst deckSettings (5, 7) deckIdentity (viewOf ["a", "b"]) 1,
    .dialogs .stored deckWindow, .submit "1" deckWindow, .receive 0]

theorem tokens_sound_iff_chooseFirst :
    numbered.Distinct ∧ ChooserSound plainDigests numbered (chooseFirst ++ [.finish (.ok ())]) := by
  refine ⟨numbered_distinct, (tokens_sound_iff _ numbered_distinct _).mpr ?_⟩
  intro pre op hpre hfails
  obtain ⟨message, choice, rfl, _⟩ := hfails
  have hin := hpre.subset (List.mem_append_right pre (List.mem_singleton_self _))
  simp [chooseFirst, meetConflict] at hin

/-- While the resolver works, the folder changes and changes back, and the
conflict is shown again; then the resolver fails. -/
def overtakenChoice : List ConflictOp :=
  chooseFirst ++ [meetConflict ["a", "c"], meetConflict ["a", "b"], .dialogs .stored deckWindow,
    .finish (.error "disk full")]

theorem failed_choice_forgets_dialog :
    numbered.Distinct ∧ ¬ ChooserSound plainDigests numbered overtakenChoice := by
  refine ⟨numbered_distinct, fun h => ?_⟩
  have hfinal := (h.tables _ (List.prefix_refl _)).shown (5, 7) deckWindow
  generalize hs : (conflictRun plainDigests numbered overtakenChoice).coordinator.state = s
    at hfinal
  have hbuttons : ∃ p ∈ s.pending.lookup (5, 7),
      (headsOf s.bindings (5, 7) deckWindow).Perm ("" :: p.candidates.map (·.id)) := by
    rw [← hs]
    decide +kernel
  have hhidden : ((5, 7), deckWindow) ∉ s.presented := by
    rw [← hs]
    decide +kernel
  exact hhidden (hfinal.mpr hbuttons)

end VaporForge.Rpc
