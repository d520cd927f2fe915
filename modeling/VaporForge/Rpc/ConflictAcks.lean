import VaporForge.Rpc.ConflictTokens

/-!
# Answers to conflict choices

A submitted candidate goes to the resolver thread, which commits it to the folder
without holding the coordinator's lock and then reports through `finish_choice`.

> Every accepted choice is answered by exactly one acknowledgement once the
> resolver has reported, unless everything pending was cancelled.

"At most one" holds in every run (`spent_run`): a token on its way to an
acknowledgement, or past it, is never bound again. "At least one" does not:
`finish_choice` stays silent when the conflict it resolved is no longer the one
that is pending, and the commit itself is what lets the next changelist request
remove it. `choices_answered_iff` gives the exact condition.
-/

namespace VaporForge.Rpc

open VaporForge.CloudCore
open VaporForge.Local (CommitIdentity StoreView)
open Lib (Assoc)

variable {D : Digests} {mint : TokenMint}

/-! ## What a submission does -/

/-- A submission that has an effect beyond a stale dialog's removal. -/
inductive Submitted (s : ConflictState) (token : String) (context : UiContext) :
    ConflictState × SubmitResult × Option Choice → Prop where
  | refused (s' : ConflictState) (result : SubmitResult) (hresult : result ≠ .accepted) :
    Submitted s token context (s', result, none)
  | cancelled (s' : ConflictState) (b : Binding) (hbound : s.bindings.lookup token = some b)
      (hhead : b.head = "") (hafter : s'.bindings.lookup token = none) :
    Submitted s token context (s', .accepted, none)
  | chosen (s' : ConflictState) (b : Binding) (choice : Choice)
      (hbound : s.bindings.lookup token = some b) (hhead : b.head ≠ "")
      (hafter : s'.bindings.lookup token = none) (htoken : choice.token = token)
      (hcontext : choice.context = context) (hepoch : choice.epoch = s.epoch) :
    Submitted s token context (s', .accepted, some choice)

variable {token : String} {choice : Choice} {context : UiContext} {r : ConflictRun}
  {mid trace : List ConflictOp}

theorem lookup_discardKeyBindings_eq_none (s : ConflictState) {b : Binding}
    (hb : s.bindings.lookup token = some b) :
    (discardKeyBindings s b.key).bindings.lookup token = none := by
  unfold discardKeyBindings
  rw [Assoc.lookup_retain, hb]
  simp [Option.filter]

theorem submit_submitted (s : ConflictState) (token : String) (context : UiContext) :
    Submitted s token context (submit s token context) := by
  unfold submit
  split
  · exact .refused s .unknown (by decide)
  · next b hb =>
    split
    · split
      · exact .refused _ .stale (by decide)
      · exact .refused s .stale (by decide)
    · split
      · next hhead =>
        exact .cancelled _ b hb hhead (lookup_discardKeyBindings_eq_none { s with pending := _ } hb)
      · next hhead =>
        split
        · exact .refused s .stale (by decide)
        · split
          · exact .refused s .stale (by decide)
          · exact .chosen _ b _ hb hhead
              (lookup_discardKeyBindings_eq_none { s with pending := _ } hb) rfl rfl rfl

theorem choice_of_submit {s : ConflictState} (h : (submit s token context).2.2 = some choice) :
    choice.token = token ∧ choice.context = context ∧ choice.epoch = s.epoch := by
  have hcases := submit_submitted s token context
  generalize submit s token context = out at hcases h
  cases hcases with
  | refused => cases h
  | cancelled => cases h
  | chosen s' b choice' _ _ _ htoken hcontext hepoch =>
    cases h
    exact ⟨htoken, hcontext, hepoch⟩

/-! ## Epochs and the log -/

theorem register_frame (s : ConflictState) (settings : CloudSettings) (appId : Nat)
    (identity : CommitIdentity) (view : StoreView) (required : Bool) (minimumRevision : Nat) :
    (register D s settings appId identity view required minimumRevision).epoch = s.epoch ∧
      (register D s settings appId identity view required minimumRevision).acks = s.acks := by
  unfold register
  split
  · exact ⟨rfl, rfl⟩
  · split
    · unfold registerRequired
      dsimp only
      split
      · split <;> exact ⟨rfl, rfl⟩
      · exact ⟨rfl, rfl⟩
    · exact ⟨rfl, rfl⟩

theorem submit_frame (c : Coordinator) (token : String) (context : UiContext) :
    (submit c.state token context).1.epoch = c.state.epoch ∧
      (submit c.state token context).1.acks.map (·.ack) =
        c.state.acks.map (·.ack) ++ (ConflictOp.submit token context).queues c := by
  unfold ConflictOp.queues submit
  dsimp only
  split
  · next hb =>
    rw [hb]
    exact ⟨rfl, (List.append_nil _).symm⟩
  · next b hb =>
    rw [hb]
    split
    · split <;> simp [discardKeyBindings]
    · split
      · next hhead => simp [discardKeyBindings, hhead]
      · next hhead =>
        split
        · simp [hhead]
        · split <;> simp [hhead, discardKeyBindings]

theorem finishChoice_frame (s : ConflictState) (choice : Choice) (result : Except String Unit) :
    (finishChoice s choice result).epoch = s.epoch ∧
      (finishChoice s choice result).acks = s.acks ++ (if choice.Current s then
        [⟨choice.context, resolvedAck choice result, false⟩] else []) := by
  unfold finishChoice
  split
  · cases result <;> exact ⟨rfl, rfl⟩
  · exact ⟨rfl, (List.append_nil _).symm⟩

/-- Only cancelling everything starts a new epoch, and until then the log of the
run is what was appended to the table of acknowledgements. -/
theorem act_frame (D : Digests) (hmint : mint.Distinct) (h : TokensInv mint r) {op : ConflictOp}
    (hop : op ≠ .cancelPending) :
    (r.coordinator.act D mint op).state.epoch = r.coordinator.state.epoch ∧
      (r.coordinator.act D mint op).state.acks.map (·.ack) =
        r.coordinator.state.acks.map (·.ack) ++ op.queues r.coordinator := by
  have hquiet : ∀ s : ConflictState, s.epoch = r.coordinator.state.epoch →
      s.acks = r.coordinator.state.acks → s.epoch = r.coordinator.state.epoch ∧
        s.acks.map (·.ack) = r.coordinator.state.acks.map (·.ack) ++ [] := by
    intro s hepoch hacks
    rw [hacks, List.append_nil]
    exact ⟨hepoch, rfl⟩
  cases op with
  | register settings appId identity view required minimumRevision =>
    obtain ⟨hepoch, hacks⟩ := register_frame (D := D) r.coordinator.state settings appId identity
      view required minimumRevision
    exact hquiet _ hepoch hacks
  | armFirst settings key identity view minimumRevision =>
    unfold Coordinator.act armFirst
    dsimp only
    split
    · split <;> exact hquiet _ rfl rfl
    · exact hquiet _ rfl rfl
  | armLast key =>
    unfold Coordinator.act armLast
    dsimp only
    split <;> exact hquiet _ rfl rfl
  | dialogs order context =>
    have hshow := dialogs_presents hmint order (h.unissued hmint) context
    exact hquiet _ hshow.epoch hshow.acks
  | submit token context =>
    show (r.coordinator.submit token context).1.state.epoch = _ ∧
      (r.coordinator.submit token context).1.state.acks.map _ = _
    rw [Coordinator.submit_state]
    exact submit_frame r.coordinator token context
  | retryDialog context token =>
    unfold Coordinator.act retryDialog
    dsimp only
    split <;> exact hquiet _ rfl rfl
  | retryContext context => exact hquiet _ rfl rfl
  | retainUiWindows generations =>
    refine ⟨rfl, ?_⟩
    unfold Coordinator.act retainUiWindows ConflictOp.queues
    rw [List.append_nil, List.map_map]
    refine List.map_congr_left fun ack _ => ?_
    dsimp only [Function.comp]
    split <;> rfl
  | cancelPending => exact absurd rfl hop
  | receive index =>
    unfold Coordinator.act
    dsimp only
    split <;> exact hquiet _ rfl rfl
  | finish result =>
    unfold Coordinator.act ConflictOp.queues
    dsimp only
    split
    · next choice _ =>
      obtain ⟨hepoch, hacks⟩ := finishChoice_frame r.coordinator.state choice result
      refine ⟨hepoch, ?_⟩
      rw [hacks, List.map_append]
      split <;> rfl
    · exact hquiet _ rfl rfl
  | stop => exact hquiet _ rfl rfl

theorem epoch_run (hmint : mint.Distinct) (pre : List ConflictOp) (hmid : .cancelPending ∉ mid) :
    (conflictRun D mint (pre ++ mid)).coordinator.state.epoch =
      (conflictRun D mint pre).coordinator.state.epoch := by
  induction mid using List.reverseRecOn with
  | nil => rw [List.append_nil]
  | append_singleton mid op ih =>
    rw [List.mem_append, not_or, List.mem_singleton] at hmid
    rw [← List.append_assoc, conflictRun_concat]
    exact (act_frame D hmint (tokensInv_run D hmint _) (Ne.symm hmid.2)).1.trans (ih hmid.1)

/-! ## Spent tokens -/

/-- The tokens on their way to an acknowledgement, or past it. -/
def spent (r : ConflictRun) : List String :=
  r.coordinator.choices.map (·.token) ++
    (r.coordinator.working.toList.map (·.token) ++ r.queued.map (·.token))

/-- What an operation may do to the spent tokens: add one that it unbinds. -/
def Spends (c c' : Coordinator) (before after : List String) : Prop :=
  ∃ new, after.Subperm (new ++ before) ∧
    (new = [] ∨ ∃ token b, new = [token] ∧ c.state.bindings.lookup token = some b ∧
      c'.state.bindings.lookup token = none)

theorem Spends.none {c c' : Coordinator} {before after : List String}
    (h : after.Subperm before) : Spends c c' before after :=
  ⟨[], h, Or.inl rfl⟩

/-- `spent` of an explicit run. -/
theorem spent_eq (c : Coordinator) (issued : List Issued) (queued : List ConflictUiAck) :
    spent ⟨c, issued, queued⟩ = c.choices.map (·.token) ++
      (c.working.toList.map (·.token) ++ queued.map (·.token)) := rfl

theorem perm_concat_last (a w q : List String) (token : String) :
    (a ++ (w ++ (q ++ [token]))).Perm (token :: (a ++ (w ++ q))) := by
  rw [← List.append_assoc w, ← List.append_assoc a]
  exact List.perm_append_singleton token _

theorem perm_concat_first (a rest : List String) (token : String) :
    (a ++ [token] ++ rest).Perm (token :: (a ++ rest)) := by
  rw [List.append_assoc]
  exact List.perm_middle

theorem spends_submit (r : ConflictRun) (token : String) (context : UiContext) :
    Spends r.coordinator (r.act D mint (.submit token context)).coordinator (spent r)
      (spent (r.act D mint (.submit token context))) := by
  have hcases := submit_submitted r.coordinator.state token context
  unfold ConflictRun.act Coordinator.act ConflictOp.queues Coordinator.submit
  dsimp only
  generalize submit r.coordinator.state token context = out at hcases
  cases hcases with
  | refused s' result hresult =>
    refine .none ?_
    rw [spent_eq]
    dsimp only
    split
    · rw [if_neg fun h => hresult h.2, List.append_nil]
      exact .refl _
    · rw [List.append_nil]
      exact .refl _
  | cancelled s' b hbound hhead hafter =>
    refine ⟨[token], ?_, Or.inr ⟨token, b, rfl, hbound, hafter⟩⟩
    rw [spent_eq, hbound]
    dsimp only
    rw [if_pos ⟨hhead, rfl⟩, List.map_append]
    exact (perm_concat_last _ _ _ token).subperm
  | chosen s' b choice hbound hhead hafter htoken =>
    rw [hbound]
    dsimp only
    have hno : ¬ (b.head = "" ∧ SubmitResult.accepted = .accepted) := fun h => hhead h.1
    rw [if_neg hno, List.append_nil]
    by_cases hresolver : r.coordinator.resolver = true
    · rw [if_pos hresolver]
      refine ⟨[token], ?_, Or.inr ⟨token, b, rfl, hbound, hafter⟩⟩
      rw [spent_eq, List.map_append, List.map_singleton, htoken]
      exact (perm_concat_first _ _ token).subperm
    · rw [if_neg hresolver]
      exact .none (.refl _)

theorem spends_act (r : ConflictRun) (op : ConflictOp) :
    Spends r.coordinator (r.act D mint op).coordinator (spent r) (spent (r.act D mint op)) := by
  have hquiet : ∀ c' : Coordinator, c'.choices = r.coordinator.choices →
      c'.working = r.coordinator.working → ∀ issued,
      Spends r.coordinator c' (spent r) (spent ⟨c', issued, r.queued ++ []⟩) := by
    intro c' hchoices hworking issued
    refine .none ?_
    rw [spent_eq, hchoices, hworking, List.append_nil]
    exact .refl _
  cases op with
  | submit token context => exact spends_submit r token context
  | receive index =>
    unfold ConflictRun.act Coordinator.act ConflictOp.queues
    dsimp only
    split
    · next choice hworking hchoice =>
      refine .none (List.Perm.subperm ?_)
      obtain ⟨hlt, rfl⟩ := List.getElem?_eq_some_iff.mp hchoice
      rw [spent_eq, spent, hworking, List.append_nil]
      dsimp only [Option.toList]
      rw [← List.append_assoc, List.map_nil, List.nil_append, List.map_singleton]
      refine .append_right _ ((List.perm_append_singleton _ _).trans ?_)
      exact (List.getElem_cons_eraseIdx_perm hlt).map (·.token)
    · exact hquiet _ rfl rfl _
  | finish result =>
    unfold ConflictRun.act Coordinator.act ConflictOp.queues
    dsimp only
    split
    · next choice hworking =>
      refine .none ?_
      rw [spent_eq, spent, hworking]
      have htoken : (resolvedAck choice result).token = choice.token := by
        cases result <;> rfl
      split
      · rw [List.map_append, List.map_singleton, htoken]
        exact ((perm_concat_last _ [] _ choice.token).trans List.perm_middle.symm).subperm
      · rw [List.append_nil]
        exact ((List.sublist_append_right _ _).append_left _).subperm
    · exact hquiet _ rfl rfl _
  | stop =>
    refine .none ?_
    unfold ConflictRun.act Coordinator.act ConflictOp.queues
    rw [spent_eq, spent, List.append_nil]
    exact ((List.sublist_append_right _ _).trans (List.sublist_append_right _ _)).subperm
  | register | armFirst | armLast | dialogs | retryDialog | retryContext | retainUiWindows
  | cancelPending => refine hquiet _ ?_ ?_ _ <;> rfl

theorem nodup_of_subperm {l l' : List String} (h : l.Subperm l') (hnodup : l'.Nodup) :
    l.Nodup := by
  obtain ⟨m, hperm, hsub⟩ := h
  exact hperm.nodup_iff.mp (hnodup.sublist hsub)

structure SpentInv (r : ConflictRun) : Prop where
  nodup : (spent r).Nodup
  dead : ∀ token ∈ spent r, Dead r token

theorem SpentInv.act (hmint : mint.Distinct) (h : SpentInv r) (htokens : TokensInv mint r)
    (op : ConflictOp) : SpentInv (r.act D mint op) := by
  obtain ⟨new, hsub, hnew⟩ : Spends r.coordinator (r.act D mint op).coordinator _ _ :=
    spends_act r op
  rcases hnew with rfl | ⟨token, b, rfl, hbound, hafter⟩
  · rw [List.nil_append] at hsub
    refine ⟨nodup_of_subperm hsub h.nodup, fun token htoken => ?_⟩
    exact (h.dead token (hsub.subset htoken)).act D hmint htokens op
  · have hfresh : token ∉ spent r := by
      intro hin
      rw [(h.dead token hin).2] at hbound
      cases hbound
    refine ⟨nodup_of_subperm hsub (List.nodup_cons.mpr ⟨hfresh, h.nodup⟩), fun token' htoken' => ?_⟩
    rcases List.mem_cons.mp (hsub.subset htoken') with rfl | hold
    · exact ⟨⟨_, List.mem_append_left _ (htokens.bound _ b hbound), rfl⟩, hafter⟩
    · exact (h.dead token' hold).act D hmint htokens op

theorem spent_run (hmint : mint.Distinct) (trace : List ConflictOp) :
    SpentInv (conflictRun D mint trace) := by
  induction trace using List.reverseRecOn with
  | nil => exact ⟨List.nodup_nil, fun _ h => absurd h List.not_mem_nil⟩
  | append_singleton trace op ih =>
    rw [conflictRun_concat]
    exact ih.act hmint (tokensInv_run D hmint trace) op

/-- No token is acknowledged twice. -/
theorem filter_queued_eq (hmint : mint.Distinct) {ack : ConflictUiAck}
    (hack : ack ∈ (conflictRun D mint trace).queued) :
    ((conflictRun D mint trace).queued.filter fun a => a.token = ack.token) = [ack] := by
  have hnodup : ((conflictRun D mint trace).queued.map (·.token)).Nodup := by
    have hall := (spent_run (D := D) hmint trace).nodup
    exact (List.nodup_append.mp (List.nodup_append.mp hall).2.1).2.1
  generalize (conflictRun D mint trace).queued = queued at hack hnodup ⊢
  induction queued with
  | nil => exact absurd hack List.not_mem_nil
  | cons a queued ih =>
    rw [List.map_cons, List.nodup_cons] at hnodup
    rw [List.filter_cons]
    rcases List.mem_cons.mp hack with rfl | hin
    · rw [if_pos (decide_eq_true rfl), List.filter_eq_nil_iff.mpr]
      intro b hb heq
      exact hnodup.1 (decide_eq_true_eq.mp heq ▸ List.mem_map_of_mem hb)
    · have hne : ¬ a.token = ack.token := fun heq => hnodup.1 (heq ▸ List.mem_map_of_mem hin)
      rw [if_neg (by simpa using hne)]
      exact ih hin hnodup.2

/-! ## Answered choices -/

section Answered

variable (D : Digests) (mint : TokenMint)

/-- The resolver is about to report on the choice that the submission of `token`
after `pre` made, and nothing was cancelled since. -/
structure Reports (pre mid : List ConflictOp) (token : String) (context : UiContext)
    (choice : Choice) : Prop where
  accepted : Accepts D mint pre token context
  chosen : (submit (conflictRun D mint pre).coordinator.state token context).2.2 = some choice
  uncancelled : .cancelPending ∉ mid
  working : (conflictRun D mint (pre ++ [.submit token context] ++ mid)).coordinator.working =
    some choice

/-- Every reported choice is acknowledged when the report returns, with its outcome,
and never again. -/
def ChoicesAnswered (trace : List ConflictOp) : Prop :=
  ∀ pre mid token context choice result,
    pre ++ [.submit token context] ++ mid ++ [.finish result] <+: trace →
    Reports D mint pre mid token context choice →
      (conflictRun D mint
          (pre ++ [.submit token context] ++ mid ++ [.finish result])).coordinator.state.acks =
        (conflictRun D mint (pre ++ [.submit token context] ++ mid)).coordinator.state.acks ++
          [⟨context, resolvedAck choice result, false⟩] ∧
      ((conflictRun D mint trace).queued.filter fun ack => ack.token = token) =
        [resolvedAck choice result]

/-- The conflict that was chosen from is still the pending one. -/
def Choice.StillPending (choice : Choice) (s : ConflictState) : Prop :=
  ∃ pending, s.pending.lookup choice.key = some pending ∧
    pending.heads = choice.pending.heads ∧ pending.identity = choice.pending.identity

variable {D mint}

variable {pre : List ConflictOp}

/-- Without a cancellation in between, an old choice can only lose its conflict. -/
theorem Reports.current_iff (hmint : mint.Distinct)
    (h : Reports D mint pre mid token context choice) :
    choice.Current (conflictRun D mint (pre ++ [.submit token context] ++ mid)).coordinator.state ↔
      choice.StillPending
        (conflictRun D mint (pre ++ [.submit token context] ++ mid)).coordinator.state := by
  obtain ⟨rfl, _, hepoch⟩ := choice_of_submit h.chosen
  have hmid : .cancelPending ∉ [.submit choice.token context] ++ mid := by
    intro hin
    rcases List.mem_cons.mp hin with heq | hin
    · cases heq
    · exact h.uncancelled hin
  have hsame := epoch_run (D := D) hmint pre hmid
  rw [← List.append_assoc] at hsame
  constructor
  · intro hcurrent
    exact hcurrent.2
  · intro hpending
    exact ⟨hsame.trans hepoch.symm, hpending⟩

/-- A report on a choice that is still current appends its answer; any other is
silent. -/
theorem finish_acks (D : Digests) (mint : TokenMint) (result : Except String Unit)
    (hworking : r.coordinator.working = some choice) :
    (r.act D mint (.finish result)).coordinator.state.acks =
        r.coordinator.state.acks ++ (if choice.Current r.coordinator.state then
          [⟨choice.context, resolvedAck choice result, false⟩] else []) ∧
      (r.act D mint (.finish result)).queued =
        r.queued ++ (if choice.Current r.coordinator.state then
          [resolvedAck choice result] else []) := by
  unfold ConflictRun.act Coordinator.act ConflictOp.queues
  dsimp only
  rw [hworking]
  dsimp only
  exact ⟨(finishChoice_frame r.coordinator.state choice result).2, rfl⟩

theorem queued_mono (h : pre <+: trace) :
    (conflictRun D mint pre).queued <+: (conflictRun D mint trace).queued := by
  obtain ⟨later, rfl⟩ := h
  induction later using List.reverseRecOn with
  | nil => rw [List.append_nil]
  | append_singleton later op ih =>
    rw [← List.append_assoc, conflictRun_concat]
    exact ih.trans (List.prefix_append ..)

/-- Every choice is answered along a run exactly when each report finds the
conflict that was chosen from still pending. -/
theorem choices_answered_iff (hmint : mint.Distinct) (trace : List ConflictOp) :
    ChoicesAnswered D mint trace ↔ ∀ pre mid token context choice result,
      pre ++ [.submit token context] ++ mid ++ [.finish result] <+: trace →
      Reports D mint pre mid token context choice →
        choice.StillPending
          (conflictRun D mint (pre ++ [.submit token context] ++ mid)).coordinator.state := by
  constructor
  · intro h pre mid token context choice result hpre hreports
    refine (hreports.current_iff hmint).mp (Classical.byContradiction fun hlost => ?_)
    have hacks := (h pre mid token context choice result hpre hreports).1
    rw [conflictRun_concat _ _ (_ ++ mid), (finish_acks D mint result hreports.working).1,
      if_neg hlost] at hacks
    exact absurd hacks (by simp)
  · intro h pre mid token context choice result hpre hreports
    have hcurrent := (hreports.current_iff hmint).mpr
      (h pre mid token context choice result hpre hreports)
    obtain ⟨htoken, hcontext, _⟩ := choice_of_submit hreports.chosen
    obtain ⟨hacks, hqueued⟩ := finish_acks D mint result hreports.working
    rw [if_pos hcurrent, ← conflictRun_concat] at hacks hqueued
    refine ⟨hcontext ▸ hacks, ?_⟩
    have hin : resolvedAck choice result ∈ (conflictRun D mint trace).queued :=
      (queued_mono hpre).subset (hqueued ▸ List.mem_append_right _ (List.mem_singleton_self _))
    have hack : (resolvedAck choice result).token = token := by
      rw [← htoken]
      cases result <;> rfl
    exact hack ▸ filter_queued_eq hmint hin

end Answered

/-! ## A committed choice nobody hears about -/

theorem choices_answered_iff_chooseFirst :
    numbered.Distinct ∧
      ChoicesAnswered plainDigests numbered (chooseFirst ++ [.finish (.ok ())]) := by
  refine ⟨numbered_distinct, (choices_answered_iff numbered_distinct _).mpr ?_⟩
  intro pre mid token context choice result hpre hreports
  -- the only report is the last operation
  rcases List.prefix_concat_iff.mp hpre with heq | hpre
  · have hsame := (List.append_inj' heq rfl).1
    have hpending : ∀ choice ∈
        (conflictRun plainDigests numbered chooseFirst).coordinator.working,
        ∃ p ∈ (conflictRun plainDigests numbered chooseFirst).coordinator.state.pending.lookup
          choice.key, p.heads = choice.pending.heads ∧ p.identity = choice.pending.identity := by
      decide +kernel
    rw [hsame]
    exact hpending choice (hsame ▸ hreports.working)
  · have hin := hpre.subset (List.mem_append_right _ (List.mem_singleton_self _))
    simp [chooseFirst, meetConflict] at hin

/-- The resolver has committed the first head; before it reports, a changelist
request finds a single head and removes the conflict. -/
def overtakenReport : List ConflictOp :=
  chooseFirst ++ [.register deckSettings 7 deckIdentity (viewOf ["c"]) false 1] ++
    [.finish (.ok ())]

theorem committed_choice_unanswered :
    numbered.Distinct ∧ ¬ ChoicesAnswered plainDigests numbered overtakenReport := by
  refine ⟨numbered_distinct, fun h => ?_⟩
  obtain ⟨choice, hchoice⟩ : ∃ choice, (submit (conflictRun plainDigests numbered
      (chooseFirst.take 3)).coordinator.state "1" deckWindow).2.2 = some choice :=
    Option.isSome_iff_exists.mp (by decide +kernel)
  have hreports : Reports plainDigests numbered (chooseFirst.take 3)
      [.receive 0, .register deckSettings 7 deckIdentity (viewOf ["c"]) false 1] "1" deckWindow
      choice := by
    refine ⟨?_, hchoice, by simp, hchoice ▸ ?_⟩
    · unfold Accepts
      decide +kernel
    · decide +kernel
  have hfront : chooseFirst.take 3 ++ [.submit "1" deckWindow] ++
      [.receive 0, .register deckSettings 7 deckIdentity (viewOf ["c"]) false 1] ++
      [.finish (.ok ())] <+: overtakenReport := List.prefix_refl overtakenReport
  have hanswered := (h _ _ _ _ _ _ hfront hreports).2
  have hsilent : (conflictRun plainDigests numbered overtakenReport).queued = [] := by
    decide +kernel
  rw [hsilent] at hanswered
  cases hanswered

end VaporForge.Rpc
