import VaporForge.Config.TemplateLines

/-!
# Synchronising keeps every value of the user

For every document of the user and every template:

> every path that the user's document sets has the user's value; every template path that is
> not covered or overridden by something the user set has the template's value; there are no
> other paths

The merge goes down only where both sides have a table. So there is one thing that decides about
a path: whether the user has something on the way to it that is not a table over a table
(`Overridden`). If so, the merged document is there what the user's is, and otherwise what the
template is (`lookup_mergeItem`). Everything else, that merging again changes no value
(`sameValues_merge_merged`) included, follows from this alone.
-/

namespace VaporForge.Config

open Lib

section Merge

variable {V : Type}

/-! ## One path -/

/-- The loop over the user's entries. -/
theorem entry_merge {user : Entries V} (hkeys : (user.map Prod.fst).Nodup) (template : Entries V)
    (k : String) :
    entry (mergeUserValuesIntoTemplate template user) k =
      (entry user k).elim (entry template k) fun u => some (mergeItem (entry template k) u) := by
  induction user generalizing template with
  | nil =>
    rw [merge_nil]
    rfl
  | cons e user ih =>
    rw [List.map_cons, List.nodup_cons] at hkeys
    rw [merge_cons, ih hkeys.2, entry_cons, entry_setEntry]
    by_cases hk : e.1 = k
    · have hnone : entry user k = none := entry_eq_none_iff.mpr (hk ▸ hkeys.1)
      rw [if_pos hk, hnone, if_pos hk.symm, hk]
      rfl
    · rw [if_neg hk, if_neg (Ne.symm hk)]

/-- The user has something on the way to the path, and not a table over a table. -/
def OverriddenItem (template : Option (Item V)) (user : Item V) (path : List PathStep) : Prop :=
  ∃ front, front <+: path ∧ ∃ node, user.lookup front = some node ∧
    ¬ (node = .table ∧ (template.bind fun t => t.lookup front) = some .table)

variable {implicit implicit' : Bool} {node : ItemNode V} {template' : Document V}

/-- Below two tables. -/
theorem overridden_key_iff {template user : Entries V} {k : String} {path : List PathStep} :
    OverriddenItem (some (.table implicit template)) (.table implicit' user) (.key k :: path) ↔
      ∃ u, entry user k = some u ∧ OverriddenItem (entry template k) u path := by
  constructor
  · rintro ⟨front, hfront, node, hnode, hnot⟩
    cases front with
    | nil =>
      rw [lookup_nil] at hnode
      exact absurd ⟨(Option.some.inj hnode).symm, lookup_nil _⟩ hnot
    | cons step front =>
      obtain ⟨hstep, htail⟩ := List.cons_prefix_cons.mp hfront
      subst hstep
      rw [lookup_table_key] at hnode
      obtain ⟨u, hu, hnode⟩ := Option.bind_eq_some_iff.mp hnode
      refine ⟨u, hu, front, htail, node, hnode, ?_⟩
      rwa [Option.bind_some, lookup_table_key] at hnot
  · rintro ⟨u, hu, front, hfront, node, hnode, hnot⟩
    refine ⟨.key k :: front, List.cons_prefix_cons.mpr ⟨rfl, hfront⟩, node, ?_, ?_⟩
    · rw [lookup_table_key, hu]
      exact hnode
    · rwa [Option.bind_some, lookup_table_key]

/-- Where the two sides are not both tables, everything is the user's. -/
theorem overridden_of_not_tables {template : Option (Item V)} {user : Item V}
    (h : ¬ (template.map Item.node = some .table ∧ user.node = .table)) (path : List PathStep) :
    OverriddenItem template user path := by
  refine ⟨[], List.nil_prefix, user.node, lookup_nil user, ?_⟩
  rintro ⟨huser, htemplate⟩
  refine h ⟨?_, huser⟩
  cases template with
  | none => cases htemplate
  | some t =>
    rw [Option.bind_some, lookup_nil] at htemplate
    exact htemplate

theorem not_overridden_nil {template user : Entries V} :
    ¬ OverriddenItem (some (.table implicit template)) (.table implicit' user) [] := by
  rintro ⟨front, hfront, node, hnode, hnot⟩
  rw [List.prefix_nil.mp hfront, lookup_nil] at hnode
  rw [List.prefix_nil.mp hfront, Option.bind_some, lookup_nil] at hnot
  exact hnot ⟨(Option.some.inj hnode).symm, rfl⟩

/-- What a merged table says at a path. -/
theorem lookup_merge (path : List PathStep) {template user : Entries V}
    (huser : WellFormedEntries user) :
    (OverriddenItem (some (.table implicit template)) (.table implicit' user) path →
      (Item.table implicit (mergeUserValuesIntoTemplate template user)).lookup path =
        (Item.table implicit' user).lookup path) ∧
    (¬ OverriddenItem (some (.table implicit template)) (.table implicit' user) path →
      (Item.table implicit (mergeUserValuesIntoTemplate template user)).lookup path =
        (Item.table implicit template).lookup path) := by
  induction path generalizing implicit implicit' template user with
  | nil =>
    refine ⟨fun h => absurd h not_overridden_nil, fun _ => ?_⟩
    rw [lookup_nil, lookup_nil]
    rfl
  | cons step path ih =>
    cases step with
    | index i =>
      rw [lookup_table_index, lookup_table_index, lookup_table_index]
      exact ⟨fun _ => rfl, fun _ => rfl⟩
    | key k =>
      rw [lookup_table_key, lookup_table_key, lookup_table_key, entry_merge huser.keys,
        overridden_key_iff]
      cases hu : entry user k with
      | none => exact ⟨fun ⟨_, h, _⟩ => (nomatch h), fun _ => rfl⟩
      | some u =>
        show (_ → (mergeItem (entry template k) u).lookup path = u.lookup path) ∧
          (_ → (mergeItem (entry template k) u).lookup path = _)
        by_cases htables : (entry template k).map Item.node = some .table ∧ u.node = .table
        · -- the merge goes down here
          obtain ⟨t, ht, htable⟩ := Option.map_eq_some_iff.mp htables.1
          obtain ⟨i, ts, rfl⟩ := node_eq_table_iff.mp htable
          obtain ⟨j, us, rfl⟩ := node_eq_table_iff.mp htables.2
          rw [ht, mergeItem_tables]
          obtain ⟨hover, hkept⟩ := @ih i j ts us (huser.item hu).entries
          refine ⟨fun ⟨u', hu', h⟩ => hover (Option.some.inj hu' ▸ h), fun h => hkept fun h' => ?_⟩
          exact h ⟨_, rfl, h'⟩
        · rw [mergeItem_of_not_tables htables]
          exact ⟨fun _ => rfl, fun h => absurd ⟨u, rfl, overridden_of_not_tables htables path⟩ h⟩

/-! ## Documents -/

/-- The user has something on the way to the path, and not a table over a table. -/
def Overridden (template user : Document V) (path : List PathStep) : Prop :=
  ∃ front, front <+: path ∧ ∃ node, user.lookup front = some node ∧
    ¬ (node = .table ∧ template.lookup front = some .table)

variable {template user : Document V} {path : List PathStep}

theorem lookup_of_overridden (h : Overridden template user path) :
    (mergeDocuments template user).lookup path = user.lookup path :=
  (lookup_merge path user.wellFormed).1 h

theorem lookup_of_not_overridden (h : ¬ Overridden template user path) :
    (mergeDocuments template user).lookup path = template.lookup path :=
  (lookup_merge path user.wellFormed).2 h

/-- What the user has where nothing overrides is a table over a table. -/
theorem tables_of_not_overridden (h : ¬ Overridden template user path)
    (hnode : user.lookup path = some node) :
    node = .table ∧ template.lookup path = some .table := by
  by_contra hnot
  exact h ⟨path, List.prefix_rfl, node, hnode, hnot⟩

theorem lookup_merge_user (h : user.lookup path = some node) :
    (mergeDocuments template user).lookup path = some node := by
  by_cases hover : Overridden template user path
  · rw [lookup_of_overridden hover, h]
  · obtain ⟨rfl, htemplate⟩ := tables_of_not_overridden hover h
    rw [lookup_of_not_overridden hover, htemplate]

theorem lookup_merge_cases (h : (mergeDocuments template user).lookup path = some node) :
    user.lookup path = some node ∨
      (template.lookup path = some node ∧ ¬ Overridden template user path) := by
  by_cases hover : Overridden template user path
  · rw [lookup_of_overridden hover] at h
    exact .inl h
  · rw [lookup_of_not_overridden hover] at h
    exact .inr ⟨h, hover⟩

/-- Merging the merged document again, from any texts with the same values. -/
theorem sameValues_merge_merged {merged : Document V} (htemplate : template'.SameValues template)
    (hmerged : merged.SameValues (mergeDocuments template user)) :
    (mergeDocuments template' merged).SameValues merged := by
  intro path
  by_cases hover : Overridden template' merged path
  · exact lookup_of_overridden hover
  · rw [lookup_of_not_overridden hover]
    cases hnode : merged.lookup path with
    | some node =>
      obtain ⟨rfl, htable⟩ := tables_of_not_overridden hover hnode
      exact htable
    | none =>
      -- what keeps the template's value out the first time does so the second time
      rw [htemplate path]
      rw [hmerged path] at hnode
      by_contra hsome
      have hfirst : Overridden template user path := by
        by_contra hnot
        rw [lookup_of_not_overridden hnot] at hnode
        exact hsome hnode
      obtain ⟨front, hfront, node, huser, hnot⟩ := hfirst
      refine hover ⟨front, hfront, node, ?_, ?_⟩
      · rw [hmerged front]
        exact lookup_merge_user huser
      · rwa [htemplate front]

/-- The merge sees nothing of the documents but their values. -/
theorem mergeDocuments_congr {user' : Document V} (htemplate : template'.SameValues template)
    (huser : user'.SameValues user) :
    (mergeDocuments template' user').SameValues (mergeDocuments template user) := by
  intro path
  have hiff : Overridden template' user' path ↔ Overridden template user path := by
    unfold Overridden
    simp only [htemplate _, huser _]
  by_cases hover : Overridden template user path
  · rw [lookup_of_overridden hover, lookup_of_overridden (hiff.mpr hover), huser path]
  · rw [lookup_of_not_overridden hover, lookup_of_not_overridden (mt hiff.mp hover),
      htemplate path]

/-! ## The dry run -/

variable {toml : TomlLibrary V} {configTemplate text : Text}

/-- The dry run gives a text with the values of the merged documents. -/
theorem dryRun_says (hfaithful : Faithful toml)
    (hplain : commentsPlain .plain (splitInclusive configTemplate) = true)
    (htemplate : toml.parse configTemplate = some template) (huser : toml.parse text = some user) :
    ∃ run, syncDefaultTemplateDryRun toml configTemplate text = some run ∧
      Says toml run.synced (mergeDocuments template user) := by
  obtain ⟨pruned, hpruned, hsame⟩ := hfaithful.prune hplain user.entries htemplate
  unfold syncDefaultTemplateDryRun
  rw [huser, Option.bind_eq_bind, Option.bind_some]
  dsimp only
  rw [hpruned, Option.bind_some]
  refine ⟨_, rfl, ?_⟩
  have hprint := hfaithful.print
    (pruneCommentedSectionExamples configTemplate user.entries, text) _ _ _ _ hpruned huser
  exact hprint.congr (mergeDocuments_congr hsame (.refl user))

/-! ## One release after another -/

/-- `sync_default_template`: what the file holds afterwards, and whether it was written. -/
def syncDefaultTemplate (toml : TomlLibrary V) (configTemplate text : Text) :
    Option (Text × Bool) :=
  (syncDefaultTemplateDryRun toml configTemplate text).map fun run =>
    (if run.changed then run.synced else text, run.changed)

/-- The file after releases with these templates. -/
def syncReleases (toml : TomlLibrary V) (templates : List Text) (text : Text) : Option Text :=
  templates.foldlM (fun text template => (syncDefaultTemplate toml template text).map Prod.fst) text

theorem syncDefaultTemplate_eq {run : TemplateSyncDryRun}
    (h : syncDefaultTemplateDryRun toml configTemplate text = some run) :
    (syncDefaultTemplate toml configTemplate text).map Prod.fst = some run.synced := by
  rw [syncDefaultTemplate, h, Option.map_some, Option.map_some]
  split
  · rfl
  · next hsame =>
    simp only [syncDefaultTemplateDryRun, Option.bind_eq_bind, Option.bind_eq_some_iff] at h
    obtain ⟨_, _, _, _, h⟩ := h
    cases h
    exact congrArg some (of_not_not (mt decide_eq_true hsame)).symm

end Merge

def numberDocument (n : Nat) : Document Nat where
  entries := [("lines", .value n)]
  wellFormed := ⟨List.nodup_singleton _, fun _ he => List.mem_singleton.mp he ▸ .value n⟩

def numberLibrary : TomlLibrary Nat where
  parse text := some (numberDocument ((splitInclusive text).countP fun line => !isCommentLine line))
  print _ d :=
    match d.lookup [.key "lines"] with
    | some (.value n) => List.replicate n '\n'
    | _ => []

theorem merge_numberDocument (m n : Nat) :
    mergeDocuments (numberDocument m) (numberDocument n) = numberDocument n := rfl

theorem splitInclusive_newlines (n : Nat) :
    splitInclusive (List.replicate n '\n') = List.replicate n ['\n'] := by
  induction n with
  | zero => rfl
  | succ n ih => rw [List.replicate_succ, splitInclusive, if_pos rfl, ih, List.replicate_succ]

theorem numberLibrary_faithful : Faithful numberLibrary where
  print layout text text' d d' hd hd' := by
    cases hd
    cases hd'
    refine ⟨_, rfl, ?_⟩
    rw [merge_numberDocument]
    show (numberDocument ((splitInclusive (List.replicate _ '\n')).countP _)).SameValues _
    rw [splitInclusive_newlines, List.countP_replicate, if_pos (by decide)]
    exact .refl _
  comments before line after d hsplit hline _ hd := by
    cases hd
    refine ⟨_, rfl, ?_⟩
    rw [hsplit.drop.splitInclusive_flatten, hsplit.splitInclusive_flatten, List.countP_append,
      List.countP_append, List.countP_cons_of_neg (by rw [hline]; decide)]
    exact .refl _

end VaporForge.Config
