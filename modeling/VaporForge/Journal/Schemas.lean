import Mathlib.Data.List.Induction
import VaporForge.Journal.Acknowledge

/-!
# The schema outbox and late attribution

A schema is queued under the backend scope it belongs to, or under the empty
scope while no backend is known; `attribute_pending_schemas` later moves the
latter to the scope that turned up. Wanted, at every moment of every run:

> one row per `(owner_scope, app_id, language)`, and that row carries the
> content of the most recent `enqueue_schema` call made for it.

A query by identity keeps this through every enqueue, settlement and deferral.
Attribution is the exception: it rewrites the scope of a row without looking
whether the new identity is taken, and without asking which of the two contents
is newer. `schemas_exact_iff` says exactly which runs are unaffected.
-/

namespace VaporForge.Journal

open VaporForge.CloudCore
open Lib (Table FetchOrder)

/-! ## Identities and the history of calls -/

structure SchemaIdentity where
  ownerScope : String
  appId : Nat
  language : String
  deriving DecidableEq, Repr

def SchemaRecord.identity (r : SchemaRecord) : SchemaIdentity :=
  ⟨r.ownerScope, r.appId, r.language⟩

def schemaIdentity (s : AchievementSchema) : SchemaIdentity := ⟨s.ownerScope, s.appId, s.language⟩

/-- The content a call or a row carries, apart from its identity. -/
structure SchemaBody where
  schemaVersion : Option String
  content : Bytes
  deriving DecidableEq, Repr

def SchemaRecord.body (r : SchemaRecord) : SchemaBody := ⟨r.schemaVersion, r.content⟩

def schemaBody (s : AchievementSchema) : SchemaBody := ⟨s.schemaVersion, s.content⟩

/-- One `enqueue_schema` call: how many calls went before it, and its content. -/
structure SchemaCall where
  time : Nat
  body : SchemaBody
  deriving DecidableEq, Repr

/-- The most recent call made for each identity. -/
structure SchemaHistory where
  calls : Nat
  last : SchemaIdentity → Option SchemaCall

def SchemaHistory.empty : SchemaHistory := ⟨0, fun _ => none⟩

/-- The later of two calls, either of which may be missing. -/
def laterCall : Option SchemaCall → Option SchemaCall → Option SchemaCall
  | some a, some b => if a.time < b.time then some b else some a
  | some a, none => some a
  | none, b => b

/-- Is a row waiting, under the empty scope, for the app and language of `i`? -/
def orphaned (t : Table SchemaRecord) (i : SchemaIdentity) : Bool :=
  t.rows.toList.any fun row => row.2.identity = { i with ownerScope := "" }

/-- What an action adds to the history. A call under the empty scope counts for
the new identity from its attribution on, with the time it was made at. -/
def Action.recordSchema (t : Table SchemaRecord) (h : SchemaHistory) : Action → SchemaHistory
  | .enqueueSchema _ schema _ =>
    { calls := h.calls + 1
      last := fun i =>
        if i = schemaIdentity schema then some ⟨h.calls, schemaBody schema⟩ else h.last i }
  | .attributePendingSchemas _ ownerScope =>
    if ownerScope = "" then h
    else
      { h with
        last := fun i =>
          if i.ownerScope = ownerScope ∧ orphaned t i then
            laterCall (h.last { i with ownerScope := "" }) (h.last i)
          else h.last i }
  | _ => h

/-- A run of the journal together with the history of its schema calls. -/
structure SchemaRun where
  world : World
  history : SchemaHistory

def SchemaRun.schemas (s : SchemaRun) : Table SchemaRecord := s.world.journal.schemas

def SchemaRun.act (s : SchemaRun) (a : Action) : SchemaRun :=
  ⟨a.run s.world, a.recordSchema s.schemas s.history⟩

def schemaRun (trace : List Action) : SchemaRun :=
  trace.foldl SchemaRun.act ⟨emptyWorld, .empty⟩

theorem schemaRun_concat (trace : List Action) (a : Action) :
    schemaRun (trace ++ [a]) = (schemaRun trace).act a := by
  rw [schemaRun, List.foldl_append, List.foldl_cons, List.foldl_nil, ← schemaRun]

/-! ## What is wanted, and what attribution needs for it -/

/-- One row per identity, with the content of the latest call made for it. -/
structure SchemasExact (s : SchemaRun) : Prop where
  unique : s.schemas.Unique SchemaRecord.identity
  latest : ∀ id r, s.schemas.read id = some r →
    ∃ call, s.history.last r.identity = some call ∧ call.body = r.body

/-- Attribution to `ownerScope` moves no row onto an identity that is taken, or
that has seen a later call with another content. -/
def CleanAttribution (s : SchemaRun) (ownerScope : String) : Prop :=
  ownerScope ≠ "" → ∀ id r, s.schemas.read id = some r → r.ownerScope = "" →
    (∀ id' r', s.schemas.read id' = some r' →
      r'.identity ≠ ⟨ownerScope, r.appId, r.language⟩) ∧
    ∀ earlier later, s.history.last r.identity = some earlier →
      s.history.last ⟨ownerScope, r.appId, r.language⟩ = some later →
      earlier.time < later.time → later.body = r.body

/-! ## What each action does to the table -/

variable {i : SchemaIdentity} {t : Table SchemaRecord} {order : FetchOrder SchemaRecord}
  {r : SchemaRecord} {ownerScope : String} {s : SchemaRun} {call : SchemaCall}

theorem orphaned_iff :
    orphaned t i = true ↔
      ∃ id r, t.read id = some r ∧ r.identity = { i with ownerScope := "" } := by
  unfold orphaned
  rw [List.any_eq_true]
  refine ⟨fun ⟨row, hrow, heq⟩ => ?_, fun ⟨id, r, hread, heq⟩ => ?_⟩
  · exact ⟨row.1, row.2, Std.ExtTreeMap.mem_toList_iff_getElem?_eq_some.mp hrow,
      of_decide_eq_true heq⟩
  · exact ⟨(id, r), Std.ExtTreeMap.mem_toList_iff_getElem?_eq_some.mpr hread,
      decide_eq_true heq⟩

theorem identified_iff (schema : AchievementSchema) (r : SchemaRecord) :
    (r.ownerScope == schema.ownerScope && r.appId == schema.appId &&
      r.language == schema.language) = true ↔ r.identity = schemaIdentity schema := by
  rw [SchemaRecord.identity, schemaIdentity, SchemaIdentity.mk.injEq, Bool.and_eq_true,
    Bool.and_eq_true, beq_iff_eq, beq_iff_eq, beq_iff_eq, and_assoc]

variable {now : Int} {id : Nat} {trace : List Action}

/-- An enqueued schema is the row of its identity; every other row is kept. -/
theorem read_enqueueSchema {schema : AchievementSchema} (huniq : t.Unique SchemaRecord.identity)
    (h : (enqueueSchema order t schema now).read id = some r) :
    r.identity = schemaIdentity schema ∧ r.body = schemaBody schema ∨
      t.read id = some r ∧ r.identity ≠ schemaIdentity schema := by
  unfold enqueueSchema at h
  dsimp only at h
  split at h
  · next id' stored hrow =>
    obtain ⟨hread, hkey⟩ := (huniq.head?_fetch_iff (identified_iff schema)).mp hrow
    rw [Lib.Table.read_update] at h
    split at h
    · obtain ⟨s, -, rfl⟩ := Option.map_eq_some_iff.mp h
      exact Or.inl ⟨rfl, rfl⟩
    · next hne =>
      exact Or.inr ⟨h, fun heq => hne (huniq h hread (heq.trans hkey.symm))⟩
  · next hnone =>
    rw [Lib.Table.read_insert] at h
    split at h
    · cases h
      exact Or.inl ⟨rfl, rfl⟩
    · refine Or.inr ⟨h, fun heq => ?_⟩
      have hp := Lib.Table.head?_fetch_eq_none.mp hnone id r h
      rw [(identified_iff schema r).mpr heq] at hp
      exact absurd hp (by simp)

theorem enqueueSchema_unique (order : FetchOrder SchemaRecord) (schema : AchievementSchema)
    (now : Int) (huniq : t.Unique SchemaRecord.identity) :
    (enqueueSchema order t schema now).Unique SchemaRecord.identity := by
  unfold enqueueSchema
  dsimp only
  split
  · next id stored hrow =>
    obtain ⟨hread, hkey⟩ := (huniq.head?_fetch_iff (identified_iff schema)).mp hrow
    refine huniq.update fun r hr => ?_
    rw [hread, Option.some.injEq] at hr
    exact hr ▸ hkey
  · next hnone =>
    refine huniq.insert fun id r hr heq => ?_
    have hp := Lib.Table.head?_fetch_eq_none.mp hnone id r hr
    rw [(identified_iff schema r).mpr heq] at hp
    exact absurd hp (by simp)

/-- What attribution to `ownerScope` makes of a row. -/
def attributed (ownerScope : String) (r : SchemaRecord) : SchemaRecord :=
  if r.ownerScope = "" then { r with ownerScope, revision := r.revision + 1 } else r

/-- The loop of `attribute_pending_schemas`, over rows fetched before it began. -/
theorem read_foldl_rescope {rows : List (Nat × SchemaRecord)} (hnodup : (rows.map Prod.fst).Nodup)
    (hrows : ∀ row ∈ rows, t.read row.1 = some row.2) (id : Nat) :
    (rows.foldl (fun t row =>
        t.update row.1 { row.2 with ownerScope, revision := row.2.revision + 1 }) t).read id =
      if id ∈ rows.map Prod.fst then
        (t.read id).map fun r => { r with ownerScope, revision := r.revision + 1 }
      else t.read id := by
  induction rows generalizing t with
  | nil => simp
  | cons row rows ih =>
    rw [List.map_cons, List.nodup_cons] at hnodup
    have hrow := hrows row (List.mem_cons_self ..)
    -- the other fetched rows are still as they were fetched
    have hrest : ∀ other ∈ rows, (t.update row.1
        { row.2 with ownerScope, revision := row.2.revision + 1 }).read other.1 =
          some other.2 := by
      intro other hother
      have hne : other.1 ≠ row.1 := fun heq => hnodup.1 (heq ▸ List.mem_map_of_mem hother)
      rw [Lib.Table.read_update_of_ne hne]
      exact hrows other (List.mem_cons_of_mem _ hother)
    rw [List.foldl_cons, ih hnodup.2 hrest, List.map_cons, Lib.Table.read_update]
    by_cases heq : id = row.1
    · subst heq
      rw [if_neg hnodup.1, if_pos rfl, if_pos (List.mem_cons_self ..), hrow]
      rfl
    · rw [if_neg heq]
      simp only [List.mem_cons, heq, false_or]

/-- Attribution rewrites every orphan where it stands. -/
theorem read_attributePendingSchemas (order : FetchOrder SchemaRecord) (t : Table SchemaRecord)
    (hscope : ownerScope ≠ "") (id : Nat) :
    (attributePendingSchemas order t ownerScope).read id =
      (t.read id).map (attributed ownerScope) := by
  unfold attributePendingSchemas
  rw [if_neg hscope, read_foldl_rescope (Lib.Table.nodup_fetch t order _)
    fun row hrow => (Lib.Table.mem_fetch.mp hrow).1]
  cases hread : t.read id with
  | none => simp
  | some r =>
    have hmem : id ∈ (t.fetch order fun r => r.ownerScope == "").map Prod.fst ↔
        r.ownerScope = "" := by
      rw [List.mem_map]
      refine ⟨fun ⟨row, hrow, heq⟩ => ?_, fun hempty => ?_⟩
      · obtain ⟨hr, hp⟩ := Lib.Table.mem_fetch.mp hrow
        rw [heq, hread, Option.some.injEq] at hr
        exact hr ▸ beq_iff_eq.mp hp
      · exact ⟨(id, r), Lib.Table.mem_fetch.mpr ⟨hread, beq_iff_eq.mpr hempty⟩, rfl⟩
    by_cases hempty : r.ownerScope = ""
    · rw [if_pos (hmem.mpr hempty), Option.map_some, Option.map_some, attributed, if_pos hempty]
    · rw [if_neg (fun h => hempty (hmem.mp h)), Option.map_some, attributed, if_neg hempty]

/-! ## One step -/

/-- Settling and deferring add no row and change neither identity nor content. -/
theorem SchemasExact.of_read {s' : SchemaRun} (h : SchemasExact s) (hhist : s'.history = s.history)
    (hread : ∀ id r', s'.schemas.read id = some r' → ∃ r, s.schemas.read id = some r ∧ r.identity = r'.identity ∧ r.body = r'.body)
    :
    SchemasExact s' where
  unique := h.unique.of_read fun id r' hr' =>
    let ⟨r, hr, hid, _⟩ := hread id r' hr'
    ⟨r, hr, hid⟩
  latest := by
    intro id r' hr'
    obtain ⟨r, hr, hid, hbody⟩ := hread id r' hr'
    obtain ⟨call, hcall, hbody'⟩ := h.latest id r hr
    exact ⟨call, by rw [hhist, ← hid]; exact hcall, hbody'.trans hbody⟩

theorem SchemasExact.enqueue (h : SchemasExact s) (order : FetchOrder SchemaRecord)
    (schema : AchievementSchema) (now : Int) :
    SchemasExact (s.act (.enqueueSchema order schema now)) where
  unique := enqueueSchema_unique order schema now h.unique
  latest := by
    intro id r hr
    show ∃ call, (if r.identity = schemaIdentity schema then _ else _) = some call ∧ _
    rcases read_enqueueSchema h.unique hr with ⟨hid, hbody⟩ | ⟨hread, hne⟩
    · rw [if_pos hid]
      exact ⟨_, rfl, hbody.symm⟩
    · rw [if_neg hne]
      exact h.latest id r hread

/-- Rescheduling and dropping rows is invisible to the property. -/
theorem SchemasExact.settle (h : SchemasExact s) (items : List (Queued AchievementSchema)) :
    SchemasExact (s.act (.acknowledgeSchemas items)) := by
  refine h.of_read rfl fun id r hr => ?_
  exact ⟨r, settle_read hr, rfl, rfl⟩

theorem SchemasExact.defer (h : SchemasExact s) (items : List (Queued AchievementSchema))
    (now : Int) : SchemasExact (s.act (.deferSchemas items now)) := by
  refine h.of_read rfl fun id r' hr' => ?_
  have hsame := postpone_map (f := fun r : SchemaRecord => (r.identity, r.body))
    (fun _ _ => rfl) s.schemas items now id
  rw [show (postpone s.schemas items now).read id = some r' from hr', Option.map_some] at hsame
  obtain ⟨r, hr, heq⟩ := Option.map_eq_some_iff.mp hsame.symm
  rw [Prod.mk.injEq] at heq
  exact ⟨r, hr, heq.1, heq.2⟩

theorem attributed_orphan (h : r.ownerScope = "") :
    (attributed ownerScope r).identity = ⟨ownerScope, r.appId, r.language⟩ ∧
      (attributed ownerScope r).body = r.body := by
  rw [attributed, if_pos h]
  exact ⟨rfl, rfl⟩

theorem attributed_owned (h : r.ownerScope ≠ "") : attributed ownerScope r = r := by
  rw [attributed, if_neg h]

/-- The history an attributed row is measured against. -/
theorem last_attributed (hscope : ownerScope ≠ "") (hr : s.schemas.read id = some r)
    (hempty : r.ownerScope = "") :
    (s.act (.attributePendingSchemas order ownerScope)).history.last
        ⟨ownerScope, r.appId, r.language⟩ =
      laterCall (s.history.last r.identity)
        (s.history.last ⟨ownerScope, r.appId, r.language⟩) := by
  have hid : r.identity = ⟨"", r.appId, r.language⟩ := by rw [SchemaRecord.identity, hempty]
  have horphan : orphaned s.schemas ⟨ownerScope, r.appId, r.language⟩ = true :=
    orphaned_iff.mpr ⟨id, r, hr, hid⟩
  show (if ownerScope = "" then s.history else _).last _ = _
  rw [if_neg hscope]
  show (if _ ∧ _ then _ else _) = _
  rw [if_pos ⟨rfl, horphan⟩, hid]

/-- An identity no orphan turns into keeps its history. -/
theorem last_of_not_orphaned (h : ¬(i.ownerScope = ownerScope ∧ orphaned s.schemas i = true)) :
    (s.act (.attributePendingSchemas order ownerScope)).history.last i = s.history.last i := by
  show (if ownerScope = "" then s.history else _).last i = _
  split
  · rfl
  · exact if_neg h

/-- Onto a free identity with no later call of another content, a row may move. -/
theorem SchemasExact.attribute (h : SchemasExact s) (order : FetchOrder SchemaRecord)
    (hscope : ownerScope ≠ "") (hclean : CleanAttribution s ownerScope) :
    SchemasExact (s.act (.attributePendingSchemas order ownerScope)) where
  unique := by
    intro id id' r r' hr hr' heq
    rw [SchemaRun.schemas, show (s.act _).world.journal.schemas = attributePendingSchemas order
      s.schemas ownerScope from rfl, read_attributePendingSchemas order _ hscope] at hr hr'
    obtain ⟨o, ho, rfl⟩ := Option.map_eq_some_iff.mp hr
    obtain ⟨o', ho', rfl⟩ := Option.map_eq_some_iff.mp hr'
    by_cases hempty : o.ownerScope = "" <;> by_cases hempty' : o'.ownerScope = ""
    · -- two orphans: the apps and languages agree, so they were one row before
      rw [(attributed_orphan hempty).1, (attributed_orphan hempty').1,
        SchemaIdentity.mk.injEq] at heq
      refine h.unique ho ho' ?_
      rw [SchemaRecord.identity, SchemaRecord.identity, hempty, hempty', heq.2.1, heq.2.2]
    · rw [(attributed_orphan hempty).1, attributed_owned hempty'] at heq
      exact absurd heq.symm ((hclean hscope id o ho hempty).1 id' o' ho')
    · rw [(attributed_orphan hempty').1, attributed_owned hempty] at heq
      exact absurd heq ((hclean hscope id' o' ho' hempty').1 id o ho)
    · rw [attributed_owned hempty, attributed_owned hempty'] at heq
      exact h.unique ho ho' heq
  latest := by
    intro id r hr
    rw [SchemaRun.schemas, show (s.act _).world.journal.schemas = attributePendingSchemas order
      s.schemas ownerScope from rfl, read_attributePendingSchemas order _ hscope] at hr
    obtain ⟨o, ho, rfl⟩ := Option.map_eq_some_iff.mp hr
    obtain ⟨call, hcall, hbody⟩ := h.latest id o ho
    by_cases hempty : o.ownerScope = ""
    · rw [(attributed_orphan hempty).1, (attributed_orphan hempty).2,
        last_attributed hscope ho hempty, hcall]
      cases hlater : s.history.last ⟨ownerScope, o.appId, o.language⟩ with
      | none => exact ⟨call, rfl, hbody⟩
      | some later =>
        by_cases htime : call.time < later.time
        · exact ⟨later, if_pos htime, (hclean hscope id o ho hempty).2 call later hcall hlater htime⟩
        · exact ⟨call, if_neg htime, hbody⟩
    · rw [attributed_owned hempty]
      refine ⟨call, ?_, hbody⟩
      rw [last_of_not_orphaned]
      · exact hcall
      · -- a row of the scope itself would have been in an orphan's way
        intro hmoved
        obtain ⟨id', o', ho', heq⟩ := orphaned_iff.mp hmoved.2
        rw [SchemaRecord.identity, SchemaIdentity.mk.injEq] at heq
        refine (hclean hscope id' o' ho' heq.1).1 id o ho ?_
        rw [heq.2.1, heq.2.2, ← hmoved.1]

/-- Conversely, an attribution the property survives was clean. -/
theorem cleanAttribution_of_exact
    (h' : SchemasExact (s.act (.attributePendingSchemas order ownerScope))) :
    CleanAttribution s ownerScope := by
  intro hscope id r hr hempty
  have hread : ∀ i, (s.act (.attributePendingSchemas order ownerScope)).schemas.read i =
      (s.schemas.read i).map (attributed ownerScope) :=
    read_attributePendingSchemas order s.schemas hscope
  have hmoved : (s.act (.attributePendingSchemas order ownerScope)).schemas.read id =
      some (attributed ownerScope r) := by rw [hread, hr, Option.map_some]
  refine ⟨fun id' r' hr' heq => ?_, fun earlier later hearlier hlater htime => ?_⟩
  · -- the row in the way stays, so there are two
    have howned : r'.ownerScope ≠ "" := by
      intro h
      rw [SchemaRecord.identity, SchemaIdentity.mk.injEq] at heq
      exact hscope (heq.1.symm.trans h)
    have hkept : (s.act (.attributePendingSchemas order ownerScope)).schemas.read id' =
        some r' := by rw [hread, hr', Option.map_some, attributed_owned howned]
    have hid := h'.unique hmoved hkept (by rw [(attributed_orphan hempty).1, heq])
    rw [hid, hr', Option.some.injEq] at hr
    exact howned (hr ▸ hempty)
  · obtain ⟨call, hcall, hbody⟩ := h'.latest id _ hmoved
    rw [(attributed_orphan hempty).1, last_attributed hscope hr hempty, hearlier, hlater,
      laterCall, if_pos htime, Option.some.injEq] at hcall
    rw [hcall, hbody, (attributed_orphan hempty).2]

/-- The calls that keep the property whatever the state: all but attribution. -/
theorem SchemasExact.act (h : SchemasExact s) (a : Action)
    (hclean : ∀ order ownerScope, a = .attributePendingSchemas order ownerScope → CleanAttribution s ownerScope)
    : SchemasExact (s.act a) := by
  cases a with
  | enqueueSchema order schema now => exact h.enqueue order schema now
  | attributePendingSchemas order ownerScope =>
    by_cases hscope : ownerScope = ""
    · subst hscope
      exact h.of_read rfl fun id r hr => ⟨r, hr, rfl, rfl⟩
    · exact h.attribute order hscope (hclean order ownerScope rfl)
  | acknowledgeSchemas items => exact h.settle items
  | deferSchemas items now => exact h.defer items now
  | _ => exact h.of_read rfl fun id r hr => ⟨r, hr, rfl, rfl⟩

/-! ## Whole runs -/

theorem SchemasExact.start : SchemasExact (schemaRun []) where
  unique := Lib.Table.unique_empty
  latest := by
    intro id r hr
    rw [show (schemaRun []).schemas.read id = none from Lib.Table.read_empty id] at hr
    exact absurd hr (by simp)

/-- Clean attributions keep the property at every moment of a run. -/
theorem schemasExact_of_clean (trace : List Action)
    (hclean : ∀ moment order ownerScope,
      moment ++ [.attributePendingSchemas order ownerScope] <+: trace →
        CleanAttribution (schemaRun moment) ownerScope) :
    SchemasExact (schemaRun trace) := by
  induction trace using List.reverseRecOn with
  | nil => exact SchemasExact.start
  | append_singleton trace a ih =>
    have hbefore := ih fun moment order ownerScope hfront =>
      hclean moment order ownerScope (hfront.trans (List.prefix_append ..))
    rw [schemaRun_concat]
    refine hbefore.act a fun order ownerScope ha => ?_
    exact hclean trace order ownerScope (ha ▸ List.prefix_refl _)

/-- Recorded calls were made in the past. -/
theorem time_lt_calls (trace : List Action) (h : (schemaRun trace).history.last i = some call) :
    call.time < (schemaRun trace).history.calls := by
  induction trace using List.reverseRecOn generalizing i call with
  | nil => exact absurd h (by simp [schemaRun, SchemaHistory.empty])
  | append_singleton trace a ih =>
    rw [schemaRun_concat] at h ⊢
    unfold SchemaRun.act at h ⊢
    dsimp only at h ⊢
    unfold Action.recordSchema at h ⊢
    split at h
    · dsimp only at h ⊢
      split at h
      · rw [Option.some.injEq] at h
        exact h ▸ Nat.lt_succ_self _
      · exact Nat.lt_succ_of_lt (ih h)
    · split at h
      · next hscope =>
        rw [if_pos hscope]
        exact ih h
      · next hscope =>
        rw [if_neg hscope]
        dsimp only at h ⊢
        split at h
        · unfold laterCall at h
          split at h
          · next ha hb =>
            split at h
            · exact ih (hb.trans h)
            · exact ih (ha.trans h)
          · next ha _ => exact ih (ha.trans h)
          · exact ih h
        · exact ih h
    · exact ih h

/-- An action never replaces the call recorded for an identity by an older one. -/
theorem last_act_mono (trace : List Action) (a : Action)
    (h : (schemaRun trace).history.last i = some call) :
    ∃ call', ((schemaRun trace).act a).history.last i = some call' ∧ call.time ≤ call'.time := by
  unfold SchemaRun.act
  dsimp only
  unfold Action.recordSchema
  split
  · dsimp only
    split
    · exact ⟨_, rfl, Nat.le_of_lt (time_lt_calls trace h)⟩
    · exact ⟨call, h, Nat.le_refl _⟩
  · split
    · exact ⟨call, h, Nat.le_refl _⟩
    · dsimp only
      split
      · rw [h]
        cases (schemaRun trace).history.last { i with ownerScope := "" } with
        | none => exact ⟨call, rfl, Nat.le_refl _⟩
        | some orphan =>
          by_cases htime : orphan.time < call.time
          · exact ⟨call, if_pos htime, Nat.le_refl _⟩
          · exact ⟨orphan, if_neg htime, by omega⟩
      · exact ⟨call, h, Nat.le_refl _⟩
  · exact ⟨call, h, Nat.le_refl _⟩

theorem last_mono {trace' : List Action} (hfront : trace <+: trace')
    (h : (schemaRun trace).history.last i = some call) :
    ∃ call', (schemaRun trace').history.last i = some call' ∧ call.time ≤ call'.time := by
  obtain ⟨rest, rfl⟩ := hfront
  induction rest using List.reverseRecOn with
  | nil => exact ⟨call, by rw [List.append_nil]; exact h, Nat.le_refl _⟩
  | append_singleton rest a ih =>
    obtain ⟨mid, hmid, hle⟩ := ih
    obtain ⟨call', hcall', hle'⟩ := last_act_mono (trace ++ rest) a hmid
    rw [← List.append_assoc, schemaRun_concat]
    exact ⟨call', hcall', Nat.le_trans hle hle'⟩

/-! ## The result -/

/-- Of two handouts of one identity, the later never carries the content of an
older call. -/
def SchemaHandoutsInOrder (trace : List Action) : Prop :=
  ∀ earlier later, earlier <+: later → later <+: trace →
    ∀ order now scope, ∀ x ∈ pendingSchemas order (schemaRun earlier).schemas now scope,
    ∀ order' now' scope', ∀ y ∈ pendingSchemas order' (schemaRun later).schemas now' scope',
      schemaIdentity x.value = schemaIdentity y.value →
      ∃ older newer,
        (schemaRun earlier).history.last (schemaIdentity x.value) = some older ∧
        older.body = schemaBody x.value ∧
        (schemaRun later).history.last (schemaIdentity y.value) = some newer ∧
        newer.body = schemaBody y.value ∧ older.time ≤ newer.time

/-- What is handed out carries the content of the latest call for its identity. -/
theorem SchemasExact.handout (h : SchemasExact s) {scope : String} {item : Queued AchievementSchema}
    (hitem : item ∈ pendingSchemas order s.schemas now scope) :
    ∃ call, s.history.last (schemaIdentity item.value) = some call ∧
      call.body = schemaBody item.value := by
  unfold pendingSchemas at hitem
  obtain ⟨row, hrow, hout⟩ := mem_batch hitem
  have hread := (Lib.Table.mem_fetch.mp hrow).1
  obtain ⟨value, hvalue, rfl⟩ := Option.map_eq_some_iff.mp hout
  have heq : row.2.value = value := Option.some.inj hvalue
  subst heq
  exact h.latest row.1 row.2 hread

theorem schemaHandoutsInOrder (h : ∀ moment, moment <+: trace → SchemasExact (schemaRun moment)) :
    SchemaHandoutsInOrder trace := by
  intro earlier later hle hlater order now scope x hx order' now' scope' y hy hid
  obtain ⟨older, holder, hbody⟩ := (h earlier (hle.trans hlater)).handout hx
  obtain ⟨newer, hnewer, hbody'⟩ := (h later hlater).handout hy
  obtain ⟨newer', hnewer', htime⟩ := last_mono hle holder
  rw [hid, hnewer, Option.some.injEq] at hnewer'
  exact ⟨older, newer, holder, hbody, hnewer, hbody', hnewer' ▸ htime⟩

/-- **When the schema outbox is exact.** For every sequence of calls on an empty
journal: each identity has at most one row at every moment, with the content of
the latest call made for it, and handouts never go back in time, exactly when
no attribution moves a row onto an identity that is taken or that has seen a
later call with another content. -/
theorem schemas_exact_iff (trace : List Action) :
    ((∀ moment, moment <+: trace → SchemasExact (schemaRun moment)) ∧
        SchemaHandoutsInOrder trace) ↔
      ∀ moment order ownerScope,
        moment ++ [.attributePendingSchemas order ownerScope] <+: trace →
          CleanAttribution (schemaRun moment) ownerScope := by
  refine ⟨fun ⟨hexact, _⟩ moment order ownerScope hfront => ?_, fun hclean => ?_⟩
  · have hafter := hexact _ hfront
    rw [schemaRun_concat] at hafter
    exact cleanAttribution_of_exact hafter
  · have hexact : ∀ moment, moment <+: trace → SchemasExact (schemaRun moment) :=
      fun moment hmoment => schemasExact_of_clean moment fun m order ownerScope hfront =>
        hclean m order ownerScope (hfront.trans hmoment)
    exact ⟨hexact, schemaHandoutsInOrder hexact⟩

/-- A schema of one app and language, before and after the backend is known. -/
def schemaSample (ownerScope : String) (content : Bytes) : AchievementSchema :=
  ⟨ownerScope, 480, "english", none, content⟩

def collidingTrace : List Action :=
  [.enqueueSchema .minted (schemaSample "" [1]) 100,
    .enqueueSchema .minted (schemaSample "backend" [2]) 200,
    .attributePendingSchemas .minted "backend"]

/-- Attribution moves the orphan next to the row that is already there: two rows
of one identity, both handed out. -/
theorem schemas_collide :
    pendingSchemas .minted (schemaRun collidingTrace).schemas 300 "backend" =
        [⟨schemaSample "backend" [1], 0, 1⟩, ⟨schemaSample "backend" [2], 1, 0⟩] ∧
      ¬(∀ moment, moment <+: collidingTrace → SchemasExact (schemaRun moment)) := by
  refine ⟨by decide +kernel, fun h => ?_⟩
  have hunique := (h collidingTrace (List.prefix_refl _)).unique
  have hfirst : (schemaRun collidingTrace).schemas.read 0 =
      some ⟨⟨1, 0, 0, 100⟩, "backend", 480, "english", none, [1]⟩ := by decide +kernel
  have hsecond : (schemaRun collidingTrace).schemas.read 1 =
      some ⟨⟨0, 0, 0, 200⟩, "backend", 480, "english", none, [2]⟩ := by decide +kernel
  exact absurd (hunique hfirst hsecond rfl) (by decide)

end VaporForge.Journal
