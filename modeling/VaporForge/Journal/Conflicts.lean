import VaporForge.Journal.Acknowledge

/-!
# The newest conflict decision is the one reported

A conflict decision is staged under the credential it was made with, because
the principal behind the credential may not be known yet, and moves to the
principal later. A newer decision replaces an older one in two places: at
`enqueue_conflict` inside a scope, and at `attribute_pending_conflicts` across
scopes. The two together are meant to guarantee

> one row per scope and app, and the principal's row is the last decision made.

The invariant names, for each row, the decision it carries: a staged row carries
the last decision of its app since the last attribution, a row of the principal
the last one before it. Together with "every decision since the last
attribution is still staged" it survives every step; the second half is what an
acknowledgement out of the staging area would break
(`acknowledged_while_staged`).
-/

namespace VaporForge.Journal

open VaporForge.CloudCore
open Lib (Table FetchOrder)

/-! ## What the two operations do to each row -/

/-- `for_app`: scope and app. -/
def ConflictRecord.key (r : ConflictRecord) : String × Nat := (r.ownerScope, r.appId)

theorem forApp_iff (ownerScope : String) (appId : Nat) (r : ConflictRecord) :
    (r.ownerScope == ownerScope && r.appId == appId) = true ↔ r.key = (ownerScope, appId) := by
  unfold ConflictRecord.key
  rw [Bool.and_eq_true, beq_iff_eq, beq_iff_eq, Prod.mk.injEq]

variable {t : Table ConflictRecord} {resolution : ConflictResolutionEvent} {principalScope : String}

/-- With an event id of its own, a decision takes the place of every row of its
scope and app. -/
theorem read_enqueueConflict
    (hfresh : ∀ id r, t.read id = some r → r.ownerScope = resolution.ownerScope → r.eventId ≠ resolution.eventId)
    (order : FetchOrder ConflictRecord) (now : Int) (id : Nat) (r : ConflictRecord) :
    (enqueueConflict order t resolution now).read id = some r ↔
      (id = t.next ∧ r = .new resolution now) ∨
        (t.read id = some r ∧ r.key ≠ (resolution.ownerScope, resolution.appId)) := by
  have hdrop : ∀ id r, (dropSupersededConflicts order t resolution).read id = some r ↔
      t.read id = some r ∧ r.key ≠ (resolution.ownerScope, resolution.appId) := by
    intro id r
    refine Table.read_delete_rows
      (p := fun r : ConflictRecord => r.key = (resolution.ownerScope, resolution.appId)) fun id r => ?_
    rw [List.mem_filter, Table.mem_fetch, and_assoc, forApp_iff]
    refine and_congr_right fun hread => and_iff_left_of_imp fun hkey => ?_
    exact bne_iff_ne.mpr (hfresh id r hread (congrArg Prod.fst hkey))
  unfold enqueueConflict
  dsimp only
  split
  · next id' stored hrow =>
    -- no row of the scope carries the event id yet
    obtain ⟨hread, hsame⟩ := Table.head?_fetch hrow
    rw [Bool.and_eq_true, beq_iff_eq, beq_iff_eq] at hsame
    exact absurd hsame.2 (hfresh id' stored ((hdrop id' stored).mp hread).1 hsame.1)
  · have hnext : (dropSupersededConflicts order t resolution).next = t.next :=
      Table.next_foldl_delete _ _
    rw [Table.read_insert, hnext, ← hdrop]
    by_cases hid : id = t.next
    · have hunused : (dropSupersededConflicts order t resolution).read id = none :=
        Table.read_eq_none_of_le (by omega)
      rw [if_pos hid, hunused, Option.some.injEq]
      constructor
      · intro heq
        exact Or.inl ⟨hid, heq.symm⟩
      · intro hcases
        rcases hcases with ⟨_, heq⟩ | hnone
        · exact heq.symm
        · exact absurd hnone (by simp)
    · rw [if_neg hid]
      constructor
      · exact Or.inr
      · intro hcases
        rcases hcases with ⟨heq, _⟩ | hread
        · exact absurd heq hid
        · exact hread

/-- A staged record after it was handed over to the principal. -/
def ConflictRecord.attributed (r : ConflictRecord) (principalScope : String) : ConflictRecord :=
  { r with ownerScope := principalScope, revision := r.revision + 1 }

theorem read_attributeConflictOne {row : Nat × ConflictRecord} (hrow : t.read row.1 = some row.2)
    (hstaged : row.2.ownerScope ≠ principalScope) (order : FetchOrder ConflictRecord) (id : Nat)
    (r : ConflictRecord) :
    (attributeConflictOne order principalScope t row).read id = some r ↔
      (id = row.1 ∧ r = row.2.attributed principalScope) ∨
        (id ≠ row.1 ∧ t.read id = some r ∧ r.key ≠ (principalScope, row.2.appId)) := by
  have hdrop : ∀ id r,
      (((t.fetch order fun r => r.ownerScope == principalScope && r.appId == row.2.appId).map
        Prod.fst).foldl Table.delete t).read id = some r ↔
      t.read id = some r ∧ r.key ≠ (principalScope, row.2.appId) := by
    intro id r
    refine Table.read_delete_rows
      (p := fun r : ConflictRecord => r.key = (principalScope, row.2.appId)) fun id r => ?_
    rw [Table.mem_fetch, forApp_iff]
  have hkept := (hdrop row.1 row.2).mpr ⟨hrow, fun hkey => hstaged (congrArg Prod.fst hkey)⟩
  unfold attributeConflictOne
  dsimp only
  rw [Table.read_update, hkept]
  by_cases hid : id = row.1
  · rw [if_pos hid, Option.map_some, Option.some.injEq]
    constructor
    · intro heq
      exact Or.inl ⟨hid, heq.symm⟩
    · intro hcases
      rcases hcases with ⟨_, heq⟩ | ⟨hne, _⟩
      · exact heq.symm
      · exact absurd hid hne
  · rw [if_neg hid, hdrop]
    constructor
    · exact fun hread => Or.inr ⟨hid, hread⟩
    · intro hcases
      rcases hcases with ⟨heq, _⟩ | ⟨_, hread⟩
      · exact absurd heq hid
      · exact hread

/-- The loop over the staged rows: each of them moves, and takes the place of
the principal's row of its app. -/
theorem read_foldl_attribute {order : FetchOrder ConflictRecord}
    (rows : List (Nat × ConflictRecord)) :
    ∀ {t : Table ConflictRecord},
      rows.Pairwise (fun a b => a.1 ≠ b.1 ∧ a.2.appId ≠ b.2.appId) →
      (∀ row ∈ rows, t.read row.1 = some row.2 ∧ row.2.ownerScope ≠ principalScope) →
      ∀ id r, (rows.foldl (attributeConflictOne order principalScope) t).read id = some r ↔
        (∃ row ∈ rows, id = row.1 ∧ r = row.2.attributed principalScope) ∨
          (t.read id = some r ∧
            ∀ row ∈ rows, id ≠ row.1 ∧ r.key ≠ (principalScope, row.2.appId)) := by
  induction rows with
  | nil =>
    intro t _ _ id r
    simp
  | cons row rows ih =>
    intro t hpair hrows id r
    obtain ⟨hhead, htail⟩ := List.pairwise_cons.mp hpair
    obtain ⟨hread, hstaged⟩ := hrows row (List.mem_cons_self ..)
    have hone := read_attributeConflictOne hread hstaged order
    rw [List.foldl_cons, ih htail]
    · simp only [List.exists_mem_cons_iff, List.forall_mem_cons, hone]
      constructor
      · rintro (hlater | ⟨⟨hid, heq⟩ | ⟨hid, hr, hkey⟩, hother⟩)
        · exact Or.inl (Or.inr hlater)
        · exact Or.inl (Or.inl ⟨hid, heq⟩)
        · exact Or.inr ⟨hr, ⟨hid, hkey⟩, hother⟩
      · rintro ((⟨hid, heq⟩ | hlater) | ⟨hr, ⟨hid, hkey⟩, hother⟩)
        · refine Or.inr ⟨Or.inl ⟨hid, heq⟩, fun other hmem => ?_⟩
          obtain ⟨hne, happ⟩ := hhead other hmem
          refine ⟨hid ▸ hne, fun hkey => happ ?_⟩
          rw [heq] at hkey
          exact congrArg Prod.snd hkey
        · exact Or.inl hlater
        · exact Or.inr ⟨Or.inr ⟨hid, hr, hkey⟩, hother⟩
    · -- the rows still to come are untouched
      intro other hmem
      obtain ⟨hother, hscope⟩ := hrows other (List.mem_cons_of_mem _ hmem)
      refine ⟨(hone other.1 other.2).mpr (Or.inr ⟨?_, hother, ?_⟩), hscope⟩
      · exact (hhead other hmem).1.symm
      · exact fun hkey => hscope (congrArg Prod.fst hkey)

/-- Two scopes that name an account: the digest of the credential and that of
the principal behind it. Both are domain-separated hashes, so neither is empty
and they differ. -/
structure ConflictScopes where
  credential : String
  principal : String
  credential_ne : credential ≠ ""
  principal_ne : principal ≠ ""
  distinct : credential ≠ principal

variable (scopes : ConflictScopes)

theorem read_attributePendingConflicts (hunique : t.Unique ConflictRecord.key)
    (order : FetchOrder ConflictRecord) (id : Nat) (r : ConflictRecord) :
    (attributePendingConflicts order t scopes.credential scopes.principal).read id = some r ↔
      (∃ staged, t.read id = some staged ∧ staged.ownerScope = scopes.credential ∧
          r = staged.attributed scopes.principal) ∨
        (t.read id = some r ∧ r.ownerScope ≠ scopes.credential ∧
          ∀ id' staged, t.read id' = some staged → staged.ownerScope = scopes.credential →
            r.key ≠ (scopes.principal, staged.appId)) := by
  have hrow : ∀ id r, (id, r) ∈ t.fetch order (fun r => r.ownerScope == scopes.credential) ↔
      t.read id = some r ∧ r.ownerScope = scopes.credential := by
    intro id r
    rw [Table.mem_fetch, beq_iff_eq]
  unfold attributePendingConflicts
  rw [if_neg (by
    rintro (h | h | h)
    · exact scopes.credential_ne h
    · exact scopes.principal_ne h
    · exact scopes.distinct h)]
  rw [read_foldl_attribute]
  · constructor
    · rintro (⟨⟨id', staged⟩, hmem, rfl, heq⟩ | ⟨hread, hother⟩)
      · obtain ⟨hstaged, hscope⟩ := (hrow id staged).mp hmem
        exact Or.inl ⟨staged, hstaged, hscope, heq⟩
      · refine Or.inr ⟨hread, fun hscope => ?_, fun id' staged hstaged hscope => ?_⟩
        · exact (hother (id, r) ((hrow id r).mpr ⟨hread, hscope⟩)).1 rfl
        · exact (hother (id', staged) ((hrow id' staged).mpr ⟨hstaged, hscope⟩)).2
    · rintro (⟨staged, hstaged, hscope, heq⟩ | ⟨hread, hscope, hother⟩)
      · exact Or.inl ⟨(id, staged), (hrow id staged).mpr ⟨hstaged, hscope⟩, rfl, heq⟩
      · refine Or.inr ⟨hread, fun row hmem => ?_⟩
        obtain ⟨hstaged, hstagedScope⟩ := (hrow row.1 row.2).mp hmem
        refine ⟨fun hid => ?_, hother row.1 row.2 hstaged hstagedScope⟩
        rw [← hid, hread, Option.some.injEq] at hstaged
        exact hscope (hstaged ▸ hstagedScope)
  · -- distinct rows of one scope belong to distinct apps
    have hnodup := Table.nodup_fetch t order fun r => r.ownerScope == scopes.credential
    rw [List.nodup_iff_pairwise_ne, List.pairwise_map] at hnodup
    refine hnodup.imp_of_mem fun {a b} ha hb hne => ⟨hne, fun happ => hne ?_⟩
    obtain ⟨hreadA, hscopeA⟩ := (hrow a.1 a.2).mp ha
    obtain ⟨hreadB, hscopeB⟩ := (hrow b.1 b.2).mp hb
    exact hunique hreadA hreadB (Prod.ext (hscopeA.trans hscopeB.symm) happ)
  · intro row hmem
    obtain ⟨hread, hscope⟩ := (hrow row.1 row.2).mp hmem
    exact ⟨hread, hscope ▸ scopes.distinct⟩

/-! ## Runs -/

/-- The conflict outbox, with what was handed out of it and the decisions put
into it: those made since the last attribution, and those made before it. -/
structure ConflictWorld where
  conflicts : Table ConflictRecord
  handed : List (Queued ConflictResolutionEvent)
  attributed : List ConflictResolutionEvent
  staged : List ConflictResolutionEvent

namespace ConflictWorld

def start : ConflictWorld := ⟨.empty, [], [], []⟩

/-- All decisions made so far, oldest first. -/
def enqueued (w : ConflictWorld) : List ConflictResolutionEvent := w.attributed ++ w.staged

end ConflictWorld

inductive ConflictAction where
  | enqueue (order : FetchOrder ConflictRecord) (resolution : ConflictResolutionEvent) (now : Int)
  | attributePending (order : FetchOrder ConflictRecord)
  | pendingCloud (order : FetchOrder ConflictRecord) (now : Int) (ownerScope : String)
  | pendingLocal (order : FetchOrder ConflictRecord) (ownerScope : String)
      (appId remoteChangeNumber : Nat)
  | postpone (items : List (Queued ConflictResolutionEvent)) (now : Int)
  | acknowledge (items : List (Queued ConflictResolutionEvent))

namespace ConflictAction

/-- What an action hands out. -/
def handOut (t : Table ConflictRecord) :
    ConflictAction → List (Queued ConflictResolutionEvent)
  | pendingCloud order now ownerScope => pendingCloudConflicts order t now ownerScope
  | pendingLocal order ownerScope appId remoteChangeNumber =>
    (pendingLocalConflict order t ownerScope appId remoteChangeNumber).toList
  | _ => []

def run (w : ConflictWorld) : ConflictAction → ConflictWorld
  | enqueue order resolution now =>
    { w with
      conflicts := enqueueConflict order w.conflicts resolution now
      staged := w.staged ++ [resolution] }
  | attributePending order =>
    { w with
      conflicts :=
        attributePendingConflicts order w.conflicts scopes.credential scopes.principal
      attributed := w.enqueued
      staged := [] }
  | postpone items now => { w with conflicts := Journal.postpone w.conflicts items now }
  | acknowledge items => { w with conflicts := settle w.conflicts items }
  | action => { w with handed := w.handed ++ action.handOut w.conflicts }

/-- Decisions are staged under the credential, each with an event id of its own,
and only what was handed out can be settled. -/
def Legal (w : ConflictWorld) : ConflictAction → Prop
  | enqueue _ resolution _ =>
    resolution.ownerScope = scopes.credential ∧
      resolution.eventId ∉ w.enqueued.map ConflictResolutionEvent.eventId
  | postpone items _ => ∀ item ∈ items, item ∈ w.handed
  | acknowledge items => ∀ item ∈ items, item ∈ w.handed
  | _ => True

/-- What is acknowledged was handed out under the principal's scope; no other
scope is ever asked for by `deliver_ready_conflicts` or `handle_begin_batch`. -/
def AcknowledgesPrincipal : ConflictAction → Prop
  | acknowledge items => ∀ item ∈ items, item.value.ownerScope = scopes.principal
  | _ => True

end ConflictAction

inductive ConflictRun : List ConflictAction → ConflictWorld → Prop
  | start : ConflictRun [] .start
  | act {trace : List ConflictAction} {w : ConflictWorld} (action : ConflictAction) :
      ConflictRun trace w → action.Legal scopes w → ConflictRun (trace ++ [action])
        (action.run scopes w)

/-- The most recently enqueued decision for an app. -/
def latestFor (appId : Nat) (decisions : List ConflictResolutionEvent) :
    Option ConflictResolutionEvent :=
  (decisions.filter fun decision => decision.appId == appId).getLast?

theorem latestFor_append (appId : Nat) (older newer : List ConflictResolutionEvent) :
    latestFor appId (older ++ newer) =
      (latestFor appId newer).or (latestFor appId older) := by
  unfold latestFor
  rw [List.filter_append, List.getLast?_append]

theorem latestFor_concat (appId : Nat) (decisions : List ConflictResolutionEvent)
    (decision : ConflictResolutionEvent) :
    latestFor appId (decisions ++ [decision]) =
      if decision.appId = appId then some decision else latestFor appId decisions := by
  rw [latestFor_append]
  by_cases happ : decision.appId = appId
  · rw [if_pos happ]
    simp [latestFor, happ]
  · rw [if_neg happ]
    simp [latestFor, happ]

theorem mem_of_latestFor {appId : Nat} {decisions : List ConflictResolutionEvent}
    {decision : ConflictResolutionEvent} (h : latestFor appId decisions = some decision) :
    decision ∈ decisions ∧ decision.appId = appId := by
  have hmem := List.mem_filter.mp (List.mem_of_getLast? h)
  exact ⟨hmem.1, beq_iff_eq.mp hmem.2⟩

/-! ## The invariant -/

/-- The decision a row carries. -/
def CarriesLatest (w : ConflictWorld) (r : ConflictRecord) : Prop :=
  (r.ownerScope = scopes.credential ∧ r.revision = 0 ∧
      latestFor r.appId w.staged = some r.value) ∨
    (r.ownerScope = scopes.principal ∧ r.revision = 1 ∧
      ∃ decision, latestFor r.appId w.attributed = some decision ∧
        r.value = { decision with ownerScope := scopes.principal })

structure ConflictInv (w : ConflictWorld) : Prop where
  unique : w.conflicts.Unique ConflictRecord.key
  rows : ∀ id r, w.conflicts.read id = some r → CarriesLatest scopes w r
  eventIds : (w.enqueued.map ConflictResolutionEvent.eventId).Nodup
  /-- A row's revision tells the two scopes apart. -/
  handed : ∀ item ∈ w.handed, item.value.ownerScope = scopes.principal → item.revision = 1

/-- Nothing that was decided since the last attribution has gone from the
staging area. -/
def StagedKept (w : ConflictWorld) : Prop :=
  ∀ appId decision, latestFor appId w.staged = some decision →
    ∃ id r, w.conflicts.read id = some r ∧ r.ownerScope = scopes.credential ∧
      r.value = decision

section Step

variable {scopes} {w : ConflictWorld}

variable {r : ConflictRecord}

theorem CarriesLatest.staged (h : CarriesLatest scopes w r)
    (hscope : r.ownerScope = scopes.credential) :
    r.revision = 0 ∧ latestFor r.appId w.staged = some r.value := by
  rcases h with ⟨_, h⟩ | ⟨hprincipal, _⟩
  · exact h
  · exact absurd (hscope.symm.trans hprincipal) scopes.distinct

theorem CarriesLatest.attributed (h : CarriesLatest scopes w r)
    (hscope : r.ownerScope = scopes.principal) :
    r.revision = 1 ∧ ∃ decision, latestFor r.appId w.attributed = some decision ∧
      r.value = { decision with ownerScope := scopes.principal } := by
  rcases h with ⟨hcredential, _⟩ | ⟨_, h⟩
  · exact absurd (hcredential.symm.trans hscope) scopes.distinct
  · exact h

/-- The event id of a staged row is one of those handed out so far. -/
theorem ConflictInv.eventId_ne (h : ConflictInv scopes w)
    (hscope : resolution.ownerScope = scopes.credential)
    (hfresh : resolution.eventId ∉ w.enqueued.map ConflictResolutionEvent.eventId) (id : Nat)
    (r : ConflictRecord) (hr : w.conflicts.read id = some r)
    (hsame : r.ownerScope = resolution.ownerScope) : r.eventId ≠ resolution.eventId := by
  intro heq
  have hlatest := ((h.rows id r hr).staged (hsame.trans hscope)).2
  refine hfresh (heq ▸ List.mem_map.mpr ⟨r.value, ?_, rfl⟩)
  exact List.mem_append_right _ (mem_of_latestFor hlatest).1

theorem ConflictInv.enqueue (h : ConflictInv scopes w) (order : FetchOrder ConflictRecord)
    (resolution : ConflictResolutionEvent) (now : Int)
    (hscope : resolution.ownerScope = scopes.credential)
    (hfresh : resolution.eventId ∉ w.enqueued.map ConflictResolutionEvent.eventId) :
    ConflictInv scopes ((ConflictAction.enqueue order resolution now).run scopes w) := by
  have hread := read_enqueueConflict (h.eventId_ne hscope hfresh) order now
  refine ⟨?_, fun id r hr => ?_, ?_, h.handed⟩
  · intro id id' r r' hr hr' hkey
    rcases (hread id r).mp hr with ⟨hid, heq⟩ | ⟨hold, hother⟩
    · rcases (hread id' r').mp hr' with ⟨hid', _⟩ | ⟨_, hother'⟩
      · exact hid.trans hid'.symm
      · rw [← hkey, heq] at hother'
        exact absurd rfl hother'
    · rcases (hread id' r').mp hr' with ⟨_, heq'⟩ | ⟨hold', _⟩
      · rw [hkey, heq'] at hother
        exact absurd rfl hother
      · exact h.unique hold hold' hkey
  · rcases (hread id r).mp hr with ⟨_, heq⟩ | ⟨hold, hother⟩
    · subst heq
      exact Or.inl ⟨hscope, rfl, by
        show latestFor resolution.appId (w.staged ++ [resolution]) = some resolution
        rw [latestFor_concat, if_pos rfl]⟩
    · rcases h.rows id r hold with ⟨hcredential, hrevision, hlatest⟩ | hprincipal
      · have happ : resolution.appId ≠ r.appId := fun heq =>
          hother (Prod.ext (hcredential.trans hscope.symm) heq.symm)
        refine Or.inl ⟨hcredential, hrevision, ?_⟩
        show latestFor r.appId (w.staged ++ [resolution]) = some r.value
        rw [latestFor_concat, if_neg happ]
        exact hlatest
      · exact Or.inr hprincipal
  · show ((w.attributed ++ (w.staged ++ [resolution])).map _).Nodup
    rw [← List.append_assoc, List.map_append, List.nodup_append]
    refine ⟨h.eventIds, List.nodup_singleton _, fun a ha b hb heq => hfresh ?_⟩
    rw [List.map_singleton, List.mem_singleton] at hb
    exact hb ▸ heq ▸ ha

theorem StagedKept.enqueue (h : ConflictInv scopes w) (hkept : StagedKept scopes w)
    (order : FetchOrder ConflictRecord) (resolution : ConflictResolutionEvent) (now : Int)
    (hscope : resolution.ownerScope = scopes.credential)
    (hfresh : resolution.eventId ∉ w.enqueued.map ConflictResolutionEvent.eventId) :
    StagedKept scopes ((ConflictAction.enqueue order resolution now).run scopes w) := by
  have hread := read_enqueueConflict (h.eventId_ne hscope hfresh) order now
  intro appId decision hlatest
  have hlatest : latestFor appId (w.staged ++ [resolution]) = some decision := hlatest
  rw [latestFor_concat] at hlatest
  split at hlatest
  · cases hlatest
    exact ⟨_, .new resolution now, (hread _ _).mpr (Or.inl ⟨rfl, rfl⟩), hscope, rfl⟩
  · next happ =>
    obtain ⟨id, r, hr, hcredential, hvalue⟩ := hkept appId decision hlatest
    refine ⟨id, r, (hread id r).mpr (Or.inr ⟨hr, fun hkey => happ ?_⟩), hcredential, hvalue⟩
    have hrapp : r.appId = decision.appId := congrArg ConflictResolutionEvent.appId hvalue
    exact (congrArg Prod.snd hkey).symm.trans (hrapp.trans (mem_of_latestFor hlatest).2)

/-- Attribution empties the staging area into the principal's rows. -/
theorem ConflictInv.attributePending (h : ConflictInv scopes w) (hkept : StagedKept scopes w)
    (order : FetchOrder ConflictRecord) :
    ConflictInv scopes ((ConflictAction.attributePending order).run scopes w) := by
  have hread := read_attributePendingConflicts scopes h.unique order
  refine ⟨?_, fun id r hr => ?_, ?_, h.handed⟩
  · intro id id' r r' hr hr' hkey
    rcases (hread id r).mp hr with ⟨s, hs, hscope, heq⟩ | ⟨hold, _, hother⟩
    · rcases (hread id' r').mp hr' with ⟨s', hs', hscope', heq'⟩ | ⟨_, _, hother'⟩
      · rw [heq, heq'] at hkey
        have happ : s.appId = s'.appId := congrArg Prod.snd hkey
        exact h.unique hs hs' (Prod.ext (hscope.trans hscope'.symm) happ)
      · rw [heq] at hkey
        exact absurd hkey.symm (hother' id s hs hscope)
    · rcases (hread id' r').mp hr' with ⟨s', hs', hscope', heq'⟩ | ⟨hold', _, _⟩
      · rw [heq'] at hkey
        exact absurd hkey (hother id' s' hs' hscope')
      · exact h.unique hold hold' hkey
  · rcases (hread id r).mp hr with ⟨s, hs, hscope, heq⟩ | ⟨hold, hscope, hother⟩
    · obtain ⟨hrevision, hlatest⟩ := (h.rows id s hs).staged hscope
      subst heq
      refine Or.inr ⟨rfl, congrArg Nat.succ hrevision, s.value, ?_, rfl⟩
      show latestFor s.appId (w.attributed ++ w.staged) = some s.value
      rw [latestFor_append, hlatest]
      rfl
    · rcases h.rows id r hold with ⟨hcredential, _⟩ | ⟨hprincipal, hrevision, decision, hlatest, hv⟩
      · exact absurd hcredential hscope
      · refine Or.inr ⟨hprincipal, hrevision, decision, ?_, hv⟩
        show latestFor r.appId (w.attributed ++ w.staged) = some decision
        -- a newer decision for the app would be staged, and would have replaced the row
        have hnone : latestFor r.appId w.staged = none := by
          by_contra hsome
          obtain ⟨newer, hnewer⟩ := Option.ne_none_iff_exists'.mp hsome
          obtain ⟨id', s, hs, hcredential, hvalue⟩ := hkept _ newer hnewer
          refine hother id' s hs hcredential (Prod.ext hprincipal ?_)
          exact (mem_of_latestFor hnewer).2.symm.trans
            (congrArg ConflictResolutionEvent.appId hvalue).symm
        rw [latestFor_append, hnone]
        exact hlatest
  · show ((w.enqueued ++ []).map _).Nodup
    rw [List.append_nil]
    exact h.eventIds

/-- Deferring and settling: rows may go, and a row that stays keeps its decision
and its revision. -/
theorem ConflictInv.of_rows (h : ConflictInv scopes w)
    (hread : ∀ id r', t.read id = some r' → ∃ r, w.conflicts.read id = some r ∧ r'.value = r.value ∧ r'.revision = r.revision)
    : ConflictInv scopes { w with conflicts := t } := by
  have hkey : ∀ r r' : ConflictRecord, r'.value = r.value → r.key = r'.key := fun r r' hv =>
    Prod.ext (congrArg ConflictResolutionEvent.ownerScope hv).symm
      (congrArg ConflictResolutionEvent.appId hv).symm
  refine ⟨?_, fun id r' hr' => ?_, h.eventIds, h.handed⟩
  · refine h.unique.of_read fun id r' hr' => ?_
    obtain ⟨r, hr, hvalue, _⟩ := hread id r' hr'
    exact ⟨r, hr, hkey r r' hvalue⟩
  · obtain ⟨r, hr, hvalue, hrevision⟩ := hread id r' hr'
    have hcarries := h.rows id r hr
    have hk := hkey r r' hvalue
    have hscope : r.ownerScope = r'.ownerScope := congrArg Prod.fst hk
    have happ : r.appId = r'.appId := congrArg Prod.snd hk
    unfold CarriesLatest at hcarries ⊢
    rw [hscope, happ, ← hvalue, ← hrevision] at hcarries
    exact hcarries

theorem postpone_conflicts (t : Table ConflictRecord)
    (items : List (Queued ConflictResolutionEvent)) (now : Int) (id : Nat) :
    ((postpone t items now).read id).map (fun r => (r.value, r.revision)) =
      (t.read id).map (fun r => (r.value, r.revision)) :=
  postpone_map (fun _ _ => rfl) t items now id

theorem ConflictInv.postpone (h : ConflictInv scopes w)
    (items : List (Queued ConflictResolutionEvent)) (now : Int) :
    ConflictInv scopes ((ConflictAction.postpone items now).run scopes w) := by
  refine h.of_rows fun id r' hr' => ?_
  have hid := postpone_conflicts w.conflicts items now id
  rw [hr', Option.map_some] at hid
  obtain ⟨r, hr, heq⟩ := Option.map_eq_some_iff.mp hid.symm
  exact ⟨r, hr, (congrArg Prod.fst heq).symm, (congrArg Prod.snd heq).symm⟩

theorem StagedKept.postpone (h : StagedKept scopes w)
    (items : List (Queued ConflictResolutionEvent)) (now : Int) :
    StagedKept scopes ((ConflictAction.postpone items now).run scopes w) := by
  intro appId decision hlatest
  obtain ⟨id, r, hr, hscope, hvalue⟩ := h appId decision hlatest
  have hid := postpone_conflicts w.conflicts items now id
  rw [hr, Option.map_some] at hid
  obtain ⟨r', hr', heq⟩ := Option.map_eq_some_iff.mp hid
  have hv : r'.value = r.value := congrArg Prod.fst heq
  have hscope' : r'.ownerScope = r.ownerScope := congrArg ConflictResolutionEvent.ownerScope hv
  exact ⟨id, r', hr', hscope'.trans hscope, hv.trans hvalue⟩

theorem ConflictInv.acknowledge (h : ConflictInv scopes w)
    (items : List (Queued ConflictResolutionEvent)) :
    ConflictInv scopes ((ConflictAction.acknowledge items).run scopes w) :=
  h.of_rows fun _ r hr => ⟨r, settle_read hr, rfl, rfl⟩

/-- A row none of the items was taken from, by its revision, is not settled. -/
theorem settle_keeps {items : List (Queued ConflictResolutionEvent)}
    (hother : ∀ item ∈ items, sameRevision r.revision item.revision = false) :
    ∀ {t : Table ConflictRecord} {id : Nat}, t.read id = some r →
      (settle t items).read id = some r := by
  induction items with
  | nil => exact fun hr => hr
  | cons item items ih =>
    intro t id hr
    refine ih (fun other hmem => hother other (List.mem_cons_of_mem _ hmem)) ?_
    unfold settleOne
    split
    · exact hr
    · next stored hstored =>
      split
      · next hsame =>
        rw [Table.read_delete, if_neg]
        · exact hr
        · intro hid
          rw [hid, hstored, Option.some.injEq] at hr
          subst hr
          have hne := hother item (List.mem_cons_self ..)
          exact Bool.false_ne_true (hne.symm.trans hsame)
      · exact hr

/-- What was handed out under the principal's scope has a revision no staged row
has. -/
theorem StagedKept.acknowledge (h : ConflictInv scopes w) (hkept : StagedKept scopes w)
    (items : List (Queued ConflictResolutionEvent)) (hlegal : ∀ item ∈ items, item ∈ w.handed)
    (hprincipal : ∀ item ∈ items, item.value.ownerScope = scopes.principal) :
    StagedKept scopes ((ConflictAction.acknowledge items).run scopes w) := by
  intro appId decision hlatest
  obtain ⟨id, r, hr, hscope, hvalue⟩ := hkept appId decision hlatest
  refine ⟨id, r, settle_keeps (fun item hitem => ?_) hr, hscope, hvalue⟩
  rw [((h.rows id r hr).staged hscope).1,
    h.handed item (hlegal item hitem) (hprincipal item hitem)]
  rfl

/-- A handout is a copy of a row. -/
theorem handOut_row (t : Table ConflictRecord) (action : ConflictAction)
    {item : Queued ConflictResolutionEvent} (hitem : item ∈ action.handOut t) :
    ∃ r, t.read item.id = some r ∧ item.value = r.value ∧ item.revision = r.revision := by
  have hcopy : ∀ row : Nat × ConflictRecord, t.read row.1 = some row.2 →
      handout row = some item →
      ∃ r, t.read item.id = some r ∧ item.value = r.value ∧ item.revision = r.revision := by
    intro row hread hout
    obtain ⟨value, hvalue, rfl⟩ := Option.map_eq_some_iff.mp hout
    cases hvalue
    exact ⟨row.2, hread, rfl, rfl⟩
  cases action with
  | pendingCloud order now ownerScope =>
    have hitem : item ∈ pendingCloudConflicts order t now ownerScope := hitem
    unfold pendingCloudConflicts at hitem
    obtain ⟨row, hrow, hout⟩ := mem_batch hitem
    exact hcopy row (Table.mem_fetch.mp (List.mem_of_mem_filter hrow)).1 hout
  | pendingLocal order ownerScope appId remoteChangeNumber =>
    obtain ⟨row, hrow, hout⟩ := Option.bind_eq_some_iff.mp (Option.mem_toList.mp hitem)
    exact hcopy row
      (Table.mem_fetch.mp (List.mem_of_mem_filter (mem_of_latestCreated hrow))).1 hout
  | enqueue | attributePending | postpone | acknowledge => exact absurd hitem List.not_mem_nil

theorem ConflictInv.handOut (h : ConflictInv scopes w) (action : ConflictAction) :
    ConflictInv scopes { w with handed := w.handed ++ action.handOut w.conflicts } := by
  refine ⟨h.unique, h.rows, h.eventIds, fun item hitem hscope => ?_⟩
  rcases List.mem_append.mp hitem with hold | hnew
  · exact h.handed item hold hscope
  · obtain ⟨r, hr, hvalue, hrevision⟩ := handOut_row _ action hnew
    have hprincipal : r.ownerScope = scopes.principal := by
      rw [hvalue] at hscope
      exact hscope
    exact hrevision.trans ((h.rows _ r hr).attributed hprincipal).1

theorem ConflictInv.act (h : ConflictInv scopes w) (hkept : StagedKept scopes w)
    {action : ConflictAction} (hlegal : action.Legal scopes w)
    (hprincipal : action.AcknowledgesPrincipal scopes) :
    ConflictInv scopes (action.run scopes w) ∧ StagedKept scopes (action.run scopes w) := by
  cases action with
  | enqueue order resolution now =>
    exact ⟨h.enqueue order resolution now hlegal.1 hlegal.2,
      hkept.enqueue h order resolution now hlegal.1 hlegal.2⟩
  | attributePending order =>
    exact ⟨h.attributePending hkept order, fun _ _ hlatest => absurd hlatest (by simp [latestFor,
      ConflictAction.run])⟩
  | postpone items now => exact ⟨h.postpone items now, hkept.postpone items now⟩
  | acknowledge items =>
    exact ⟨h.acknowledge items, hkept.acknowledge h items hlegal hprincipal⟩
  | pendingCloud order now ownerScope => exact ⟨h.handOut _, hkept⟩
  | pendingLocal order ownerScope appId remoteChangeNumber => exact ⟨h.handOut _, hkept⟩

theorem ConflictRun.inv {trace : List ConflictAction} (hrun : ConflictRun scopes trace w)
    (hprincipal : ∀ action ∈ trace, action.AcknowledgesPrincipal scopes) :
    ConflictInv scopes w ∧ StagedKept scopes w := by
  induction hrun with
  | start =>
    refine ⟨⟨Table.unique_empty, fun id r hr => ?_, List.nodup_nil, ?_⟩, ?_⟩
    · rw [ConflictWorld.start, Table.read_empty] at hr
      exact absurd hr (by simp)
    · exact fun item hitem => absurd hitem List.not_mem_nil
    · exact fun _ _ hlatest => absurd hlatest (by simp [latestFor, ConflictWorld.start])
  | act action _ hlegal ih =>
    obtain ⟨hinv, hkept⟩ := ih fun a ha => hprincipal a (List.mem_append_left _ ha)
    exact hinv.act hkept hlegal
      (hprincipal action (List.mem_append_right _ (List.mem_singleton_self _)))

end Step

/-! ## What is reported -/

structure NewestReported (w : ConflictWorld) : Prop where
  /-- There is at most one row per scope and app. -/
  unique : w.conflicts.Unique ConflictRecord.key
  /-- An attribution made now leaves nothing under the credential. -/
  none_staged : ∀ order id r,
    ((ConflictAction.attributePending order).run scopes w).conflicts.read id = some r →
      r.ownerScope ≠ scopes.credential
  /-- An attribution made now leaves the principal with the last decision. -/
  principal_latest : ∀ order id r,
    ((ConflictAction.attributePending order).run scopes w).conflicts.read id = some r →
      r.ownerScope = scopes.principal →
      ∃ decision, latestFor r.appId w.enqueued = some decision ∧
        r.value = { decision with ownerScope := scopes.principal }
  /-- A decision that was made before the last attribution is handed out only if
  none for its app was made after it, up to that attribution. -/
  never_older : ∀ (action : ConflictAction), ∀ item ∈ action.handOut w.conflicts,
    item.value.eventId ∈ w.attributed.map ConflictResolutionEvent.eventId →
      ∃ decision, latestFor item.value.appId w.attributed = some decision ∧
        decision.eventId = item.value.eventId

/-- **The newest decision is the one reported**, in every state of every run in
which only rows of the principal are acknowledged. -/
theorem newest_conflict_reported {trace : List ConflictAction} {w : ConflictWorld}
    (hrun : ConflictRun scopes trace w)
    (hprincipal : ∀ action ∈ trace, action.AcknowledgesPrincipal scopes) :
    NewestReported scopes w := by
  obtain ⟨hinv, hkept⟩ := hrun.inv hprincipal
  refine ⟨hinv.unique, fun order id r hr hscope => ?_, fun order id r hr hscope => ?_,
    fun action item hitem hold => ?_⟩
  · obtain ⟨_, hlatest⟩ := ((hinv.attributePending hkept order).rows id r hr).staged hscope
    exact absurd hlatest (by simp [latestFor, ConflictAction.run])
  · exact (((hinv.attributePending hkept order).rows id r hr).attributed hscope).2
  · obtain ⟨r, hr, hvalue, _⟩ := handOut_row _ action hitem
    rw [hvalue] at hold ⊢
    rcases hinv.rows _ r hr with ⟨_, _, hlatest⟩ | ⟨_, _, decision, hlatest, hv⟩
    · -- a staged decision is not among the attributed ones: event ids are never reused
      have hnodup := hinv.eventIds
      rw [ConflictWorld.enqueued, List.map_append, List.nodup_append] at hnodup
      exact absurd rfl (hnodup.2.2 _ hold _
        (List.mem_map.mpr ⟨r.value, (mem_of_latestFor hlatest).1, rfl⟩))
    · exact ⟨decision, hlatest, (congrArg ConflictResolutionEvent.eventId hv).symm⟩

/-- A credential and its principal. -/
def sampleScopes : ConflictScopes :=
  ⟨"credential-scope", "principal-scope", by decide, by decide, by decide⟩

/-- A decision for one app, as it is staged. -/
def keptCloud (eventId : String) : ConflictResolutionEvent :=
  ⟨"credential-scope", eventId, 480, 1, 2, "kept_cloud", none⟩

/-- The decision as the principal's row hands it out. -/
def reported (eventId : String) (id : Nat) : Queued ConflictResolutionEvent :=
  ⟨{ keptCloud eventId with ownerScope := "principal-scope" }, id, 1⟩

/-- Two decisions in a row, the second one reported and acknowledged. -/
def reportedDecision : List ConflictAction :=
  [.enqueue .minted (keptCloud "first") 10, .attributePending .minted,
    .enqueue .minted (keptCloud "second") 11, .attributePending .minted,
    .pendingCloud .minted 11 "principal-scope", .acknowledge [reported "second" 1]]

theorem newest_conflict_reported_acknowledged :
    ∃ w, ConflictRun sampleScopes reportedDecision w ∧
      (∀ action ∈ reportedDecision, action.AcknowledgesPrincipal sampleScopes) ∧
      NewestReported sampleScopes w := by
  have hrun := (ConflictRun.start : ConflictRun sampleScopes [] .start)
    |>.act (.enqueue .minted (keptCloud "first") 10) ⟨rfl, by decide⟩
    |>.act (.attributePending .minted) trivial
    |>.act (.enqueue .minted (keptCloud "second") 11) ⟨rfl, by decide⟩
    |>.act (.attributePending .minted) trivial
    |>.act (.pendingCloud .minted 11 "principal-scope") trivial
    |>.act (.acknowledge [reported "second" 1]) (by unfold ConflictAction.Legal; decide)
  have hprincipal : ∀ action ∈ reportedDecision, action.AcknowledgesPrincipal sampleScopes := by
    simp [reportedDecision, ConflictAction.AcknowledgesPrincipal, reported, sampleScopes]
  exact ⟨_, hrun, hprincipal, newest_conflict_reported sampleScopes hrun hprincipal⟩

/-- A newer decision that is handed out and acknowledged before it was
attributed leaves the older one behind as the principal's row. -/
theorem acknowledged_while_staged :
    ∃ trace w, ConflictRun sampleScopes trace w ∧ ¬ NewestReported sampleScopes w := by
  have hrun := (ConflictRun.start : ConflictRun sampleScopes [] .start)
    |>.act (.enqueue .minted (keptCloud "first") 10) ⟨rfl, by decide⟩
    |>.act (.attributePending .minted) trivial
    |>.act (.enqueue .minted (keptCloud "second") 11) ⟨rfl, by decide⟩
    |>.act (.pendingCloud .minted 11 "credential-scope") trivial
    |>.act (.acknowledge [⟨keptCloud "second", 1, 0⟩]) (by unfold ConflictAction.Legal; decide)
  refine ⟨_, _, hrun, fun hreported => ?_⟩
  obtain ⟨decision, hlatest, hvalue⟩ := hreported.principal_latest .minted 0
    { ConflictRecord.new (keptCloud "first") 10 with
      ownerScope := "principal-scope", revision := 1 } (by decide) rfl
  have hsecond : latestFor 480 [keptCloud "first", keptCloud "second"] =
      some (keptCloud "second") := by decide
  obtain rfl := Option.some.inj (hsecond.symm.trans hlatest)
  exact absurd (congrArg ConflictResolutionEvent.eventId hvalue) (by decide)

end VaporForge.Journal
