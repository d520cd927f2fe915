import VaporForge.Scripting.Bindings
import VaporForge.Lib.Keyed

/-!
# The books of script files are exact

> the reference count of an id is the number of currently loaded files whose last parse
> declared it

> the published override of a depot is the value last set by that loaded file which, among
> the loaded files that set one, was parsed last

What the books should say is a function of the loaded files, in the order in which they were
last parsed: `loadedAfter`. `Books` relates the registry to them, a file that is being parsed
included with the calls it has made so far, so that unloading a file (here), beginning one and
a call (`FileParse`) are its three steps.
-/

namespace VaporForge.Scripting

open Lib

/-! ## The loaded files -/

/-- A file and its last parse. -/
structure LoadedFile where
  path : String
  mtime : Nat
  calls : List ScriptCall
  deriving DecidableEq, Repr

def ScriptCall.declares (id : Nat) : ScriptCall → Bool
  | .addAppId i _ => i == id
  | _ => false

def ScriptCall.overrideOf (depotId : Nat) : ScriptCall → Option ManifestOverride
  | .setManifestId d gid size => if d = depotId then some ⟨d, gid, size⟩ else none
  | _ => none

def LoadedFile.declares (f : LoadedFile) (id : Nat) : Bool := f.calls.any (ScriptCall.declares id)

/-- The value that the file set last. -/
def LoadedFile.overrideOf (f : LoadedFile) (depotId : Nat) : Option ManifestOverride :=
  (f.calls.filterMap (ScriptCall.overrideOf depotId)).getLast?

/-- Without the file at `path`. -/
def without (path : String) (files : List LoadedFile) : List LoadedFile :=
  files.filter fun f => f.path ≠ path

def RegistryCall.track (files : List LoadedFile) : RegistryCall → List LoadedFile
  | .parseFile path mtime calls => without path files ++ [⟨path, mtime, calls⟩]
  | .unloadFile path => without path files

/-- The loaded files, the one that was parsed last at the end. -/
def loadedAfter (calls : List RegistryCall) : List LoadedFile :=
  calls.foldl RegistryCall.track []

def declaringFiles (files : List LoadedFile) (id : Nat) : Nat := files.countP (·.declares id)

/-- The override of the file that was parsed last among those that set one. -/
def publishedOverride (files : List LoadedFile) (depotId : Nat) : Option ManifestOverride :=
  (files.filterMap (·.overrideOf depotId)).getLast?

/-- A count of which zero has no entry. -/
def positive (n : Nat) : Option Nat := if n = 0 then none else some n

variable {path : String} {f : LoadedFile}

theorem mem_without {files : List LoadedFile} :
    f ∈ without path files ↔ f ∈ files ∧ f.path ≠ path := by
  unfold without
  rw [List.mem_filter, decide_eq_true_eq]

theorem without_eq_self {files : List LoadedFile} (h : ∀ f ∈ files, f.path ≠ path) :
    without path files = files :=
  List.filter_eq_self.mpr fun f hf => decide_eq_true (h f hf)

theorem paths_concat {files : List LoadedFile} (h : ((files ++ [f]).map (·.path)).Nodup) :
    (files.map (·.path)).Nodup ∧ ∀ g ∈ files, g.path ≠ f.path := by
  rw [List.map_append, List.nodup_append] at h
  exact ⟨h.1, fun g hg => h.2.2 g.path (List.mem_map_of_mem hg) f.path List.mem_cons_self⟩

/-- With different paths, exactly one file goes. -/
theorem exists_split {files : List LoadedFile} (hnodup : (files.map (·.path)).Nodup)
    (hf : f ∈ files) (hp : f.path = path) :
    ∃ front back, files = front ++ f :: back ∧ without path files = front ++ back := by
  obtain ⟨front, back, rfl⟩ := List.append_of_mem hf
  refine ⟨front, back, rfl, ?_⟩
  rw [List.map_append, List.map_cons, List.nodup_append] at hnodup
  obtain ⟨_, hback, hdisjoint⟩ := hnodup
  have hfront (g : LoadedFile) (hg : g ∈ front) : g.path ≠ path := by
    rw [← hp]
    exact hdisjoint g.path (List.mem_map_of_mem hg) f.path List.mem_cons_self
  have hrest (g : LoadedFile) (hg : g ∈ back) : g.path ≠ path := by
    intro heq
    exact (List.nodup_cons.mp hback).1 (hp ▸ heq ▸ List.mem_map_of_mem hg)
  unfold without
  rw [List.filter_append, List.filter_cons_of_neg (by simp [hp])]
  exact congrArg₂ _ (without_eq_self hfront) (without_eq_self hrest)

theorem getLast?_filterMap_eq_some {α β : Type} {g : α → Option β} {l : List α} {b : β}
    (h : (l.filterMap g).getLast? = some b) :
    ∃ front a back, l = front ++ a :: back ∧ g a = some b ∧ ∀ x ∈ back, g x = none := by
  induction l with
  | nil => cases h
  | cons x l ih =>
    by_cases hrest : l.filterMap g = []
    · cases hx : g x with
      | none =>
        rw [List.filterMap_cons_none hx, hrest] at h
        cases h
      | some y =>
        rw [List.filterMap_cons_some hx, hrest] at h
        cases h
        exact ⟨[], x, l, rfl, hx, List.filterMap_eq_nil_iff.mp hrest⟩
    · have hlast : (l.filterMap g).getLast? = some b := by
        cases hx : g x with
        | none => rwa [List.filterMap_cons_none hx] at h
        | some y =>
          rw [List.filterMap_cons_some hx, List.getLast?_cons] at h
          obtain ⟨z, hz⟩ := Option.ne_none_iff_exists'.mp
            (mt List.getLast?_eq_none_iff.mp hrest)
          rw [hz] at h ⊢
          exact h
      obtain ⟨front, a, back, rfl, ha, hback⟩ := ih hlast
      exact ⟨x :: front, a, back, rfl, ha, hback⟩

theorem getLast?_filterMap_concat {α β : Type} (g : α → Option β) (l : List α) (a : α) :
    ((l ++ [a]).filterMap g).getLast? = (g a).or (l.filterMap g).getLast? := by
  rw [List.filterMap_append]
  cases ha : g a with
  | none => rw [List.filterMap_cons_none ha, List.filterMap_nil, List.append_nil, Option.none_or]
  | some b =>
    rw [List.filterMap_cons_some ha, List.filterMap_nil, List.getLast?_concat, Option.some_or]

/-! ## The override that wins -/

section Winner

variable (order : WalkOrder) (s : RuntimeState)

def seqOf (path : String) : Nat := (s.fileParseSequence.lookup path).getD 0

/-- The overrides of a depot, with when their files were parsed. -/
def candidates (depotId : Nat) (entries : List ((_ : String) × Assoc Nat ManifestOverride)) :
    List (Nat × ManifestOverride) :=
  entries.filterMap fun e => (e.2.lookup depotId).map fun v => (seqOf s e.1, v)

theorem foldl_better_some (depotId : Nat)
    (entries : List ((_ : String) × Assoc Nat ManifestOverride)) (best : Nat × ManifestOverride) :
    entries.foldl (s.better depotId) (some best) =
      some ((candidates s depotId entries).foldl (latest Prod.fst) best) := by
  induction entries generalizing best with
  | nil => rfl
  | cons e entries ih =>
    rw [List.foldl_cons]
    cases he : e.2.lookup depotId with
    | none =>
      have hstep : s.better depotId (some best) e = some best := by
        unfold RuntimeState.better
        rw [he]
      have hrest : candidates s depotId (e :: entries) = candidates s depotId entries :=
        List.filterMap_cons_none (by rw [he]; rfl)
      rw [hstep, hrest, ih]
    | some v =>
      have hstep : s.better depotId (some best) e =
          some (latest Prod.fst best (seqOf s e.1, v)) := by
        unfold RuntimeState.better latest
        rw [he]
        by_cases hlt : best.1 < seqOf s e.1
        · rw [if_pos hlt]
          exact if_pos (decide_eq_true hlt)
        · rw [if_neg hlt]
          have hlt : ¬ best.1 < (s.fileParseSequence.lookup e.1).getD 0 := hlt
          exact if_neg (by simpa using hlt)
      have hrest : candidates s depotId (e :: entries) =
          (seqOf s e.1, v) :: candidates s depotId entries :=
        List.filterMap_cons_some (by rw [he]; rfl)
      rw [hstep, hrest, ih, List.foldl_cons]

/-- The walk ends with a candidate of the greatest sequence, if there is one. -/
theorem foldl_better (depotId : Nat)
    (entries : List ((_ : String) × Assoc Nat ManifestOverride)) :
    (entries.foldl (s.better depotId) none = none ∧ candidates s depotId entries = []) ∨
    ∃ w, entries.foldl (s.better depotId) none = some w ∧ w ∈ candidates s depotId entries ∧
      ∀ c ∈ candidates s depotId entries, c.1 ≤ w.1 := by
  induction entries with
  | nil => exact .inl ⟨rfl, rfl⟩
  | cons e entries ih =>
    rw [List.foldl_cons]
    cases he : e.2.lookup depotId with
    | none =>
      have hstep : s.better depotId none e = none := by
        unfold RuntimeState.better
        rw [he]
      have hrest : candidates s depotId (e :: entries) = candidates s depotId entries :=
        List.filterMap_cons_none (by rw [he]; rfl)
      rw [hstep, hrest]
      exact ih
    | some v =>
      have hstep : s.better depotId none e = some (seqOf s e.1, v) := by
        unfold RuntimeState.better
        rw [he]
        rfl
      have hrest : candidates s depotId (e :: entries) =
          (seqOf s e.1, v) :: candidates s depotId entries :=
        List.filterMap_cons_some (by rw [he]; rfl)
      rw [hstep, hrest, foldl_better_some]
      obtain ⟨hmem, hmax⟩ := foldl_latest Prod.fst (seqOf s e.1, v) (candidates s depotId entries)
      exact .inr ⟨_, rfl, hmem, hmax⟩

/-- What `rebuild_manifest_override` finds. -/
def winner (depotId : Nat) : Option ManifestOverride :=
  ((order.arrange s.fileManifestOverrides.entries).foldl (s.better depotId) none).map Prod.snd

theorem rebuildManifestOverride_eq (depotId : Nat) :
    s.rebuildManifestOverride order depotId =
      { s with manifests := (s.rebuildManifestOverride order depotId).manifests } := by
  unfold RuntimeState.rebuildManifestOverride
  split <;> rfl

theorem lookup_rebuild (depotId d : Nat) :
    (s.rebuildManifestOverride order depotId).manifests.lookup d =
      if d = depotId then winner order s depotId else s.manifests.lookup d := by
  unfold RuntimeState.rebuildManifestOverride winner
  split
  · rename_i n value heq
    rw [heq]
    exact Assoc.lookup_insert_eq s.manifests depotId value d
  · rename_i heq
    rw [heq]
    exact Assoc.lookup_erase_eq s.manifests depotId d

/-- Rebuilding some depots leaves everything but their overrides as it was. -/
theorem foldl_rebuild (depots : List Nat) : ∃ manifests,
    depots.foldl (RuntimeState.rebuildManifestOverride order) s =
      { s with manifests := manifests } ∧
    ∀ d, manifests.lookup d =
      if d ∈ depots then winner order s d else s.manifests.lookup d := by
  induction depots generalizing s with
  | nil => exact ⟨s.manifests, rfl, fun d => by rw [if_neg List.not_mem_nil]⟩
  | cons depotId depots ih =>
    obtain ⟨manifests, heq, hlookup⟩ := ih (s.rebuildManifestOverride order depotId)
    have hframe := rebuildManifestOverride_eq order s depotId
    refine ⟨manifests, ?_, fun d => ?_⟩
    · rw [List.foldl_cons, heq, hframe]
    · have hwinner : winner order (s.rebuildManifestOverride order depotId) d =
          winner order s d := by
        rw [hframe]
        rfl
      rw [hlookup, hwinner, lookup_rebuild]
      by_cases hd : d ∈ depots
      · rw [if_pos hd, if_pos (List.mem_cons_of_mem _ hd)]
      · rw [if_neg hd]
        by_cases heq : d = depotId
        · rw [if_pos heq, if_pos (heq ▸ List.mem_cons_self), heq]
        · rw [if_neg heq, if_neg (by simp [heq, hd])]

end Winner

/-! ## The books -/

/-- The books of the files. -/
structure FileBooks (s : RuntimeState) (files : List LoadedFile) : Prop where
  paths : (files.map (·.path)).Nodup
  depots : ∀ f ∈ files, ∀ id, id ∈ (s.fileDepots.lookup f.path).getD [] ↔ f.declares id = true
  depotsOnce : ∀ path ids, s.fileDepots.lookup path = some ids → ids.Nodup
  depotsLoaded : ∀ path ids, s.fileDepots.lookup path = some ids → ∃ f ∈ files, f.path = path
  overrides : ∀ f ∈ files, ∀ d,
    (s.fileManifestOverrides.lookup f.path).bind (·.lookup d) = f.overrideOf d
  overridesLoaded : ∀ path o, s.fileManifestOverrides.lookup path = some o →
    ∃ f ∈ files, f.path = path
  ascending : files.Pairwise fun f g => seqOf s f.path < seqOf s g.path
  newest : ∀ f ∈ files, seqOf s f.path ≤ s.nextParseSequence
  mtimes : ∀ f ∈ files, s.fileMtimes.lookup f.path = some f.mtime

/-- What is published. -/
structure Published (s : RuntimeState) (files : List LoadedFile) : Prop where
  count : ∀ id, s.depotRefcount.lookup id = positive (declaringFiles files id)
  apps : ∀ id, id ∈ s.apps ↔ 0 < declaringFiles files id
  manifests : ∀ d, s.manifests.lookup d = publishedOverride files d

structure Books (s : RuntimeState) (files : List LoadedFile) : Prop where
  file : FileBooks s files
  published : Published s files

section Books

variable {order : WalkOrder} {s : RuntimeState} {files : List LoadedFile}

theorem mem_candidates (order : WalkOrder) (h : FileBooks s files) {d : Nat}
    {c : Nat × ManifestOverride} :
    c ∈ candidates s d (order.arrange s.fileManifestOverrides.entries) ↔
      ∃ f ∈ files, f.overrideOf d = some c.2 ∧ seqOf s f.path = c.1 := by
  unfold candidates
  rw [List.mem_filterMap]
  constructor
  · rintro ⟨e, he, heq⟩
    obtain ⟨v, hv, rfl⟩ := Option.map_eq_some_iff.mp heq
    have hlookup : s.fileManifestOverrides.lookup e.1 = some e.2 :=
      Assoc.lookup_eq_some_iff.mpr (order.mem_arrange.mp he)
    obtain ⟨f, hf, hpath⟩ := h.overridesLoaded _ _ hlookup
    refine ⟨f, hf, ?_, by rw [hpath]⟩
    rw [← h.overrides f hf d, hpath, hlookup]
    exact hv
  · rintro ⟨f, hf, hv, hseq⟩
    rw [← h.overrides f hf d] at hv
    obtain ⟨o, ho, hv⟩ := Option.bind_eq_some_iff.mp hv
    refine ⟨⟨f.path, o⟩, order.mem_arrange.mpr (Assoc.lookup_eq_some_iff.mp ho), ?_⟩
    rw [hv]
    exact congrArg some (Prod.ext hseq rfl)

/-- The override that wins is that of the file that was parsed last. -/
theorem winner_eq (h : FileBooks s files) (d : Nat) :
    winner order s d = publishedOverride files d := by
  unfold winner
  rcases foldl_better s d (order.arrange s.fileManifestOverrides.entries) with
    ⟨hnone, hempty⟩ | ⟨w, hw, hmem, hmax⟩
  · rw [hnone]
    symm
    refine List.getLast?_eq_none_iff.mpr (List.filterMap_eq_nil_iff.mpr fun f hf => ?_)
    by_contra hsome
    obtain ⟨v, hv⟩ := Option.ne_none_iff_exists'.mp hsome
    have hmem := (mem_candidates order h (c := (seqOf s f.path, v))).mpr ⟨f, hf, hv, rfl⟩
    rw [hempty] at hmem
    exact List.not_mem_nil hmem
  · rw [hw]
    obtain ⟨g, hg, hgv, hgseq⟩ := (mem_candidates order h).mp hmem
    obtain ⟨v, hv⟩ : ∃ v, publishedOverride files d = some v := by
      refine Option.ne_none_iff_exists'.mp fun hnone => ?_
      have hnil := List.filterMap_eq_nil_iff.mp (List.getLast?_eq_none_iff.mp hnone) g hg
      rw [hgv] at hnil
      cases hnil
    obtain ⟨front, f, back, rfl, hfv, hback⟩ := getLast?_filterMap_eq_some hv
    have hf := hmax _ ((mem_candidates order h (c := (seqOf s f.path, v))).mpr
      ⟨f, List.mem_append_right _ List.mem_cons_self, hfv, rfl⟩)
    have hlast : g = f := by
      -- a file before `f` was parsed before it, and one after it sets nothing
      rcases List.mem_append.mp hg with hg | hg
      · have hlt := (List.pairwise_append.mp h.ascending).2.2 g hg f List.mem_cons_self
        have hle : seqOf s f.path ≤ w.1 := hf
        omega
      · rcases List.mem_cons.mp hg with hg | hg
        · exact hg
        · rw [hback g hg] at hgv
          cases hgv
    rw [hlast, hfv] at hgv
    rw [hv]
    exact hgv.symm

/-! ## Unloading -/

/-- A count after one file less. -/
def decrement (count : Option Nat) : Option Nat := count.bind fun n => positive (n - 1)

theorem decrement_positive (n : Nat) : decrement (positive (n + 1)) = positive n := by
  unfold decrement positive
  rw [if_neg (Nat.succ_ne_zero n)]
  rfl

/-- The ids of which the last declaring file goes. -/
def vanishes (s : RuntimeState) (ids : List Nat) (id : Nat) : Bool :=
  ids.contains id && (s.depotRefcount.lookup id).any fun n => n - 1 == 0

/-- What dropping some ids does to the books of each id. -/
structure Dropped (s s' : RuntimeState) (ids : List Nat) : Prop where
  count : ∀ id, s'.depotRefcount.lookup id =
    if id ∈ ids then decrement (s.depotRefcount.lookup id) else s.depotRefcount.lookup id
  apps : ∀ id, id ∈ s'.apps ↔ id ∈ s.apps ∧ vanishes s ids id = false
  keys : ∀ id, s'.depotKeys.lookup id =
    if vanishes s ids id then none else s.depotKeys.lookup id
  times : ∀ id, s'.appPurchaseTimes.lookup id =
    if vanishes s ids id then none else s.appPurchaseTimes.lookup id
  frame : s' = { s with
    depotRefcount := s'.depotRefcount
    depotKeys := s'.depotKeys
    apps := s'.apps
    appPurchaseTimes := s'.appPurchaseTimes }

theorem dropDepot_dropped (s : RuntimeState) (d : Nat) : Dropped s (s.dropDepot d) [d] := by
  have hmem (id : Nat) : id ∈ [d] ↔ id = d := List.mem_singleton
  have hother (id : Nat) (hid : id ≠ d) : vanishes s [d] id = false := by
    simp [vanishes, hid]
  unfold RuntimeState.dropDepot
  cases hcount : s.depotRefcount.lookup d with
  | none =>
    have hstays (id : Nat) : vanishes s [d] id = false := by
      by_cases hid : id = d
      · subst hid
        simp [vanishes, hcount]
      · exact hother id hid
    refine ⟨fun id => ?_, fun id => by simp [hstays], fun id => by simp [hstays],
      fun id => by simp [hstays], rfl⟩
    by_cases hid : id = d
    · rw [if_pos ((hmem id).mpr hid), hid, hcount]
      rfl
    · rw [if_neg (mt (hmem id).mp hid)]
  | some count =>
    by_cases hzero : count - 1 = 0
    · have hgoes : vanishes s [d] d = true := by simp [vanishes, hcount, hzero]
      simp only [hzero, if_true]
      refine ⟨fun id => ?_, fun id => ?_, fun id => ?_, fun id => ?_, rfl⟩
      · rw [Assoc.lookup_erase_eq]
        by_cases hid : id = d
        · rw [if_pos hid, if_pos ((hmem id).mpr hid), hid, hcount]
          exact (if_pos hzero).symm
        · rw [if_neg hid, if_neg (mt (hmem id).mp hid)]
      · rw [Finset.mem_erase]
        by_cases hid : id = d
        · simp [hid, hgoes]
        · simp [hid, hother id hid]
      · rw [Assoc.lookup_erase_eq]
        by_cases hid : id = d
        · simp [hid, hgoes]
        · simp [hid, hother id hid]
      · rw [Assoc.lookup_erase_eq]
        by_cases hid : id = d
        · simp [hid, hgoes]
        · simp [hid, hother id hid]
    · have hstays (id : Nat) : vanishes s [d] id = false := by
        by_cases hid : id = d
        · subst hid
          simp [vanishes, hcount, hzero]
        · exact hother id hid
      simp only [hzero, if_false]
      refine ⟨fun id => ?_, fun id => by simp [hstays], fun id => by simp [hstays],
        fun id => by simp [hstays], rfl⟩
      rw [Assoc.lookup_insert_eq]
      by_cases hid : id = d
      · rw [if_pos hid, if_pos ((hmem id).mpr hid), hid, hcount]
        exact (if_neg hzero).symm
      · rw [if_neg hid, if_neg (mt (hmem id).mp hid)]

theorem foldl_dropDepot {ids : List Nat} (hnodup : ids.Nodup) (s : RuntimeState) :
    Dropped s (ids.foldl RuntimeState.dropDepot s) ids := by
  induction ids generalizing s with
  | nil =>
    exact ⟨fun id => (if_neg List.not_mem_nil).symm, fun id => by simp [vanishes],
      fun id => by simp [vanishes], fun id => by simp [vanishes], rfl⟩
  | cons d ids ih =>
    obtain ⟨hnot, hnodup⟩ := List.nodup_cons.mp hnodup
    have hfirst := dropDepot_dropped s d
    have hrest := ih hnodup (s.dropDepot d)
    -- each id is touched by one of the two only
    have hsame (id : Nat) (hid : id ≠ d) : vanishes (s.dropDepot d) ids id = vanishes s ids id := by
      unfold vanishes
      rw [hfirst.count, if_neg (mt List.mem_singleton.mp hid)]
    have hself : vanishes (s.dropDepot d) ids d = false := by simp [vanishes, hnot]
    have hcons (id : Nat) : vanishes s (d :: ids) id =
        (vanishes s [d] id || vanishes (s.dropDepot d) ids id) := by
      by_cases hid : id = d
      · rw [hid, hself]
        simp [vanishes]
      · rw [hsame id hid]
        simp [vanishes, hid]
    rw [List.foldl_cons]
    refine ⟨fun id => ?_, fun id => ?_, fun id => ?_, fun id => ?_, ?_⟩
    · rw [hrest.count, hfirst.count]
      by_cases hid : id = d
      · rw [if_neg (hid ▸ hnot), if_pos (List.mem_singleton.mpr hid),
          if_pos (hid ▸ List.mem_cons_self)]
      · rw [if_neg (mt List.mem_singleton.mp hid)]
        by_cases hin : id ∈ ids
        · rw [if_pos hin, if_pos (List.mem_cons_of_mem _ hin)]
        · rw [if_neg hin, if_neg (by simp [hid, hin])]
    · rw [hrest.apps, hfirst.apps, hcons, Bool.or_eq_false_iff, and_assoc]
    · rw [hrest.keys, hfirst.keys, hcons]
      cases vanishes s [d] id <;> cases vanishes (s.dropDepot d) ids id <;> rfl
    · rw [hrest.times, hfirst.times, hcons]
      cases vanishes s [d] id <;> cases vanishes (s.dropDepot d) ids id <;> rfl
    · rw [hrest.frame, hfirst.frame]

/-- The ids that the books have for a file. -/
def idsOf (s : RuntimeState) (path : String) : List Nat := (s.fileDepots.lookup path).getD []

/-- What unloading a file does. -/
structure Unloaded (order : WalkOrder) (s s' : RuntimeState) (path : String) : Prop where
  depotsOf : ∀ p, s'.fileDepots.lookup p = if p = path then none else s.fileDepots.lookup p
  overridesOf : ∀ p, s'.fileManifestOverrides.lookup p =
    if p = path then none else s.fileManifestOverrides.lookup p
  sequences : ∀ p, s'.fileParseSequence.lookup p =
    if p = path then none else s.fileParseSequence.lookup p
  mtimes : ∀ p, s'.fileMtimes.lookup p = if p = path then none else s.fileMtimes.lookup p
  count : ∀ id, s'.depotRefcount.lookup id =
    if id ∈ idsOf s path then decrement (s.depotRefcount.lookup id)
    else s.depotRefcount.lookup id
  apps : ∀ id, id ∈ s'.apps ↔ id ∈ s.apps ∧ vanishes s (idsOf s path) id = false
  keys : ∀ id, s'.depotKeys.lookup id =
    if vanishes s (idsOf s path) id then none else s.depotKeys.lookup id
  times : ∀ id, s'.appPurchaseTimes.lookup id =
    if vanishes s (idsOf s path) id then none else s.appPurchaseTimes.lookup id
  manifests : ∀ d, s'.manifests.lookup d =
    if ((s.fileManifestOverrides.lookup path).bind (·.lookup d)).isSome then
      winner order { s' with fileParseSequence := s.fileParseSequence } d
    else s.manifests.lookup d
  frame : s' = { s with
    fileDepots := s'.fileDepots
    fileManifestOverrides := s'.fileManifestOverrides
    fileParseSequence := s'.fileParseSequence
    fileMtimes := s'.fileMtimes
    depotRefcount := s'.depotRefcount
    apps := s'.apps
    depotKeys := s'.depotKeys
    appPurchaseTimes := s'.appPurchaseTimes
    manifests := s'.manifests }

theorem dropDepots_spec (hnodup : ∀ ids, s.fileDepots.lookup path = some ids → ids.Nodup) :
    ∃ depots,
    (∀ p, depots.lookup p = if p = path then none else s.fileDepots.lookup p) ∧
    Dropped { s with fileDepots := depots } (s.dropDepots path) (idsOf s path) := by
  unfold RuntimeState.dropDepots idsOf
  cases hids : s.fileDepots.lookup path with
  | none =>
    refine ⟨s.fileDepots, fun p => ?_, foldl_dropDepot List.nodup_nil s⟩
    by_cases hp : p = path
    · rw [if_pos hp, hp, hids]
    · rw [if_neg hp]
  | some ids => exact ⟨_, Assoc.lookup_erase_eq _ path, foldl_dropDepot (hnodup ids hids) _⟩

theorem dropOverrides_spec (order : WalkOrder) (s : RuntimeState) (path : String) :
    ∃ overrides manifests,
    s.dropOverrides order path =
      { s with fileManifestOverrides := overrides, manifests := manifests } ∧
    (∀ p, overrides.lookup p = if p = path then none else s.fileManifestOverrides.lookup p) ∧
    ∀ d, manifests.lookup d =
      if ((s.fileManifestOverrides.lookup path).bind (·.lookup d)).isSome then
        winner order { s with fileManifestOverrides := overrides } d
      else s.manifests.lookup d := by
  unfold RuntimeState.dropOverrides
  cases hold : s.fileManifestOverrides.lookup path with
  | none =>
    refine ⟨s.fileManifestOverrides, s.manifests, rfl, fun p => ?_, fun d => rfl⟩
    by_cases hp : p = path
    · rw [if_pos hp, hp, hold]
    · rw [if_neg hp]
  | some old =>
    obtain ⟨manifests, heq, hlookup⟩ := foldl_rebuild order
      { s with fileManifestOverrides := s.fileManifestOverrides.erase path } old.keys
    refine ⟨_, manifests, heq, Assoc.lookup_erase_eq _ path, fun d => ?_⟩
    rw [hlookup]
    refine if_congr ?_ rfl rfl
    show d ∈ old ↔ (old.lookup d).isSome = true
    exact AList.lookup_isSome.symm

theorem unloadFile_unloaded (order : WalkOrder)
    (hnodup : ∀ ids, s.fileDepots.lookup path = some ids → ids.Nodup) :
    Unloaded order s (s.unloadFile order path) path := by
  obtain ⟨depots, hdepots, hdropped⟩ := dropDepots_spec hnodup
  obtain ⟨overrides, manifests, heq, hoverrides, hmanifests⟩ :=
    dropOverrides_spec order (s.dropDepots path) path
  have hunload : s.unloadFile order path = { s.dropDepots path with
      fileManifestOverrides := overrides
      manifests := manifests
      fileParseSequence := (s.dropDepots path).fileParseSequence.erase path
      fileMtimes := (s.dropDepots path).fileMtimes.erase path } := by
    unfold RuntimeState.unloadFile
    rw [heq]
  rw [hunload]
  generalize s.dropDepots path = s₁ at hdropped hoverrides hmanifests
  have hframe := hdropped.frame
  have hsequence : s₁.fileParseSequence = s.fileParseSequence := by rw [hframe]
  have hmtimes : s₁.fileMtimes = s.fileMtimes := by rw [hframe]
  have hfiles : s₁.fileManifestOverrides = s.fileManifestOverrides := by rw [hframe]
  have hpublished : s₁.manifests = s.manifests := by rw [hframe]
  exact {
    depotsOf := by
      intro p
      rw [hframe]
      exact hdepots p
    overridesOf := by
      intro p
      rw [← hfiles]
      exact hoverrides p
    sequences := by
      intro p
      rw [← hsequence]
      exact Assoc.lookup_erase_eq _ path p
    mtimes := by
      intro p
      rw [← hmtimes]
      exact Assoc.lookup_erase_eq _ path p
    count := hdropped.count
    apps := hdropped.apps
    keys := hdropped.keys
    times := hdropped.times
    manifests := by
      intro d
      rw [← hfiles, ← hsequence, ← hpublished]
      exact hmanifests d
    frame := by rw [hframe] }

/-- The files that are left keep their books. -/
theorem FileBooks.unload (h : FileBooks s files) {s' : RuntimeState}
    (hdepots : ∀ p, s'.fileDepots.lookup p = if p = path then none else s.fileDepots.lookup p)
    (hoverrides : ∀ p, s'.fileManifestOverrides.lookup p = if p = path then none else s.fileManifestOverrides.lookup p)
    (hsequences : ∀ p, p ≠ path → s'.fileParseSequence.lookup p = s.fileParseSequence.lookup p)
    (hmtimes : ∀ p, p ≠ path → s'.fileMtimes.lookup p = s.fileMtimes.lookup p)
    (hnext : s'.nextParseSequence = s.nextParseSequence) : FileBooks s' (without path files) := by
  have hseq (f : LoadedFile) (hf : f ∈ without path files) :
      seqOf s' f.path = seqOf s f.path := by
    unfold seqOf
    rw [hsequences f.path (mem_without.mp hf).2]
  have hleft (p : String) (hp : p ≠ path) (hloaded : ∃ f ∈ files, f.path = p) :
      ∃ f ∈ without path files, f.path = p := by
    obtain ⟨f, hf, hfp⟩ := hloaded
    exact ⟨f, mem_without.mpr ⟨hf, hfp ▸ hp⟩, hfp⟩
  have hsub : List.Sublist (without path files) files := List.filter_sublist
  refine ⟨h.paths.sublist (hsub.map _), ?_, ?_, ?_, ?_, ?_, ?_, ?_, ?_⟩
  · intro f hf id
    obtain ⟨hf, hne⟩ := mem_without.mp hf
    rw [hdepots, if_neg hne]
    exact h.depots f hf id
  · intro p ids hids
    rw [hdepots] at hids
    by_cases hp : p = path
    · rw [if_pos hp] at hids
      cases hids
    · rw [if_neg hp] at hids
      exact h.depotsOnce p ids hids
  · intro p ids hids
    rw [hdepots] at hids
    by_cases hp : p = path
    · rw [if_pos hp] at hids
      cases hids
    · rw [if_neg hp] at hids
      exact hleft p hp (h.depotsLoaded p ids hids)
  · intro f hf d
    obtain ⟨hf, hne⟩ := mem_without.mp hf
    rw [hoverrides, if_neg hne]
    exact h.overrides f hf d
  · intro p o ho
    rw [hoverrides] at ho
    by_cases hp : p = path
    · rw [if_pos hp] at ho
      cases ho
    · rw [if_neg hp] at ho
      exact hleft p hp (h.overridesLoaded p o ho)
  · refine (h.ascending.sublist hsub).imp_of_mem ?_
    intro f g hf hg hlt
    rw [hseq f hf, hseq g hg]
    exact hlt
  · intro f hf
    rw [hseq f hf, hnext]
    exact h.newest f (mem_without.mp hf).1
  · intro f hf
    obtain ⟨hf, hne⟩ := mem_without.mp hf
    rw [hmtimes f.path hne]
    exact h.mtimes f hf

/-- A file that is unloaded counts for the ids of its book. -/
theorem declaringFiles_without (h : FileBooks s files) (path : String) (id : Nat) :
    declaringFiles files id =
      declaringFiles (without path files) id + if id ∈ idsOf s path then 1 else 0 := by
  by_cases hloaded : ∃ f ∈ files, f.path = path
  · obtain ⟨f, hf, hp⟩ := hloaded
    have hids : id ∈ idsOf s path ↔ f.declares id = true := hp ▸ h.depots f hf id
    obtain ⟨front, back, rfl, hwithout⟩ := exists_split h.paths hf hp
    rw [hwithout]
    unfold declaringFiles
    rw [List.countP_append, List.countP_append, List.countP_cons]
    simp only [hids]
    omega
  · have hnone : s.fileDepots.lookup path = none := by
      by_contra hsome
      obtain ⟨ids, hids⟩ := Option.ne_none_iff_exists'.mp hsome
      exact hloaded (h.depotsLoaded path ids hids)
    have hids : id ∉ idsOf s path := by
      unfold idsOf
      rw [hnone]
      exact List.not_mem_nil
    rw [without_eq_self fun f hf hp => hloaded ⟨f, hf, hp⟩, if_neg hids, Nat.add_zero]

/-- A file that sets no override for a depot does not matter for it. -/
theorem publishedOverride_without (h : FileBooks s files) (path : String) (d : Nat)
    (hnone : (s.fileManifestOverrides.lookup path).bind (·.lookup d) = none) :
    publishedOverride (without path files) d = publishedOverride files d := by
  by_cases hloaded : ∃ f ∈ files, f.path = path
  · obtain ⟨f, hf, hp⟩ := hloaded
    have hf' : f.overrideOf d = none := by
      rw [← h.overrides f hf d, hp]
      exact hnone
    obtain ⟨front, back, rfl, hwithout⟩ := exists_split h.paths hf hp
    have hrest : (f :: back).filterMap (·.overrideOf d) = back.filterMap (·.overrideOf d) :=
      List.filterMap_cons_none hf'
    unfold publishedOverride
    rw [hwithout, List.filterMap_append, List.filterMap_append, hrest]
  · rw [without_eq_self fun f hf hp => hloaded ⟨f, hf, hp⟩]

/-- An id vanishes with the last loaded file that declares it. -/
theorem vanishes_iff (h : Books s files) (path : String) (id : Nat) :
    vanishes s (idsOf s path) id = true ↔
      id ∈ idsOf s path ∧ declaringFiles (without path files) id = 0 := by
  have hcount := declaringFiles_without h.file path id
  unfold vanishes
  rw [Bool.and_eq_true, List.contains_iff_mem, h.published.count]
  refine and_congr_right fun hid => ?_
  rw [hcount, if_pos hid]
  unfold positive
  rw [if_neg (Nat.succ_ne_zero _)]
  show (_ == 0) = true ↔ _
  rw [beq_iff_eq]
  omega

theorem unload_books (h : Books s files) (path : String) :
    Books (s.unloadFile order path) (without path files) := by
  have hun := unloadFile_unloaded order (h.file.depotsOnce path)
  generalize s.unloadFile order path = s' at hun
  have hnext : s'.nextParseSequence = s.nextParseSequence := by rw [hun.frame]
  have hmtimes (p : String) (hp : p ≠ path) : s'.fileMtimes.lookup p = s.fileMtimes.lookup p := by
    rw [hun.mtimes, if_neg hp]
  refine ⟨h.file.unload hun.depotsOf hun.overridesOf ?_ hmtimes hnext, ?_, ?_, ?_⟩
  · intro p hp
    rw [hun.sequences, if_neg hp]
  · intro id
    rw [hun.count, h.published.count, declaringFiles_without h.file path id]
    by_cases hid : id ∈ idsOf s path
    · rw [if_pos hid, if_pos hid]
      exact decrement_positive _
    · rw [if_neg hid, if_neg hid, Nat.add_zero]
  · intro id
    have hvanishes := vanishes_iff h path id
    rw [hun.apps, h.published.apps, declaringFiles_without h.file path id,
      ← Bool.not_eq_true, hvanishes]
    by_cases hid : id ∈ idsOf s path
    · simp only [hid, if_true, true_and]
      omega
    · simp only [hid, if_false, false_and, not_false_eq_true, and_true, Nat.add_zero]
  · intro d
    rw [hun.manifests, h.published.manifests]
    split
    · -- the walk reads the sequences before they are erased
      have hbooks : FileBooks { s' with fileParseSequence := s.fileParseSequence }
          (without path files) :=
        h.file.unload hun.depotsOf hun.overridesOf (fun _ _ => rfl) hmtimes hnext
      exact winner_eq hbooks d
    · rename_i hnone
      exact (publishedOverride_without h.file path d (by simpa using hnone)).symm

end Books

end VaporForge.Scripting
