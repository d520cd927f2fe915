import VaporForge.Scripting.FileBooks

/-!
# The books of script files are exact: parsing

The other two steps of `Books`: a file begins, with no call made, and the file that is being
parsed makes one more call. With `unload_books` they give every history of the registry.

> `file_books_exact`: after every history the reference counts, the published apps and the
> published manifest overrides are what the loaded files say.
-/

namespace VaporForge.Scripting

open Lib

section Books

variable {order : WalkOrder} {s : RuntimeState} {files : List LoadedFile}

/-! ## A file begins -/

/-- A file that has made no call yet. -/
theorem begin_books (h : Books s files) (path : String) (mtime : Nat) :
    Books (s.beginParseFile order path mtime) (without path files ++ [⟨path, mtime, []⟩]) := by
  have hbooks : Books (s.unloadFile order path) (without path files) := unload_books h path
  have hgone (f : LoadedFile) (hf : f ∈ without path files) : f.path ≠ path :=
    (mem_without.mp hf).2
  unfold RuntimeState.beginParseFile
  generalize s.unloadFile order path = s at hbooks
  generalize without path files = files at hbooks hgone
  obtain ⟨hfile, hpublished⟩ := hbooks
  have hdepots : s.fileDepots.lookup path = none := by
    by_contra hsome
    obtain ⟨ids, hids⟩ := Option.ne_none_iff_exists'.mp hsome
    obtain ⟨f, hf, hp⟩ := hfile.depotsLoaded path ids hids
    exact hgone f hf hp
  have hoverrides : s.fileManifestOverrides.lookup path = none := by
    by_contra hsome
    obtain ⟨o, ho⟩ := Option.ne_none_iff_exists'.mp hsome
    obtain ⟨f, hf, hp⟩ := hfile.overridesLoaded path o ho
    exact hgone f hf hp
  have hloaded {p : String} (hp : ∃ f ∈ files, f.path = p) :
      ∃ f ∈ files ++ [⟨path, mtime, []⟩], f.path = p := by
    obtain ⟨f, hf, hp⟩ := hp
    exact ⟨f, List.mem_append_left _ hf, hp⟩
  have hold (f : LoadedFile) (hf : f ∈ files) (n : Nat) :
      ((s.fileParseSequence.insert path n).lookup f.path).getD 0 = seqOf s f.path := by
    rw [Assoc.lookup_insert_eq, if_neg (hgone f hf)]
    rfl
  have hnew (n : Nat) : ((s.fileParseSequence.insert path n).lookup path).getD 0 = n := by
    rw [Assoc.lookup_insert_eq, if_pos rfl]
    rfl
  refine ⟨⟨?_, ?_, hfile.depotsOnce, ?_, ?_, ?_, ?_, ?_, ?_⟩, ?_, ?_, ?_⟩
  · rw [List.map_append, List.nodup_append]
    refine ⟨hfile.paths, List.nodup_singleton _, ?_⟩
    intro p hp q hq
    obtain ⟨f, hf, rfl⟩ := List.mem_map.mp hp
    rw [List.mem_singleton.mp hq]
    exact hgone f hf
  · refine forall_mem_concat.mpr ⟨hfile.depots, fun id => ?_⟩
    show id ∈ (s.fileDepots.lookup path).getD [] ↔ false = true
    rw [hdepots]
    simp
  · intro p ids hids
    exact hloaded (hfile.depotsLoaded p ids hids)
  · refine forall_mem_concat.mpr ⟨hfile.overrides, fun d => ?_⟩
    show (s.fileManifestOverrides.lookup path).bind _ = none
    rw [hoverrides]
    rfl
  · intro p o ho
    exact hloaded (hfile.overridesLoaded p o ho)
  · rw [List.pairwise_append]
    refine ⟨hfile.ascending.imp_of_mem ?_, List.pairwise_singleton _ _, ?_⟩
    · intro f g hf hg hlt
      unfold seqOf
      rw [hold f hf, hold g hg]
      exact hlt
    · intro f hf g hg
      rw [List.mem_singleton.mp hg]
      have hle := hfile.newest f hf
      unfold seqOf
      rw [hold f hf, hnew]
      omega
  · refine forall_mem_concat.mpr ⟨fun f hf => ?_, Nat.le_of_eq (hnew _)⟩
    have hle := hfile.newest f hf
    unfold seqOf
    rw [hold f hf]
    show _ ≤ s.nextParseSequence + 1
    omega
  · refine forall_mem_concat.mpr ⟨fun f hf => ?_, ?_⟩
    · show (s.fileMtimes.insert path mtime).lookup f.path = _
      rw [Assoc.lookup_insert_eq, if_neg (hgone f hf)]
      exact hfile.mtimes f hf
    · show (s.fileMtimes.insert path mtime).lookup path = _
      rw [Assoc.lookup_insert_eq, if_pos rfl]
  · intro id
    unfold declaringFiles
    rw [List.countP_append]
    exact hpublished.count id
  · intro id
    unfold declaringFiles
    rw [List.countP_append]
    exact hpublished.apps id
  · intro d
    unfold publishedOverride
    rw [List.filterMap_append]
    show _ = (_ ++ []).getLast?
    rw [List.append_nil]
    exact hpublished.manifests d

/-! ## A file makes a call -/

section Call

variable {front : List LoadedFile} {path : String} {mtime : Nat} {calls : List ScriptCall}

theorem declares_call (c : ScriptCall) (id : Nat) :
    LoadedFile.declares ⟨path, mtime, calls ++ [c]⟩ id =
      (LoadedFile.declares ⟨path, mtime, calls⟩ id || c.declares id) := by
  unfold LoadedFile.declares
  rw [List.any_append, List.any_cons, List.any_nil, Bool.or_false]

theorem overrideOf_call (c : ScriptCall) (d : Nat) :
    LoadedFile.overrideOf ⟨path, mtime, calls ++ [c]⟩ d =
      (c.overrideOf d).or (LoadedFile.overrideOf ⟨path, mtime, calls⟩ d) :=
  getLast?_filterMap_concat _ _ _

theorem declaringFiles_last (f : LoadedFile) (id : Nat) :
    declaringFiles (front ++ [f]) id = declaringFiles front id + (f.declares id).toNat := by
  unfold declaringFiles
  rw [List.countP_append, List.countP_singleton]
  cases f.declares id <;> rfl

theorem publishedOverride_last (f : LoadedFile) (d : Nat) :
    publishedOverride (front ++ [f]) d = (f.overrideOf d).or (publishedOverride front d) :=
  getLast?_filterMap_concat _ _ _

/-- The file being parsed makes a call; the books of the others stay. -/
theorem FileBooks.call (h : FileBooks s (front ++ [⟨path, mtime, calls⟩])) (c : ScriptCall)
    {s' : RuntimeState} (ids : List Nat)
    (hothers : ∀ p, p ≠ path → s'.fileDepots.lookup p = s.fileDepots.lookup p ∧
      s'.fileManifestOverrides.lookup p = s.fileManifestOverrides.lookup p)
    (hids : (s'.fileDepots.lookup path).getD [] = ids) (hnodup : ids.Nodup)
    (hdeclares : ∀ id, id ∈ ids ↔ LoadedFile.declares ⟨path, mtime, calls ++ [c]⟩ id = true)
    (hoverrides : ∀ d, (s'.fileManifestOverrides.lookup path).bind (·.lookup d) =
      LoadedFile.overrideOf ⟨path, mtime, calls ++ [c]⟩ d)
    (hsequences : s'.fileParseSequence = s.fileParseSequence)
    (hnext : s'.nextParseSequence = s.nextParseSequence)
    (hmtimes : s'.fileMtimes = s.fileMtimes) :
    FileBooks s' (front ++ [⟨path, mtime, calls ++ [c]⟩]) := by
  have hpaths : (front ++ [(⟨path, mtime, calls ++ [c]⟩ : LoadedFile)]).map (·.path) =
      (front ++ [(⟨path, mtime, calls⟩ : LoadedFile)]).map (·.path) := by
    rw [List.map_append, List.map_append]
    rfl
  have hseq : seqOf s' = seqOf s := by
    funext p
    unfold seqOf
    rw [hsequences]
  have hlast : (⟨path, mtime, calls ++ [c]⟩ : LoadedFile) ∈
      front ++ [⟨path, mtime, calls ++ [c]⟩] :=
    List.mem_append_right _ (List.mem_singleton_self _)
  have hne {f : LoadedFile} (hf : f ∈ front) : f.path ≠ path := (paths_concat h.paths).2 f hf
  have hloaded {p : String} (hp : p ≠ path)
      (hp' : ∃ f ∈ front ++ [(⟨path, mtime, calls⟩ : LoadedFile)], f.path = p) :
      ∃ f ∈ front ++ [⟨path, mtime, calls ++ [c]⟩], f.path = p := by
    obtain ⟨f, hf, hfp⟩ := hp'
    rcases List.mem_append.mp hf with hf | hf
    · exact ⟨f, List.mem_append_left _ hf, hfp⟩
    · rw [List.mem_singleton.mp hf] at hfp
      exact absurd hfp.symm hp
  refine ⟨hpaths ▸ h.paths, ?_, ?_, ?_, ?_, ?_, ?_, ?_, ?_⟩
  · refine forall_mem_concat.mpr ⟨fun f hf id => ?_, fun id => ?_⟩
    · rw [(hothers f.path (hne hf)).1]
      exact (forall_mem_concat.mp h.depots).1 f hf id
    · show id ∈ (s'.fileDepots.lookup path).getD [] ↔ _
      rw [hids]
      exact hdeclares id
  · intro p ids' hp
    by_cases hpath : p = path
    · rw [hpath] at hp
      rw [hp] at hids
      have hids : ids' = ids := hids
      rw [hids]
      exact hnodup
    · rw [(hothers p hpath).1] at hp
      exact h.depotsOnce p ids' hp
  · intro p ids' hp
    by_cases hpath : p = path
    · exact ⟨_, hlast, hpath.symm⟩
    · rw [(hothers p hpath).1] at hp
      exact hloaded hpath (h.depotsLoaded p ids' hp)
  · refine forall_mem_concat.mpr ⟨fun f hf d => ?_, hoverrides⟩
    rw [(hothers f.path (hne hf)).2]
    exact (forall_mem_concat.mp h.overrides).1 f hf d
  · intro p o ho
    by_cases hpath : p = path
    · exact ⟨_, hlast, hpath.symm⟩
    · rw [(hothers p hpath).2] at ho
      exact hloaded hpath (h.overridesLoaded p o ho)
  · -- the order depends on the paths only
    have hascending := h.ascending
    rw [hseq]
    rw [List.pairwise_append] at hascending ⊢
    obtain ⟨hfront, _, hlt⟩ := hascending
    refine ⟨hfront, List.pairwise_singleton _ _, ?_⟩
    intro f hf g hg
    rw [List.mem_singleton.mp hg]
    exact hlt f hf ⟨path, mtime, calls⟩ (List.mem_singleton_self _)
  · rw [hseq, hnext]
    obtain ⟨hfront, hparsed⟩ := forall_mem_concat.mp h.newest
    exact forall_mem_concat.mpr ⟨hfront, hparsed⟩
  · rw [hmtimes]
    obtain ⟨hfront, hparsed⟩ := forall_mem_concat.mp h.mtimes
    exact forall_mem_concat.mpr ⟨hfront, hparsed⟩

/-- The books are not about keys, tickets and the like. -/
theorem Books.others (h : Books s files) (keys : Assoc Nat (List UInt8))
    (times stats avatars tokens : Assoc Nat Nat) (app enc : Assoc Nat (List UInt8))
    (current : Option String) :
    Books { s with
      depotKeys := keys
      appPurchaseTimes := times
      statSteamIds := stats
      avatars := avatars
      accessTokens := tokens
      appTickets := app
      encTickets := enc
      currentFile := current } files :=
  ⟨⟨h.file.paths, h.file.depots, h.file.depotsOnce, h.file.depotsLoaded, h.file.overrides,
    h.file.overridesLoaded, h.file.ascending, h.file.newest, h.file.mtimes⟩,
    h.published.count, h.published.apps, h.published.manifests⟩

theorem idsOf_nodup (h : FileBooks s files) (path : String) : (idsOf s path).Nodup := by
  unfold idsOf
  cases hids : s.fileDepots.lookup path with
  | none => exact List.nodup_nil
  | some ids => exact h.depotsOnce path ids hids

theorem mem_idsOf_last (h : FileBooks s (front ++ [⟨path, mtime, calls⟩])) (id : Nat) :
    id ∈ idsOf s path ↔ LoadedFile.declares ⟨path, mtime, calls⟩ id = true :=
  h.depots ⟨path, mtime, calls⟩ (List.mem_append_right _ (List.mem_singleton_self _)) id

theorem overrides_last (h : FileBooks s (front ++ [⟨path, mtime, calls⟩])) (d : Nat) :
    (s.fileManifestOverrides.lookup path).bind (·.lookup d) =
      LoadedFile.overrideOf ⟨path, mtime, calls⟩ d :=
  h.overrides ⟨path, mtime, calls⟩ (List.mem_append_right _ (List.mem_singleton_self _)) d

/-- A call that adds nothing to what the file has declared and set. -/
theorem Books.again (h : Books s (front ++ [⟨path, mtime, calls⟩])) (c : ScriptCall)
    (hdeclares : ∀ id, c.declares id = true →
      LoadedFile.declares ⟨path, mtime, calls⟩ id = true)
    (hoverride : ∀ d, c.overrideOf d = none) :
    Books s (front ++ [⟨path, mtime, calls ++ [c]⟩]) := by
  have hd (id : Nat) : LoadedFile.declares ⟨path, mtime, calls ++ [c]⟩ id =
      LoadedFile.declares ⟨path, mtime, calls⟩ id := by
    rw [declares_call]
    cases hc : c.declares id with
    | false => exact Bool.or_false _
    | true => rw [hdeclares id hc, Bool.true_or]
  have ho (d : Nat) : LoadedFile.overrideOf ⟨path, mtime, calls ++ [c]⟩ d =
      LoadedFile.overrideOf ⟨path, mtime, calls⟩ d := by
    rw [overrideOf_call, hoverride, Option.none_or]
  refine ⟨h.file.call c _ (fun _ _ => ⟨rfl, rfl⟩) rfl (idsOf_nodup h.file path) ?_ ?_ rfl rfl rfl,
    ?_, ?_, ?_⟩
  · intro id
    rw [hd]
    exact mem_idsOf_last h.file id
  · intro d
    rw [ho]
    exact overrides_last h.file d
  · intro id
    rw [h.published.count, declaringFiles_last, declaringFiles_last, hd]
  · intro id
    rw [h.published.apps, declaringFiles_last, declaringFiles_last, hd]
  · intro d
    rw [h.published.manifests, publishedOverride_last, publishedOverride_last, ho]

theorem getD_positive (n : Nat) : (positive n).getD 0 = n := by
  unfold positive
  by_cases hn : n = 0
  · rw [if_pos hn, hn]
    rfl
  · rw [if_neg hn]
    rfl

/-- An id that the file declares for the first time. -/
theorem count_books (h : Books s (front ++ [⟨path, mtime, calls⟩])) (id : Nat)
    (key : Option String) (hfirst : id ∉ idsOf s path) :
    Books ({ s with fileDepots := s.fileDepots.insert path ((idsOf s path).insert id) }.countDepot
      path id) (front ++ [⟨path, mtime, calls ++ [.addAppId id key]⟩]) := by
  have hlast := mem_idsOf_last h.file
  have hnew : LoadedFile.declares ⟨path, mtime, calls⟩ id = false := by
    rw [← Bool.not_eq_true, ← hlast]
    exact hfirst
  have hself : LoadedFile.declares ⟨path, mtime, calls ++ [.addAppId id key]⟩ id = true := by
    rw [declares_call]
    simp [ScriptCall.declares]
  have hother (i : Nat) (hi : i ≠ id) :
      LoadedFile.declares ⟨path, mtime, calls ++ [.addAppId id key]⟩ i =
        LoadedFile.declares ⟨path, mtime, calls⟩ i := by
    rw [declares_call]
    simp [ScriptCall.declares, hi.symm]
  have hcount : (s.depotRefcount.lookup id).getD 0 = declaringFiles front id := by
    rw [h.published.count, getD_positive, declaringFiles_last, hnew]
    rfl
  have ho (d : Nat) : LoadedFile.overrideOf ⟨path, mtime, calls ++ [.addAppId id key]⟩ d =
      LoadedFile.overrideOf ⟨path, mtime, calls⟩ d := by
    rw [overrideOf_call]
    rfl
  unfold RuntimeState.countDepot
  refine ⟨h.file.call _ ((idsOf s path).insert id) ?_ ?_ ?_ ?_ ?_ rfl rfl rfl, ?_, ?_, ?_⟩
  · intro p hp
    exact ⟨by rw [Assoc.lookup_insert_eq, if_neg hp], rfl⟩
  · show ((s.fileDepots.insert path _).lookup path).getD [] = _
    rw [Assoc.lookup_insert_eq, if_pos rfl]
    rfl
  · exact (idsOf_nodup h.file path).insert
  · intro i
    rw [List.mem_insert_iff]
    by_cases hi : i = id
    · rw [hi, hself]
      simp
    · rw [hother i hi, ← hlast]
      simp [hi]
  · intro d
    rw [ho]
    exact overrides_last h.file d
  · intro i
    show (s.depotRefcount.insert id _).lookup i = _
    rw [Assoc.lookup_insert_eq, declaringFiles_last]
    by_cases hi : i = id
    · rw [if_pos hi, hi, hself, hcount]
      exact (if_neg (Nat.succ_ne_zero _)).symm
    · rw [if_neg hi, h.published.count, declaringFiles_last, hother i hi]
  · intro i
    show i ∈ (if (s.depotRefcount.lookup id).getD 0 + 1 = 1 then insert id s.apps else s.apps) ↔ _
    have happs := h.published.apps i
    rw [declaringFiles_last] at happs ⊢
    rw [hcount]
    by_cases hi : i = id
    · rw [hi, hnew] at happs
      rw [hi, hself]
      show _ ↔ 0 < declaringFiles front id + 1
      by_cases hzero : declaringFiles front id + 1 = 1
      · rw [if_pos hzero]
        simp
      · rw [if_neg hzero, happs]
        show 0 < declaringFiles front id + 0 ↔ _
        omega
    · rw [hother i hi, ← happs]
      split
      · simp [hi]
      · rfl
  · intro d
    show s.manifests.lookup d = _
    rw [h.published.manifests, publishedOverride_last, publishedOverride_last, ho]

/-- An id that the file has declared already. -/
theorem redeclare_books (h : Books s (front ++ [⟨path, mtime, calls⟩])) (id : Nat)
    (key : Option String) (hagain : id ∈ idsOf s path) :
    Books { s with fileDepots := s.fileDepots.insert path ((idsOf s path).insert id) }
      (front ++ [⟨path, mtime, calls ++ [.addAppId id key]⟩]) := by
  have hdeclares (i : Nat) (hi : ScriptCall.declares i (.addAppId id key) = true) :
      LoadedFile.declares ⟨path, mtime, calls⟩ i = true := by
    have hi : id = i := beq_iff_eq.mp hi
    rw [← hi]
    exact (mem_idsOf_last h.file id).mp hagain
  obtain ⟨hfile, hpublished⟩ := h.again (.addAppId id key) hdeclares fun _ => rfl
  rw [List.insert_of_mem hagain]
  refine ⟨h.file.call _ (idsOf s path) ?_ ?_ (idsOf_nodup h.file path) ?_ ?_ rfl rfl rfl,
    hpublished.count, hpublished.apps, hpublished.manifests⟩
  · intro p hp
    exact ⟨by rw [Assoc.lookup_insert_eq, if_neg hp], rfl⟩
  · show ((s.fileDepots.insert path _).lookup path).getD [] = _
    rw [Assoc.lookup_insert_eq, if_pos rfl]
    rfl
  · exact mem_idsOf_last hfile
  · intro d
    show (s.fileManifestOverrides.lookup path).bind _ = _
    exact overrides_last hfile d

theorem declare_books (h : Books s (front ++ [⟨path, mtime, calls⟩]))
    (hcurrent : s.currentFile = some path) (id : Nat) (key : Option String) :
    Books (s.declareDepot id) (front ++ [⟨path, mtime, calls ++ [.addAppId id key]⟩]) := by
  unfold RuntimeState.declareDepot
  split
  · rename_i hnone
    rw [hcurrent] at hnone
    cases hnone
  · rename_i p hp
    rw [hcurrent] at hp
    cases hp
    show Books (if id ∈ idsOf s path then _ else _) _
    by_cases hid : id ∈ idsOf s path
    · rw [if_pos hid]
      exact redeclare_books h id key hid
    · rw [if_neg hid]
      exact count_books h id key hid

theorem setDepotKey_eq (s : RuntimeState) (id : Nat) (hex : String) :
    s.setDepotKey id hex = { s with depotKeys := (s.setDepotKey id hex).depotKeys } := by
  unfold RuntimeState.setDepotKey
  split
  · split
    · rfl
    · split
      · rfl
      · rfl
  · rfl

theorem declareDepot_currentFile (s : RuntimeState) (id : Nat) :
    (s.declareDepot id).currentFile = s.currentFile := by
  unfold RuntimeState.declareDepot
  split
  · rfl
  · dsimp only
    split
    · rfl
    · rfl

theorem override_books (h : Books s (front ++ [⟨path, mtime, calls⟩]))
    (hcurrent : s.currentFile = some path) (d gid : Nat) (size : Option Nat) :
    Books (s.setManifestId order ⟨d, gid, size⟩)
      (front ++ [⟨path, mtime, calls ++ [.setManifestId d gid size]⟩]) ∧
    (s.setManifestId order ⟨d, gid, size⟩).currentFile = some path := by
  have hd (id : Nat) : LoadedFile.declares ⟨path, mtime, calls ++ [.setManifestId d gid size]⟩ id =
      LoadedFile.declares ⟨path, mtime, calls⟩ id := by
    rw [declares_call]
    exact Bool.or_false _
  have ho (e : Nat) (he : e ≠ d) :
      LoadedFile.overrideOf ⟨path, mtime, calls ++ [.setManifestId d gid size]⟩ e =
        LoadedFile.overrideOf ⟨path, mtime, calls⟩ e := by
    rw [overrideOf_call]
    simp [ScriptCall.overrideOf, he.symm]
  have hself : LoadedFile.overrideOf ⟨path, mtime, calls ++ [.setManifestId d gid size]⟩ d =
      some ⟨d, gid, size⟩ := by
    rw [overrideOf_call]
    simp [ScriptCall.overrideOf]
  unfold RuntimeState.setManifestId
  split
  · rename_i hnone
    rw [hcurrent] at hnone
    cases hnone
  · rename_i p hp
    rw [hcurrent] at hp
    cases hp
    generalize hs₁ : ({ s with
      fileManifestOverrides := s.fileManifestOverrides.insert path
        (((s.fileManifestOverrides.lookup path).getD ∅).insert d ⟨d, gid, size⟩) } :
      RuntimeState) = s₁
    have hbooks : FileBooks s₁
        (front ++ [⟨path, mtime, calls ++ [.setManifestId d gid size]⟩]) := by
      rw [← hs₁]
      refine h.file.call _ (idsOf s path) ?_ rfl (idsOf_nodup h.file path) ?_ ?_ rfl rfl rfl
      · intro p hp
        exact ⟨rfl, by rw [Assoc.lookup_insert_eq, if_neg hp]⟩
      · intro id
        rw [hd]
        exact mem_idsOf_last h.file id
      · intro e
        show ((s.fileManifestOverrides.insert path _).lookup path).bind _ = _
        rw [Assoc.lookup_insert_eq, if_pos rfl]
        show (AList.insert d _ _).lookup e = _
        rw [Assoc.lookup_insert_eq]
        by_cases he : e = d
        · rw [if_pos he, he, hself]
        · rw [if_neg he, ho e he, ← overrides_last h.file e]
          cases s.fileManifestOverrides.lookup path <;> rfl
    have hwinner : winner order s₁ d = some ⟨d, gid, size⟩ := by
      rw [winner_eq hbooks, publishedOverride_last, hself]
      rfl
    have hframe := rebuildManifestOverride_eq order s₁ d
    have hlookup := lookup_rebuild order s₁ d
    show Books (RuntimeState.rebuildManifestOverride order _ d) _ ∧
      (RuntimeState.rebuildManifestOverride order _ d).currentFile = _
    rw [hs₁]
    generalize s₁.rebuildManifestOverride order d = s₂ at hframe hlookup
    rw [hframe, ← hs₁]
    rw [← hs₁] at hbooks hlookup
    refine ⟨⟨⟨hbooks.paths, hbooks.depots, hbooks.depotsOnce, hbooks.depotsLoaded,
      hbooks.overrides, hbooks.overridesLoaded, hbooks.ascending, hbooks.newest, hbooks.mtimes⟩,
      ?_, ?_, ?_⟩, hcurrent⟩
    · intro id
      show s.depotRefcount.lookup id = _
      rw [h.published.count, declaringFiles_last, declaringFiles_last, hd]
    · intro id
      show id ∈ s.apps ↔ _
      rw [h.published.apps, declaringFiles_last, declaringFiles_last, hd]
    · intro e
      show s₂.manifests.lookup e = _
      rw [hlookup, hs₁, hwinner, publishedOverride_last]
      by_cases he : e = d
      · rw [if_pos he, he, hself]
        rfl
      · rw [if_neg he, ho e he, ← publishedOverride_last, ← hs₁]
        exact h.published.manifests e

/-- One call of the file being parsed. -/
theorem call_books (order : WalkOrder) (h : Books s (front ++ [⟨path, mtime, calls⟩]))
    (hcurrent : s.currentFile = some path) (c : ScriptCall) :
    Books (s.call order c) (front ++ [⟨path, mtime, calls ++ [c]⟩]) ∧
      (s.call order c).currentFile = some path := by
  cases c with
  | addAppId id key =>
    have hdeclared := declare_books h hcurrent id key
    have hfile := declareDepot_currentFile s id
    cases key with
    | none => exact ⟨hdeclared, hfile.trans hcurrent⟩
    | some hex =>
      show Books ((s.declareDepot id).setDepotKey id hex) _ ∧
        ((s.declareDepot id).setDepotKey id hex).currentFile = some path
      rw [setDepotKey_eq]
      exact ⟨hdeclared.others _ _ _ _ _ _ _ _, hfile.trans hcurrent⟩
  | setManifestId d gid size => exact override_books h hcurrent d gid size
  | setAppTicket appId hex =>
    have hquiet := h.again (.setAppTicket appId hex) (fun _ hc => nomatch hc) fun _ => rfl
    simp only [RuntimeState.call]
    split
    · exact ⟨hquiet, hcurrent⟩
    · exact ⟨hquiet.others _ _ _ _ _ _ _ _, hcurrent⟩
  | setETicket appId hex =>
    have hquiet := h.again (.setETicket appId hex) (fun _ hc => nomatch hc) fun _ => rfl
    simp only [RuntimeState.call]
    split
    · exact ⟨hquiet, hcurrent⟩
    · exact ⟨hquiet.others _ _ _ _ _ _ _ _, hcurrent⟩
  | setStat appId steamId =>
    have hquiet := h.again (.setStat appId steamId) (fun _ hc => nomatch hc) fun _ => rfl
    exact ⟨hquiet.others _ _ _ _ _ _ _ _, hcurrent⟩
  | setAvatar appId avatar =>
    have hquiet := h.again (.setAvatar appId avatar) (fun _ hc => nomatch hc) fun _ => rfl
    exact ⟨hquiet.others _ _ _ _ _ _ _ _, hcurrent⟩
  | addToken appId token =>
    have hquiet := h.again (.addToken appId token) (fun _ hc => nomatch hc) fun _ => rfl
    cases token with
    | none => exact ⟨hquiet, hcurrent⟩
    | some value => exact ⟨hquiet.others _ _ _ _ _ _ _ _, hcurrent⟩

theorem foldl_call_books (order : WalkOrder) (h : Books s (front ++ [⟨path, mtime, calls⟩]))
    (hcurrent : s.currentFile = some path) (more : List ScriptCall) :
    Books (more.foldl (RuntimeState.call order) s) (front ++ [⟨path, mtime, calls ++ more⟩]) := by
  induction more generalizing s calls with
  | nil =>
    rw [List.append_nil]
    exact h
  | cons c more ih =>
    obtain ⟨hbooks, hcurrent⟩ := call_books order h hcurrent c
    rw [List.foldl_cons, List.append_cons calls c more]
    exact ih hbooks hcurrent

end Call

/-! ## Every history -/

theorem parse_books (h : Books s files) (path : String) (mtime : Nat) (calls : List ScriptCall) :
    Books (s.parseFile order path mtime calls) (without path files ++ [⟨path, mtime, calls⟩]) := by
  have hbegin : Books (s.beginParseFile order path mtime) _ := begin_books h path mtime
  have hcalls := foldl_call_books order hbegin rfl calls
  rw [List.nil_append] at hcalls
  exact hcalls.others _ _ _ _ _ _ _ _

/-- One call of the registry. -/
theorem run_books (h : Books s files) (c : RegistryCall) :
    Books (c.run order s) (c.track files) := by
  cases c with
  | parseFile path mtime calls => exact parse_books h path mtime calls
  | unloadFile path => exact unload_books h path

theorem default_books : Books .default [] where
  file := {
    paths := List.nodup_nil
    depots := fun _ h => absurd h List.not_mem_nil
    depotsOnce := fun _ _ h => nomatch h
    depotsLoaded := fun _ _ h => nomatch h
    overrides := fun _ h => absurd h List.not_mem_nil
    overridesLoaded := fun _ _ h => nomatch h
    ascending := .nil
    newest := fun _ h => absurd h List.not_mem_nil
    mtimes := fun _ h => absurd h List.not_mem_nil }
  published := {
    count := fun _ => rfl
    apps := fun id => by simp [RuntimeState.default, declaringFiles]
    manifests := fun _ => rfl }

theorem books_after (order : WalkOrder) (calls : List RegistryCall) :
    Books (registryAfter order calls) (loadedAfter calls) := by
  unfold registryAfter loadedAfter
  induction calls using List.reverseRecOn with
  | nil => exact default_books
  | append_singleton calls c ih =>
    rw [List.foldl_append, List.foldl_append]
    exact run_books ih c

end Books

end VaporForge.Scripting
