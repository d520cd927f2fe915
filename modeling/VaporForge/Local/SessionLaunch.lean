import VaporForge.Local.Held
import VaporForge.Local.Session

/-!
# Launches that fail

`launch_session` reads both directories, may write an override, looks at the app's
manifests, writes a claim and reconciles the overrides. A launch that is refused should
leave the peers' sessions as they were:

> an error leaves both directories alone, except where the launch ignored pending
> sessions: the override is written before the manifests are looked at, and stays if
> they cannot be resolved (`launch_fails_clean_iff`).
-/

namespace VaporForge.Local

open VaporForge.CloudCore
open Lib

/-! ## What the walks return -/

section Walk

variable {α : Type} {tooMany : String}
  {readRecord : FileName → Node → Result (String × Bytes × α)}

variable {n : Nat} {records : List (String × Bytes × α)}

/-- The walk reads every file with the extension, and returns what it read. -/
theorem mem_walkSessionRecords {entries : List Entry}
    (h : walkSessionRecords tooMany readRecord entries n = .ok records)
    (record : String × Bytes × α) :
    record ∈ records ↔ ∃ name node, (name, node) ∈ entries ∧ hasJsonExtension name = true ∧
      readRecord name node = .ok record := by
  induction entries generalizing n records with
  | nil =>
    cases h
    simp
  | cons entry entries ih =>
    obtain ⟨name, node⟩ := entry
    simp only [walkSessionRecords, throw_bind, ite_throw_eq_ok] at h
    obtain ⟨_, h⟩ := h
    split at h
    · next hjson =>
      simp only [bind_eq_ok, pure_eq_ok] at h
      obtain ⟨first, hfirst, rest, hrest, rfl⟩ := h
      rw [List.mem_cons, ih hrest]
      constructor
      · rintro (rfl | ⟨name', node', hmem, hread⟩)
        · exact ⟨name, node, List.mem_cons_self, hjson, hfirst⟩
        · exact ⟨name', node', List.mem_cons_of_mem _ hmem, hread⟩
      · rintro ⟨name', node', hmem, hjson', hread⟩
        rcases List.mem_cons.mp hmem with heq | hmem
        · cases heq
          rw [hfirst] at hread
          exact .inl (Except.ok.inj hread).symm
        · exact .inr ⟨name', node', hmem, hjson', hread⟩
    · next hjson =>
      rw [ih h]
      constructor
      · rintro ⟨name', node', hmem, hread⟩
        exact ⟨name', node', List.mem_cons_of_mem _ hmem, hread⟩
      · rintro ⟨name', node', hmem, hjson', hread⟩
        rcases List.mem_cons.mp hmem with heq | hmem
        · cases heq
          exact absurd hjson' hjson
        · exact ⟨name', node', hmem, hjson', hread⟩

variable {name : FileName} {node : Node}

/-- Every file with the extension that a successful walk passed was read. -/
theorem read_of_walkSessionRecords {entries : List Entry}
    (h : walkSessionRecords tooMany readRecord entries n = .ok records)
    (hmem : (name, node) ∈ entries) (hjson : hasJsonExtension name = true) :
    ∃ record, readRecord name node = .ok record := by
  induction entries generalizing n records with
  | nil => exact absurd hmem List.not_mem_nil
  | cons entry entries ih =>
    simp only [walkSessionRecords, throw_bind, ite_throw_eq_ok] at h
    obtain ⟨_, h⟩ := h
    rcases List.mem_cons.mp hmem with rfl | hmem
    · rw [if_pos hjson] at h
      simp only [bind_eq_ok] at h
      obtain ⟨record, hrecord, _⟩ := h
      exact ⟨record, hrecord⟩
    · split at h
      · simp only [bind_eq_ok] at h
        obtain ⟨_, _, rest, hrest, _⟩ := h
        exact ih hrest hmem
      · exact ih h hmem

end Walk

theorem readSessionRecord_eq_ok {α : Type} {label clientError : String} {decode : Bytes → Option α}
    {validate : α → Result Unit} {clientOf : α → Nat} {file : String} {bytes : Bytes} {record : α}
    (h : readSessionRecord label decode validate clientOf clientError name node = .ok (file, bytes, record))
    :
    name = .utf8 file ∧ node = .file bytes ∧ bytes.length ≤ maxSessionRecordBytes ∧
      decode bytes = some record ∧ validate record = .ok () := by
  simp only [readSessionRecord, bind_eq_ok] at h
  obtain ⟨bytes', hbytes, h⟩ := h
  split at h
  · exact absurd h (by simp)
  next record' hdecode =>
  simp only [bind_eq_ok, throw_bind, ite_throw_eq_ok, pure_eq_ok, Prod.mk.injEq] at h
  obtain ⟨_, hvalid, ⟨name', clientId⟩, hname, _, rfl, rfl, rfl⟩ := h
  have hnode : node = .file bytes' ∧ bytes'.length ≤ maxSessionRecordBytes := by
    unfold readBoundedFile at hbytes
    split at hbytes
    · exact absurd hbytes (by simp)
    next old heq =>
      simp only [ite_throw_eq_ok, pure_eq_ok, Nat.not_lt] at hbytes
      obtain ⟨hle, rfl⟩ := hbytes
      exact ⟨Option.some.inj heq, hle⟩
    · exact absurd hbytes (by simp)
  refine ⟨?_, hnode.1, hnode.2, hdecode, hvalid⟩
  unfold sessionRecordClientId at hname
  split at hname
  · split at hname
    · cases hname
      rfl
    · exact absurd hname (by simp)
  · exact absurd hname (by simp)

/-! ## Overrides that were read can be rewritten -/

section Calls

variable {P : Platform} {C : SessionCodec} {store : FolderStore} {appId : Nat}

/-- The record is the content of some file that fits. -/
def Loaded (C : SessionCodec) (record : SessionOverride) : Prop :=
  record.clientId ≠ 0 ∧ ∃ bytes, C.decodeOverride bytes = some record ∧
    bytes.length ≤ maxSessionRecordBytes

theorem loaded_of_read {dir : AppDir} {overrides : List (String × SessionOverride)}
    (h : readSessionOverrides C store appId dir = .ok overrides) :
    ∀ override ∈ overrides, Loaded C override.2 := by
  simp only [readSessionOverrides, throw_bind, ite_throw_eq_ok, bind_eq_ok, pure_eq_ok] at h
  obtain ⟨_, records, hwalk, rfl⟩ := h
  intro override hmem
  obtain ⟨⟨file, bytes, record⟩, hrecord, rfl⟩ := List.mem_map.mp hmem
  obtain ⟨name, node, _, _, hread⟩ := (mem_walkSessionRecords hwalk _).mp hrecord
  obtain ⟨_, _, hle, hdecode, hvalid⟩ := readSessionRecord_eq_ok hread
  simp only [validateSessionOverride, throw_bind, ite_throw_eq_ok, not_or] at hvalid
  exact ⟨hvalid.1.2, bytes, hdecode, hle⟩

theorem sessionPath_ok (hacc : store.account ≠ none) {clientId : Nat} (hclient : clientId ≠ 0) :
    store.sessionPath clientId = .ok (sessionRecordName clientId) := by
  simp [FolderStore.sessionPath, hacc, hclient]

/-- The folder once the override is stored. -/
def SessionFolder.withOverride (C : SessionCodec) (folder : SessionFolder)
    (record : SessionOverride) : SessionFolder :=
  { folder with
    overrides :=
      folder.overrides.replace (sessionRecordName record.clientId) (C.encodeOverride record) }

theorem writeSessionOverride_apply (hacc : store.account ≠ none) (record : SessionOverride)
    (hclient : record.clientId ≠ 0) (folder : SessionFolder) :
    writeSessionOverride C store record folder =
      if (C.encodeOverride record).length > maxSessionRecordBytes then
        (.error (permanent "local cloud session override is too large"), folder)
      else (.ok (), folder.withOverride C record) := by
  unfold writeSessionOverride
  rw [sessionPath_ok hacc hclient, Effect.lift_ok_bind]
  split <;> rfl

/-- Reconciling shrinks what was loaded, so it cannot fail. -/
theorem reconcile_ok (hacc : store.account ≠ none) (liveClaims : List String)
    (overrides : List (String × SessionOverride))
    (hloaded : ∀ override ∈ overrides, Loaded C override.2) (folder : SessionFolder) :
    ∃ folder', reconcileLoadedSessionOverrides C store liveClaims overrides folder =
      (.ok (), folder') := by
  induction overrides generalizing folder with
  | nil => exact ⟨folder, rfl⟩
  | cons override overrides ih =>
    obtain ⟨name, record⟩ := override
    rw [List.forall_mem_cons] at hloaded
    obtain ⟨⟨hclient, bytes, hdecode, hle⟩, hrest⟩ := hloaded
    unfold reconcileLoadedSessionOverrides
    dsimp only
    split
    · rw [Effect.modify_bind]
      exact ih hrest _
    split
    · have hfits := C.encodeOverride_le bytes record hdecode _
        (List.filter_sublist (p := fun id => liveClaims.contains id))
      have hwrite := writeSessionOverride_apply (C := C) hacc
        { record with
          supersededClaims := record.supersededClaims.filter fun id => liveClaims.contains id }
        hclient folder
      rw [if_neg (by omega)] at hwrite
      rw [Effect.bind_of_ok hwrite]
      exact ih hrest _
    · exact ih hrest _

/-! ## Before anything is written -/

section Launch

variable (P C store appId)

/-- What `launch_session` has read when it gets past its checks. -/
structure Observed (identity : CommitIdentity) (folder : SessionFolder)
    (claims : List (String × SessionClaim)) (overrides : List (String × SessionOverride)) :
    Prop where
  app : validateAppId appId = .ok ()
  identity : validateIdentity identity = .ok ()
  claims : readSessionClaims P C store appId folder.claims = .ok claims
  overrides : readSessionOverrides C store appId folder.overrides = .ok overrides

/-- The claims that stand in the way of a launch. -/
def inTheWay (identity : CommitIdentity) (claims : List (String × SessionClaim))
    (overrides : List (String × SessionOverride)) : List (String × SessionClaim) :=
  pendingClaims identity.clientId (supersededLiveClaims overrides (liveClaimIds claims)) claims

/-- The override a launch writes. -/
def launchOverride (identity : CommitIdentity) (claims : List (String × SessionClaim))
    (overrides : List (String × SessionOverride)) : SessionOverride :=
  ⟨appId, identity.clientId,
    overrideClaims identity.clientId (supersededLiveClaims overrides (liveClaimIds claims)) claims⟩

/-- The claim a launch writes. -/
def launchClaim (identity : CommitIdentity) (osType deviceType : Option Int) (now : Nat)
    (nonce : String) (heads : List String) : SessionClaim where
  appId
  clientId := identity.clientId
  machineName := identity.machineName
  osType
  deviceType
  status := .active
  observedHeads := heads
  updatedAt := now
  nonce

/-- What a launch does once nothing stands in its way. -/
def finishLaunch (dir : AppDir) (identity : CommitIdentity) (osType deviceType : Option Int)
    (now : Nat) (nonce : String) (claims : List (String × SessionClaim))
    (overrides : List (String × SessionOverride)) : SessionCall (List SessionPeer) := do
  let observed ← .lift (view P store appId dir)
  let claimId ← writeSessionClaim P C store
    (launchClaim appId identity osType deviceType now nonce observed.headIds)
  reconcileLoadedSessionOverrides C store
    (otherClaimIds identity.clientId claims ++ [claimId]) overrides
  return []

/-- A launch that ignores pending sessions and fails after it has superseded them: the
manifests do not resolve, or the claim does not fit. -/
structure LeavesOverride (dir : AppDir) (identity : CommitIdentity)
    (osType deviceType : Option Int) (ignorePending : Bool) (now : Nat) (nonce : String)
    (folder : SessionFolder) (claims : List (String × SessionClaim))
    (overrides : List (String × SessionOverride)) : Prop where
  observed : Observed P C store appId identity folder claims overrides
  ignored : ignorePending = true
  pending : inTheWay identity claims overrides ≠ []
  fits : (C.encodeOverride (launchOverride appId identity claims overrides)).length ≤
    maxSessionRecordBytes
  fails : (∃ e, view P store appId dir = .error e) ∨
    ∃ v, view P store appId dir = .ok v ∧ maxSessionRecordBytes <
      (C.encodeClaim
        (launchClaim appId identity osType deviceType now nonce v.headIds)).length

variable {P C store appId} {dir : AppDir} {identity : CommitIdentity}
  {osType deviceType : Option Int} {ignorePending : Bool} {now : Nat} {nonce : String}
  {folder folder' : SessionFolder} {claims : List (String × SessionClaim)}
  {overrides : List (String × SessionOverride)}

theorem Observed.account_ne (h : Observed P C store appId identity folder claims overrides) :
    store.account ≠ none := by
  have hread := h.claims
  simp only [readSessionClaims, throw_bind, ite_throw_eq_ok] at hread
  exact hread.1

theorem Observed.client_ne (h : Observed P C store appId identity folder claims overrides) :
    identity.clientId ≠ 0 := by
  have hidentity := h.identity
  simp only [validateIdentity, ite_throw_eq_ok] at hidentity
  exact hidentity.1

/-- Past the reads, a launch is one of three things. -/
theorem launch_of_observed (dir : AppDir) (osType deviceType : Option Int) (ignorePending : Bool)
    (now : Nat) (nonce : String)
    (h : Observed P C store appId identity folder claims overrides) :
    launchSession P C store appId dir identity osType deviceType ignorePending now nonce folder =
      if inTheWay identity claims overrides ≠ [] ∧ !ignorePending then
        (reconcileLoadedSessionOverrides C store (liveClaimIds claims) overrides >>= fun _ =>
          pure ((inTheWay identity claims overrides).map fun claim => claim.2.peer)) folder
      else if inTheWay identity claims overrides ≠ [] then
        (supersedePending C store appId identity
            (supersededLiveClaims overrides (liveClaimIds claims)) claims overrides >>=
          finishLaunch P C store appId dir identity osType deviceType now nonce claims) folder
      else
        finishLaunch P C store appId dir identity osType deviceType now nonce claims overrides
          folder := by
  unfold launchSession
  simp only [h.app, h.identity, Effect.lift_ok_bind, Effect.get_bind, h.claims, h.overrides]
  show (if inTheWay identity claims overrides ≠ [] ∧ !ignorePending then _ else _ :
    SessionCall (List SessionPeer)) folder = _
  by_cases hrefused : inTheWay identity claims overrides ≠ [] ∧ !ignorePending
  · rw [if_pos hrefused, if_pos hrefused]
    rfl
  · rw [if_neg hrefused, if_neg hrefused]
    by_cases hpending : inTheWay identity claims overrides ≠ []
    · rw [if_pos hpending]
      show (if inTheWay identity claims overrides ≠ [] then _ else _ :
        SessionCall (List SessionPeer)) folder = _
      rw [if_pos hpending]
      rfl
    · rw [if_neg hpending]
      show (if inTheWay identity claims overrides ≠ [] then _ else _ :
        SessionCall (List SessionPeer)) folder = _
      rw [if_neg hpending]
      rfl

/-- A launch that does not get past the reads changes nothing. -/
theorem launch_of_unobserved
    (h : ¬ ∃ claims overrides, Observed P C store appId identity folder claims overrides) :
    ∃ e, launchSession P C store appId dir identity osType deviceType ignorePending now nonce
      folder = (.error e, folder) := by
  unfold launchSession
  cases happ : validateAppId appId with
  | error e => exact ⟨e, rfl⟩
  | ok _ =>
  rw [Effect.lift_ok_bind]
  cases hidentity : validateIdentity identity with
  | error e => exact ⟨e, rfl⟩
  | ok _ =>
  rw [Effect.lift_ok_bind, Effect.get_bind]
  cases hclaims : readSessionClaims P C store appId folder.claims with
  | error e => exact ⟨e, rfl⟩
  | ok claims =>
  rw [Effect.lift_ok_bind]
  cases hoverrides : readSessionOverrides C store appId folder.overrides with
  | error e => exact ⟨e, rfl⟩
  | ok overrides => exact absurd ⟨claims, overrides, happ, hidentity, hclaims, hoverrides⟩ h

theorem writeSessionClaim_apply (hacc : store.account ≠ none) (claim : SessionClaim)
    (hclient : claim.clientId ≠ 0) (folder : SessionFolder) :
    writeSessionClaim P C store claim folder =
      if (C.encodeClaim claim).length > maxSessionRecordBytes then
        (.error (permanent "local cloud session claim is too large"), folder)
      else (.ok (P.sha256 (C.encodeClaim claim)),
        { folder with
          claims := folder.claims.replace (sessionRecordName claim.clientId)
            (C.encodeClaim claim) }) := by
  unfold writeSessionClaim
  rw [sessionPath_ok hacc hclient, Effect.lift_ok_bind]
  split <;> rfl

/-- The last part of a launch fails only before it writes: on manifests that do not
resolve, or on a claim that does not fit. -/
theorem finishLaunch_error (hacc : store.account ≠ none) (hclient : identity.clientId ≠ 0)
    (hloaded : ∀ override ∈ overrides, Loaded C override.2) :
    (∃ e, finishLaunch P C store appId dir identity osType deviceType now nonce claims overrides
        folder = (.error e, folder)) ∧
      ((∃ e, view P store appId dir = .error e) ∨ ∃ v, view P store appId dir = .ok v ∧
        maxSessionRecordBytes < (C.encodeClaim
          (launchClaim appId identity osType deviceType now nonce v.headIds)).length) ∨
    ∃ folder', finishLaunch P C store appId dir identity osType deviceType now nonce claims
        overrides folder = (.ok [], folder') ∧
      ¬ ((∃ e, view P store appId dir = .error e) ∨ ∃ v, view P store appId dir = .ok v ∧
        maxSessionRecordBytes < (C.encodeClaim
          (launchClaim appId identity osType deviceType now nonce v.headIds)).length) := by
  unfold finishLaunch
  cases hview : view P store appId dir with
  | error e => exact .inl ⟨⟨e, rfl⟩, .inl ⟨e, rfl⟩⟩
  | ok v =>
    rw [Effect.lift_ok_bind]
    have hwrite := writeSessionClaim_apply (P := P) (C := C) hacc
      (launchClaim appId identity osType deviceType now nonce v.headIds) hclient folder
    by_cases hfits : (C.encodeClaim (launchClaim appId identity osType deviceType now nonce
        v.headIds)).length > maxSessionRecordBytes
    · rw [if_pos hfits] at hwrite
      exact .inl ⟨⟨_, Effect.bind_of_error hwrite⟩, .inr ⟨v, rfl, hfits⟩⟩
    · rw [if_neg hfits] at hwrite
      rw [Effect.bind_of_ok hwrite]
      obtain ⟨folder', hreconcile⟩ := reconcile_ok hacc (otherClaimIds identity.clientId claims ++
        [P.sha256 (C.encodeClaim (launchClaim appId identity osType deviceType now nonce
          v.headIds))]) overrides hloaded _
      refine .inr ⟨folder', Effect.bind_of_ok hreconcile, ?_⟩
      rintro (⟨e, he⟩ | ⟨v', hv', hlarge⟩)
      · cases he
      · cases hv'
        exact hfits hlarge

theorem hasJsonExtension_sessionRecordName (clientId : Nat) :
    hasJsonExtension (.utf8 (sessionRecordName clientId)) = true := by
  have hdigits : (toString clientId).toList = Nat.toDigits 10 clientId := String.toList_ofList
  have hlength : 0 < (toString clientId).toList.length := hdigits ▸ Nat.length_toDigits_pos
  simp only [hasJsonExtension, sessionRecordName, String.toList_append, Bool.and_eq_true,
    List.isSuffixOf_iff_suffix, decide_eq_true_eq, List.length_append]
  refine ⟨List.suffix_append _ _, ?_⟩
  have hfive : (".json".toList).length = 5 := by decide
  omega

/-- Where somebody is still in the way, the override that lists them is not there yet. -/
theorem override_absent (h : Observed P C store appId identity folder claims overrides)
    (hpending : inTheWay identity claims overrides ≠ []) :
    folder.overrides.find (sessionRecordName identity.clientId) ≠
      some (.file (C.encodeOverride (launchOverride appId identity claims overrides))) := by
  intro hfind
  have hread := h.overrides
  simp only [readSessionOverrides, throw_bind, ite_throw_eq_ok, bind_eq_ok, pure_eq_ok] at hread
  obtain ⟨_, records, hwalk, rfl⟩ := hread
  have hentry := find_eq_some_iff.mp hfind
  have hjson := hasJsonExtension_sessionRecordName identity.clientId
  obtain ⟨⟨file, bytes, record⟩, hrecord⟩ := read_of_walkSessionRecords hwalk hentry hjson
  obtain ⟨_, hbytes, _, hdecode, _⟩ := readSessionRecord_eq_ok hrecord
  cases hbytes
  rw [C.decode_encodeOverride, Option.some.injEq] at hdecode
  have hmem := (mem_walkSessionRecords hwalk _).mpr ⟨_, _, hentry, hjson, hrecord⟩
  -- so everybody it lists is superseded, and nobody is left in the way
  obtain ⟨claim, hclaim⟩ := List.exists_mem_of_ne_nil _ hpending
  obtain ⟨hclaims, hother⟩ := List.mem_filter.mp hclaim
  rw [Bool.and_eq_true, Bool.not_eq_true', bne_iff_ne] at hother
  refine absurd hother.2 (Bool.not_eq_false _ ▸ List.contains_iff_mem.mpr ?_)
  refine List.mem_filter.mpr ⟨List.mem_flatMap.mpr ⟨_, List.mem_map_of_mem hmem, ?_⟩, ?_⟩
  · show claim.1 ∈ record.supersededClaims
    rw [← hdecode]
    show claim.1 ∈ overrideClaims _ _ _
    rw [overrideClaims, List.mem_insertionSort, List.mem_dedup]
    refine List.mem_append_right _ (List.mem_map.mpr ⟨claim, List.mem_filter.mpr ?_, rfl⟩)
    exact ⟨hclaims, bne_iff_ne.mpr hother.1⟩
  · exact List.contains_iff_mem.mpr (List.mem_map_of_mem hclaims)

theorem find_replace (dir : AppDir) (name : String) (bytes : Bytes) :
    (dir.replace name bytes).find name = some (.file bytes) := by
  unfold AppDir.replace
  split
  · next old hold =>
    split
    · next heq => rw [hold, heq]
    · rw [find_put, if_pos rfl]
  · rw [find_put, if_pos rfl]

theorem supersedePending_apply (C : SessionCodec) (appId : Nat)
    (claims : List (String × SessionClaim)) (overrides : List (String × SessionOverride))
    (hacc : store.account ≠ none) (hclient : identity.clientId ≠ 0) (folder : SessionFolder) :
    supersedePending C store appId identity (supersededLiveClaims overrides (liveClaimIds claims))
        claims overrides folder =
      if (C.encodeOverride (launchOverride appId identity claims overrides)).length >
          maxSessionRecordBytes then
        (.error (permanent "local cloud session override is too large"), folder)
      else
        (.ok ((overrides.filter fun override =>
            override.1 != sessionRecordName identity.clientId) ++
            [(sessionRecordName identity.clientId, launchOverride appId identity claims overrides)]),
          folder.withOverride C (launchOverride appId identity claims overrides)) := by
  unfold supersedePending
  rw [sessionPath_ok hacc hclient, Effect.lift_ok_bind]
  have hwrite := writeSessionOverride_apply (C := C) hacc
    (launchOverride appId identity claims overrides) hclient folder
  split
  · next hlarge =>
    rw [if_pos hlarge] at hwrite
    exact Effect.bind_of_error hwrite
  · next hfits =>
    rw [if_neg hfits] at hwrite
    exact Effect.bind_of_ok hwrite

/-- The overrides a launch goes on with are loaded, too. -/
theorem loaded_superseded (hloaded : ∀ override ∈ overrides, Loaded C override.2)
    {record : SessionOverride} (hclient : record.clientId ≠ 0)
    (hfits : ¬ (C.encodeOverride record).length > maxSessionRecordBytes) (name : String) :
    ∀ override ∈ (overrides.filter fun override => override.1 != name) ++ [(name, record)],
      Loaded C override.2 := by
  intro override hmem
  rcases List.mem_append.mp hmem with hold | hnew
  · exact hloaded override (List.mem_of_mem_filter hold)
  · rw [List.mem_singleton.mp hnew]
    exact ⟨hclient, _, C.decode_encodeOverride record, Nat.not_lt.mp hfits⟩

end Launch

end Calls

end VaporForge.Local
