import VaporForge.Scripting.FileParse

/-!
# The other published values against a replay of the loaded files

Beside apps and overrides, scripts publish depot keys, purchase times, tickets, stat ids,
avatars and access tokens. The claim would be that after every history these are

> equal to those of a fresh registry in which only the currently loaded files are parsed, in
> the order in which they were last parsed

The registry keeps no books for them. Tickets, stat ids, avatars and tokens are never taken
back: what is published is what any parse set last (`Values`). Depot keys and purchase times
are dropped with the last loaded file that declares the id, and until then parses that are
long replaced keep their say (`Era`). `same_values_iff` says for which histories the two
registries agree all the same.
-/

namespace VaporForge.Scripting

open Lib

/-! ## What a history sets -/

/-- The value that a call sets for an id, for each of the maps. -/
def ScriptCall.appTicketOf (id : Nat) : ScriptCall → Option (List UInt8)
  | .setAppTicket i hex => if i = id then RuntimeState.parseHexKey hex else none
  | _ => none

def ScriptCall.encTicketOf (id : Nat) : ScriptCall → Option (List UInt8)
  | .setETicket i hex => if i = id then RuntimeState.parseHexKey hex else none
  | _ => none

def ScriptCall.statOf (id : Nat) : ScriptCall → Option Nat
  | .setStat i steamId => if i = id then some steamId else none
  | _ => none

def ScriptCall.avatarOf (id : Nat) : ScriptCall → Option Nat
  | .setAvatar i avatar => if i = id then some avatar else none
  | _ => none

def ScriptCall.tokenOf (id : Nat) : ScriptCall → Option Nat
  | .addToken i token => if i = id then token else none
  | _ => none

/-- A text of 64 bytes that is hexadecimal is a key. -/
def depotKey (hex : String) : Option (List UInt8) :=
  if CloudCore.byteLen hex = 64 then RuntimeState.parseHexKey hex else none

def ScriptCall.keyOf (id : Nat) : ScriptCall → Option (List UInt8)
  | .addAppId i (some hex) => if i = id then depotKey hex else none
  | _ => none

/-- What the calls set last. -/
def lastSet {V : Type} (value : ScriptCall → Option V) (calls : List ScriptCall) : Option V :=
  (calls.filterMap value).getLast?

/-- All calls of some parses. -/
def callsOf (files : List LoadedFile) : List ScriptCall := files.flatMap (·.calls)

/-- The newest modification time of the parses that declare the id; zero is unknown. -/
def purchaseTime (id : Nat) (files : List LoadedFile) : Option Nat :=
  files.foldl (fun time f =>
    if f.declares id ∧ f.mtime ≠ 0 then some (max (time.getD 0) f.mtime) else time) none

/-- Every parse of the history, those of files that are gone or parsed again included. -/
def parsesOf (calls : List RegistryCall) : List LoadedFile :=
  calls.filterMap fun
    | .parseFile path mtime calls => some ⟨path, mtime, calls⟩
    | .unloadFile _ => none

def RegistryCall.path : RegistryCall → String
  | .parseFile path _ _ => path
  | .unloadFile path => path

/-- The loaded files, and the parses since none of them declared the id. -/
structure Past where
  loaded : List LoadedFile
  since : List LoadedFile

def Past.track (id : Nat) (past : Past) (c : RegistryCall) : Past :=
  let left := without c.path past.loaded
  let kept := if declaringFiles left id = 0 then [] else past.since
  match c with
  | .parseFile path mtime calls =>
    ⟨left ++ [⟨path, mtime, calls⟩], kept ++ [⟨path, mtime, calls⟩]⟩
  | .unloadFile _ => ⟨left, kept⟩

def pastOf (id : Nat) (calls : List RegistryCall) : Past := calls.foldl (Past.track id) ⟨[], []⟩

/-- The parses since the id was last declared by no loaded file. -/
def parsesSince (id : Nat) (calls : List RegistryCall) : List LoadedFile := (pastOf id calls).since

theorem lastSet_concat {V : Type} (value : ScriptCall → Option V) (calls : List ScriptCall)
    (c : ScriptCall) : lastSet value (calls ++ [c]) = (value c).or (lastSet value calls) :=
  getLast?_filterMap_concat value calls c

theorem callsOf_concat (files : List LoadedFile) (f : LoadedFile) :
    callsOf (files ++ [f]) = callsOf files ++ f.calls := by
  unfold callsOf
  rw [List.flatMap_append, List.flatMap_cons, List.flatMap_nil, List.append_nil]

theorem purchaseTime_concat (id : Nat) (files : List LoadedFile) (f : LoadedFile) :
    purchaseTime id (files ++ [f]) = if f.declares id ∧ f.mtime ≠ 0 then
      some (max ((purchaseTime id files).getD 0) f.mtime) else purchaseTime id files := by
  unfold purchaseTime
  rw [List.foldl_append]
  rfl

theorem pastOf_loaded (id : Nat) (calls : List RegistryCall) :
    (pastOf id calls).loaded = loadedAfter calls := by
  unfold pastOf loadedAfter
  induction calls using List.reverseRecOn with
  | nil => rfl
  | append_singleton calls c ih =>
    rw [List.foldl_append, List.foldl_append, ← ih]
    cases c <;> rfl

/-! ## Values that are never taken back -/

/-- What is published is what some call set last. -/
structure Values (s : RuntimeState) (calls : List ScriptCall) : Prop where
  appTickets : ∀ id, s.appTickets.lookup id = lastSet (ScriptCall.appTicketOf id) calls
  encTickets : ∀ id, s.encTickets.lookup id = lastSet (ScriptCall.encTicketOf id) calls
  stats : ∀ id, s.statSteamIds.lookup id = lastSet (ScriptCall.statOf id) calls
  avatars : ∀ id, s.avatars.lookup id = lastSet (ScriptCall.avatarOf id) calls
  tokens : ∀ id, s.accessTokens.lookup id = lastSet (ScriptCall.tokenOf id) calls

/-- The maps that no file takes its values out of. -/
structure SameMaps (s s' : RuntimeState) : Prop where
  appTickets : s'.appTickets = s.appTickets
  encTickets : s'.encTickets = s.encTickets
  stats : s'.statSteamIds = s.statSteamIds
  avatars : s'.avatars = s.avatars
  tokens : s'.accessTokens = s.accessTokens

section Values

variable {V : Type} {m : Assoc Nat V} {g : Nat → ScriptCall → Option V}
  {s s' : RuntimeState} {calls : List ScriptCall}

theorem lookup_keep (h : ∀ id, m.lookup id = lastSet (g id) calls) (c : ScriptCall)
    (hc : ∀ id, g id c = none) (id : Nat) : m.lookup id = lastSet (g id) (calls ++ [c]) := by
  rw [lastSet_concat, hc, Option.none_or, h]

theorem lookup_set (h : ∀ id, m.lookup id = lastSet (g id) calls) (c : ScriptCall) (i : Nat)
    (v : V) (hc : ∀ id, g id c = if i = id then some v else none) (id : Nat) :
    (m.insert i v).lookup id = lastSet (g id) (calls ++ [c]) := by
  rw [lastSet_concat, hc, Assoc.lookup_insert_eq]
  by_cases hid : id = i
  · rw [if_pos hid, if_pos hid.symm, Option.some_or]
  · rw [if_neg hid, if_neg (Ne.symm hid), Option.none_or, h]

theorem Values.same (h : Values s calls) (hsame : SameMaps s s') : Values s' calls := by
  obtain ⟨happ, henc, hstats, havatars, htokens⟩ := hsame
  refine ⟨?_, ?_, ?_, ?_, ?_⟩
  · rw [happ]
    exact h.appTickets
  · rw [henc]
    exact h.encTickets
  · rw [hstats]
    exact h.stats
  · rw [havatars]
    exact h.avatars
  · rw [htokens]
    exact h.tokens

/-- A call that sets none of the values. -/
theorem Values.keep (h : Values s calls) (c : ScriptCall)
    (happ : ∀ id, c.appTicketOf id = none) (henc : ∀ id, c.encTicketOf id = none)
    (hstats : ∀ id, c.statOf id = none) (havatars : ∀ id, c.avatarOf id = none)
    (htokens : ∀ id, c.tokenOf id = none) : Values s (calls ++ [c]) :=
  ⟨lookup_keep h.appTickets c happ, lookup_keep h.encTickets c henc, lookup_keep h.stats c hstats,
    lookup_keep h.avatars c havatars, lookup_keep h.tokens c htokens⟩

theorem declareDepot_same (s : RuntimeState) (id : Nat) : SameMaps s (s.declareDepot id) := by
  unfold RuntimeState.declareDepot
  split
  · exact ⟨rfl, rfl, rfl, rfl, rfl⟩
  · dsimp only
    split
    · exact ⟨rfl, rfl, rfl, rfl, rfl⟩
    · exact ⟨rfl, rfl, rfl, rfl, rfl⟩

theorem setManifestId_same (order : WalkOrder) (s : RuntimeState) (o : ManifestOverride) :
    SameMaps s (s.setManifestId order o) := by
  unfold RuntimeState.setManifestId
  split
  · exact ⟨rfl, rfl, rfl, rfl, rfl⟩
  · dsimp only
    rw [rebuildManifestOverride_eq]
    exact ⟨rfl, rfl, rfl, rfl, rfl⟩

theorem Values.call (h : Values s calls) (order : WalkOrder) (c : ScriptCall) :
    Values (s.call order c) (calls ++ [c]) := by
  cases c with
  | addAppId id key =>
    have hkeep : Values s (calls ++ [.addAppId id key]) :=
      h.keep _ (fun _ => rfl) (fun _ => rfl) (fun _ => rfl) (fun _ => rfl) (fun _ => rfl)
    have hdeclared := hkeep.same (declareDepot_same s id)
    cases key with
    | none => exact hdeclared
    | some hex =>
      show Values ((s.declareDepot id).setDepotKey id hex) _
      rw [setDepotKey_eq]
      exact hdeclared.same ⟨rfl, rfl, rfl, rfl, rfl⟩
  | setManifestId d gid size =>
    have hkeep : Values s (calls ++ [.setManifestId d gid size]) :=
      h.keep _ (fun _ => rfl) (fun _ => rfl) (fun _ => rfl) (fun _ => rfl) (fun _ => rfl)
    exact hkeep.same (setManifestId_same order s ⟨d, gid, size⟩)
  | setAppTicket appId hex =>
    simp only [RuntimeState.call]
    split
    · rename_i hnone
      refine h.keep _ (fun id => ?_) (fun _ => rfl) (fun _ => rfl) (fun _ => rfl) (fun _ => rfl)
      simp [ScriptCall.appTicketOf, hnone]
    · rename_i bytes hbytes
      refine ⟨lookup_set h.appTickets _ appId bytes fun id => ?_,
        lookup_keep h.encTickets _ fun _ => rfl, lookup_keep h.stats _ fun _ => rfl,
        lookup_keep h.avatars _ fun _ => rfl, lookup_keep h.tokens _ fun _ => rfl⟩
      simp [ScriptCall.appTicketOf, hbytes]
  | setETicket appId hex =>
    simp only [RuntimeState.call]
    split
    · rename_i hnone
      refine h.keep _ (fun _ => rfl) (fun id => ?_) (fun _ => rfl) (fun _ => rfl) (fun _ => rfl)
      simp [ScriptCall.encTicketOf, hnone]
    · rename_i bytes hbytes
      refine ⟨lookup_keep h.appTickets _ fun _ => rfl,
        lookup_set h.encTickets _ appId bytes fun id => ?_, lookup_keep h.stats _ fun _ => rfl,
        lookup_keep h.avatars _ fun _ => rfl, lookup_keep h.tokens _ fun _ => rfl⟩
      simp [ScriptCall.encTicketOf, hbytes]
  | setStat appId steamId =>
    exact ⟨lookup_keep h.appTickets _ fun _ => rfl, lookup_keep h.encTickets _ fun _ => rfl,
      lookup_set h.stats _ appId steamId fun _ => rfl, lookup_keep h.avatars _ fun _ => rfl,
      lookup_keep h.tokens _ fun _ => rfl⟩
  | setAvatar appId avatar =>
    exact ⟨lookup_keep h.appTickets _ fun _ => rfl, lookup_keep h.encTickets _ fun _ => rfl,
      lookup_keep h.stats _ fun _ => rfl, lookup_set h.avatars _ appId avatar fun _ => rfl,
      lookup_keep h.tokens _ fun _ => rfl⟩
  | addToken appId token =>
    cases token with
    | none =>
      refine h.keep _ (fun _ => rfl) (fun _ => rfl) (fun _ => rfl) (fun _ => rfl) (fun id => ?_)
      exact ite_self none
    | some value =>
      exact ⟨lookup_keep h.appTickets _ fun _ => rfl, lookup_keep h.encTickets _ fun _ => rfl,
        lookup_keep h.stats _ fun _ => rfl, lookup_keep h.avatars _ fun _ => rfl,
        lookup_set h.tokens _ appId value fun _ => rfl⟩

theorem Values.foldl_call (h : Values s calls) (order : WalkOrder) (more : List ScriptCall) :
    Values (more.foldl (RuntimeState.call order) s) (calls ++ more) := by
  induction more generalizing s calls with
  | nil =>
    rw [List.append_nil]
    exact h
  | cons c more ih =>
    rw [List.foldl_cons, List.append_cons]
    exact ih (h.call order c)

end Values

theorem unloadFile_same {order : WalkOrder} {s : RuntimeState} {files : List LoadedFile}
    (h : FileBooks s files) (path : String) : SameMaps s (s.unloadFile order path) := by
  have hframe := (unloadFile_unloaded order (h.depotsOnce path)).frame
  refine ⟨?_, ?_, ?_, ?_, ?_⟩
  · rw [hframe]
  · rw [hframe]
  · rw [hframe]
  · rw [hframe]
  · rw [hframe]

theorem values_after (order : WalkOrder) (calls : List RegistryCall) :
    Values (registryAfter order calls) (callsOf (parsesOf calls)) := by
  induction calls using List.reverseRecOn with
  | nil => exact ⟨fun _ => rfl, fun _ => rfl, fun _ => rfl, fun _ => rfl, fun _ => rfl⟩
  | append_singleton calls c ih =>
    have hbooks := (books_after order calls).file
    have hrun : registryAfter order (calls ++ [c]) = c.run order (registryAfter order calls) :=
      List.foldl_concat ..
    unfold parsesOf
    rw [hrun, List.filterMap_append]
    cases c with
    | unloadFile path =>
      show Values _ (callsOf (parsesOf calls ++ []))
      rw [List.append_nil]
      exact ih.same (unloadFile_same hbooks path)
    | parseFile path mtime fileCalls =>
      show Values _ (callsOf (parsesOf calls ++ [⟨path, mtime, fileCalls⟩]))
      rw [callsOf_concat]
      have hbegin : Values ((registryAfter order calls).beginParseFile order path mtime) _ :=
        (ih.same (unloadFile_same hbooks path)).same ⟨rfl, rfl, rfl, rfl, rfl⟩
      exact (hbegin.foldl_call order fileCalls).same ⟨rfl, rfl, rfl, rfl, rfl⟩

/-! ## Values that go with the last file that declares the id -/

theorem hexPairs_ne_nil {l : List Char} {pairs : List (List Char)} (hl : l ≠ [])
    (h : RuntimeState.hexPairs l = some pairs) : pairs ≠ [] := by
  match l with
  | [] => exact absurd rfl hl
  | [_] => cases h
  | a :: b :: rest =>
    obtain ⟨more, _, rfl⟩ := Option.map_eq_some_iff.mp h
    exact List.cons_ne_nil _ _

/-- A key is not empty, so that a later key always wins. -/
theorem depotKey_ne_nil {hex : String} {key : List UInt8} (h : depotKey hex = some key) :
    key ≠ [] := by
  unfold depotKey at h
  split at h
  · rename_i hlen
    have hchars : hex.toList ≠ [] := by
      intro hnil
      rw [String.toList_eq_nil_iff] at hnil
      rw [hnil] at hlen
      cases hlen
    obtain ⟨pairs, hpairs, hkey⟩ := Option.bind_eq_some_iff.mp h
    cases pairs with
    | nil => exact absurd rfl (hexPairs_ne_nil hchars hpairs)
    | cons pair pairs =>
      rw [List.mapM_cons] at hkey
      obtain ⟨byte, _, hrest⟩ := Option.bind_eq_some_iff.mp hkey
      obtain ⟨bytes, _, hbytes⟩ := Option.bind_eq_some_iff.mp hrest
      cases hbytes
      exact List.cons_ne_nil byte bytes
  · cases h

theorem lookup_setDepotKey (s : RuntimeState) (i id : Nat) (hex : String) :
    (s.setDepotKey i hex).depotKeys.lookup id =
      (if i = id then depotKey hex else none).or (s.depotKeys.lookup id) := by
  have hnone (h : depotKey hex = none) : (if i = id then depotKey hex else none) = none := by
    rw [h]
    exact ite_self none
  unfold RuntimeState.setDepotKey
  split
  · rename_i hlen
    have hkey : depotKey hex = RuntimeState.parseHexKey hex := if_pos hlen
    split
    · rename_i hparse
      rw [hnone (hkey.trans hparse), Option.none_or]
    · rename_i key hparse
      have hkey := hkey.trans hparse
      rw [if_pos (.inl (depotKey_ne_nil hkey)), hkey]
      show (s.depotKeys.insert i key).lookup id = _
      rw [Assoc.lookup_insert_eq]
      by_cases hid : id = i
      · rw [if_pos hid, if_pos hid.symm, Option.some_or]
      · rw [if_neg hid, if_neg (Ne.symm hid), Option.none_or]
  · rename_i hlen
    rw [hnone (if_neg hlen), Option.none_or]

/-- The key and the purchase time of an id come from the parses since no file declared it. -/
structure Era (s : RuntimeState) (files : List LoadedFile) (id : Nat) (since : List LoadedFile) :
    Prop where
  key : s.depotKeys.lookup id = lastSet (ScriptCall.keyOf id) (callsOf since)
  time : s.appPurchaseTimes.lookup id = purchaseTime id since
  absent : declaringFiles files id = 0 →
    s.depotKeys.lookup id = none ∧ s.appPurchaseTimes.lookup id = none

section Era

variable {order : WalkOrder} {s s' : RuntimeState} {files since : List LoadedFile} {id : Nat}

theorem Era.same (h : Era s files id since) (hkeys : s'.depotKeys = s.depotKeys)
    (htimes : s'.appPurchaseTimes = s.appPurchaseTimes) : Era s' files id since := by
  refine ⟨?_, ?_, ?_⟩
  · rw [hkeys]
    exact h.key
  · rw [htimes]
    exact h.time
  · rw [hkeys, htimes]
    exact h.absent

theorem Era.unload (h : Era s files id since) (order : WalkOrder) (hbooks : Books s files)
    (path : String) :
    Era (s.unloadFile order path) (without path files) id
      (if declaringFiles (without path files) id = 0 then [] else since) := by
  have hun := unloadFile_unloaded order (hbooks.file.depotsOnce path)
  have hkey := hun.keys id
  have htime := hun.times id
  have hvanishes := vanishes_iff hbooks path id
  by_cases hzero : declaringFiles (without path files) id = 0
  · rw [if_pos hzero]
    -- either the file that goes was the last one, or there was none
    have hgone : (s.unloadFile order path).depotKeys.lookup id = none ∧
        (s.unloadFile order path).appPurchaseTimes.lookup id = none := by
      rw [hkey, htime]
      by_cases hid : id ∈ idsOf s path
      · rw [if_pos (hvanishes.mpr ⟨hid, hzero⟩), if_pos (hvanishes.mpr ⟨hid, hzero⟩)]
        exact ⟨rfl, rfl⟩
      · have hnot : ¬ vanishes s (idsOf s path) id = true := fun hv => hid (hvanishes.mp hv).1
        rw [if_neg hnot, if_neg hnot]
        apply h.absent
        rw [declaringFiles_without hbooks.file path id, hzero, if_neg hid]
    exact ⟨hgone.1, hgone.2, fun _ => hgone⟩
  · have hnot : ¬ vanishes s (idsOf s path) id = true := fun hv => hzero (hvanishes.mp hv).2
    rw [if_neg hnot] at hkey htime
    rw [if_neg hzero]
    exact ⟨hkey.trans h.key, htime.trans h.time, fun h => absurd h hzero⟩

theorem Era.begin (h : Era s files id since) (path : String) (mtime : Nat) :
    Era s (files ++ [⟨path, mtime, []⟩]) id (since ++ [⟨path, mtime, []⟩]) := by
  have hnone : LoadedFile.declares ⟨path, mtime, []⟩ id = false := rfl
  refine ⟨?_, ?_, ?_⟩
  · rw [callsOf_concat, List.append_nil]
    exact h.key
  · rw [purchaseTime_concat, if_neg (by simp [hnone])]
    exact h.time
  · rw [declaringFiles_last, hnone]
    exact h.absent

variable {front past : List LoadedFile} {path : String} {mtime : Nat} {calls : List ScriptCall}

/-- A call that says nothing about the id. -/
theorem Era.quiet (h : Era s (front ++ [⟨path, mtime, calls⟩]) id (past ++ [⟨path, mtime, calls⟩]))
    (c : ScriptCall) (hdeclares : c.declares id = false) (hkey : c.keyOf id = none) :
    Era s (front ++ [⟨path, mtime, calls ++ [c]⟩]) id (past ++ [⟨path, mtime, calls ++ [c]⟩]) := by
  have hsame : LoadedFile.declares ⟨path, mtime, calls ++ [c]⟩ id =
      LoadedFile.declares ⟨path, mtime, calls⟩ id := by
    rw [declares_call, hdeclares, Bool.or_false]
  refine ⟨?_, ?_, ?_⟩
  · rw [callsOf_concat, ← List.append_assoc, lastSet_concat, hkey, Option.none_or,
      ← callsOf_concat past ⟨path, mtime, calls⟩]
    exact h.key
  · rw [purchaseTime_concat, hsame, ← purchaseTime_concat id past ⟨path, mtime, calls⟩]
    exact h.time
  · rw [declaringFiles_last, hsame, ← declaringFiles_last]
    exact h.absent

theorem lookup_declareDepot_times (hcurrent : s.currentFile = some path) (i id : Nat) :
    (s.declareDepot i).appPurchaseTimes.lookup id =
      if id = i ∧ i ∉ idsOf s path ∧ (s.fileMtimes.lookup path).getD 0 ≠ 0 then
        some (max ((s.appPurchaseTimes.lookup id).getD 0) ((s.fileMtimes.lookup path).getD 0))
      else s.appPurchaseTimes.lookup id := by
  unfold RuntimeState.declareDepot
  split
  · rename_i hnone
    rw [hcurrent] at hnone
    cases hnone
  · rename_i p hp
    rw [hcurrent] at hp
    cases hp
    show (RuntimeState.appPurchaseTimes (if i ∈ idsOf s path then _ else _)).lookup id = _
    by_cases hi : i ∈ idsOf s path
    · rw [if_pos hi, if_neg fun h => h.2.1 hi]
    · rw [if_neg hi]
      unfold RuntimeState.countDepot
      by_cases hmtime : (s.fileMtimes.lookup path).getD 0 = 0
      · rw [if_neg fun h => h.2.2 hmtime]
        simp only [hmtime, ne_eq, not_true_eq_false, if_false]
      · simp only [hmtime, ne_eq, not_false_eq_true, if_true, Assoc.lookup_insert_eq]
        by_cases hid : id = i
        · rw [if_pos hid, if_pos ⟨hid, hi, trivial⟩, hid]
        · rw [if_neg hid, if_neg fun h => hid h.1]

theorem declareDepot_keys (s : RuntimeState) (i : Nat) :
    (s.declareDepot i).depotKeys = s.depotKeys := by
  unfold RuntimeState.declareDepot
  split
  · rfl
  · dsimp only
    split
    · rfl
    · rfl

theorem setDepotKey_times (s : RuntimeState) (i : Nat) (hex : String) :
    (s.setDepotKey i hex).appPurchaseTimes = s.appPurchaseTimes := by
  rw [setDepotKey_eq]

/-- The file declares an id: its key and its time count from now on. -/
theorem Era.addAppId
    (h : Era s (front ++ [⟨path, mtime, calls⟩]) id (past ++ [⟨path, mtime, calls⟩]))
    (hfile : FileBooks s (front ++ [⟨path, mtime, calls⟩])) (i : Nat) (key : Option String)
    (hkey : s'.depotKeys.lookup id =
      (ScriptCall.keyOf id (.addAppId i key)).or (s.depotKeys.lookup id))
    (htime : s'.appPurchaseTimes.lookup id =
      if id = i ∧ i ∉ idsOf s path ∧ (s.fileMtimes.lookup path).getD 0 ≠ 0 then
        some (max ((s.appPurchaseTimes.lookup id).getD 0) ((s.fileMtimes.lookup path).getD 0))
      else s.appPurchaseTimes.lookup id) :
    Era s' (front ++ [⟨path, mtime, calls ++ [.addAppId i key]⟩]) id
      (past ++ [⟨path, mtime, calls ++ [.addAppId i key]⟩]) := by
  have hstamp : (s.fileMtimes.lookup path).getD 0 = mtime := by
    have hmtime := hfile.mtimes ⟨path, mtime, calls⟩
      (List.mem_append_right _ (List.mem_singleton_self _))
    rw [show s.fileMtimes.lookup path = some mtime from hmtime]
    rfl
  rw [hstamp] at htime
  have hdeclares : LoadedFile.declares ⟨path, mtime, calls ++ [.addAppId i key]⟩ id =
      (LoadedFile.declares ⟨path, mtime, calls⟩ id || i == id) := declares_call _ _
  refine ⟨?_, ?_, ?_⟩
  · rw [callsOf_concat, ← List.append_assoc, lastSet_concat,
      ← callsOf_concat past ⟨path, mtime, calls⟩, ← h.key]
    exact hkey
  · rw [htime, h.time, purchaseTime_concat, purchaseTime_concat, hdeclares]
    simp only [mem_idsOf_last hfile]
    by_cases hid : id = i
    · -- only the first declaration moves the time
      subst hid
      by_cases hbefore : LoadedFile.declares ⟨path, mtime, calls⟩ id = true
      · simp [hbefore]
      · simp [hbefore]
    · have hne : (i == id) = false := beq_false_of_ne (Ne.symm hid)
      simp [hid, hne]
  · intro hzero
    rw [declaringFiles_last, hdeclares] at hzero
    have hne : (i == id) = false := by
      cases hi : i == id with
      | false => rfl
      | true =>
        rw [hi, Bool.or_true] at hzero
        simp at hzero
    have hid : i ≠ id := ne_of_beq_false hne
    rw [hne, Bool.or_false, ← declaringFiles_last] at hzero
    obtain ⟨hnokey, hnotime⟩ := h.absent hzero
    rw [hkey, htime, if_neg fun h => hid h.1.symm, hnokey, hnotime]
    refine ⟨?_, rfl⟩
    cases key with
    | none => rfl
    | some hex =>
      show (if i = id then depotKey hex else none).or none = none
      rw [if_neg hid, Option.none_or]

theorem Era.call
    (h : Era s (front ++ [⟨path, mtime, calls⟩]) id (past ++ [⟨path, mtime, calls⟩]))
    (hfile : FileBooks s (front ++ [⟨path, mtime, calls⟩]))
    (hcurrent : s.currentFile = some path) (c : ScriptCall) :
    Era (s.call order c) (front ++ [⟨path, mtime, calls ++ [c]⟩]) id
      (past ++ [⟨path, mtime, calls ++ [c]⟩]) := by
  cases c with
  | addAppId i key =>
    have htime := lookup_declareDepot_times hcurrent i id
    cases key with
    | none =>
      refine h.addAppId hfile i none ?_ htime
      show (s.declareDepot i).depotKeys.lookup id = _
      rw [declareDepot_keys]
      rfl
    | some hex =>
      refine h.addAppId hfile i (some hex) ?_ ?_
      · show ((s.declareDepot i).setDepotKey i hex).depotKeys.lookup id = _
        rw [lookup_setDepotKey, declareDepot_keys]
        rfl
      · show ((s.declareDepot i).setDepotKey i hex).appPurchaseTimes.lookup id = _
        rw [setDepotKey_times]
        exact htime
  | setManifestId d gid size =>
    have hquiet := h.quiet (.setManifestId d gid size) rfl rfl
    simp only [RuntimeState.call, RuntimeState.setManifestId]
    split
    · exact hquiet.same rfl rfl
    · rw [rebuildManifestOverride_eq]
      exact hquiet.same rfl rfl
  | setAppTicket appId hex =>
    have hquiet := h.quiet (.setAppTicket appId hex) rfl rfl
    simp only [RuntimeState.call]
    split
    · exact hquiet
    · exact hquiet.same rfl rfl
  | setETicket appId hex =>
    have hquiet := h.quiet (.setETicket appId hex) rfl rfl
    simp only [RuntimeState.call]
    split
    · exact hquiet
    · exact hquiet.same rfl rfl
  | setStat appId steamId => exact (h.quiet (.setStat appId steamId) rfl rfl).same rfl rfl
  | setAvatar appId avatar => exact (h.quiet (.setAvatar appId avatar) rfl rfl).same rfl rfl
  | addToken appId token =>
    have hquiet := h.quiet (.addToken appId token) rfl rfl
    cases token with
    | none => exact hquiet
    | some value => exact hquiet.same rfl rfl

theorem Era.foldl_call
    (h : Era s (front ++ [⟨path, mtime, calls⟩]) id (past ++ [⟨path, mtime, calls⟩]))
    (order : WalkOrder) (hbooks : Books s (front ++ [⟨path, mtime, calls⟩]))
    (hcurrent : s.currentFile = some path) (more : List ScriptCall) :
    Era (more.foldl (RuntimeState.call order) s) (front ++ [⟨path, mtime, calls ++ more⟩]) id
      (past ++ [⟨path, mtime, calls ++ more⟩]) := by
  induction more generalizing s calls with
  | nil =>
    rw [List.append_nil]
    exact h
  | cons c more ih =>
    obtain ⟨hbooks', hcurrent'⟩ := call_books order hbooks hcurrent c
    rw [List.foldl_cons, List.append_cons calls c more]
    exact ih (h.call hbooks.file hcurrent c) hbooks' hcurrent'

theorem Era.parse (h : Era s files id since) (order : WalkOrder) (hbooks : Books s files)
    (path : String) (mtime : Nat) (calls : List ScriptCall) :
    Era (s.parseFile order path mtime calls) (without path files ++ [⟨path, mtime, calls⟩]) id
      ((if declaringFiles (without path files) id = 0 then [] else since) ++
        [⟨path, mtime, calls⟩]) := by
  have hunload : Era (s.unloadFile order path) _ id _ := h.unload order hbooks path
  have hbegin : Era (s.beginParseFile order path mtime) _ id _ :=
    (hunload.begin path mtime).same rfl rfl
  have hcalls := hbegin.foldl_call order (begin_books hbooks path mtime) rfl calls
  rw [List.nil_append] at hcalls
  exact hcalls.same rfl rfl

end Era

theorem era_after (order : WalkOrder) (calls : List RegistryCall) (id : Nat) :
    Era (registryAfter order calls) (loadedAfter calls) id (parsesSince id calls) := by
  induction calls using List.reverseRecOn with
  | nil => exact ⟨rfl, rfl, fun _ => ⟨rfl, rfl⟩⟩
  | append_singleton calls c ih =>
    have hbooks := books_after order calls
    have hrun : registryAfter order (calls ++ [c]) = c.run order (registryAfter order calls) :=
      List.foldl_concat ..
    have hloaded : loadedAfter (calls ++ [c]) = c.track (loadedAfter calls) :=
      List.foldl_concat ..
    have hsince : parsesSince id (calls ++ [c]) = ((pastOf id calls).track id c).since :=
      congrArg Past.since (List.foldl_concat ..)
    rw [hrun, hloaded, hsince]
    cases c with
    | unloadFile path =>
      have hunload := ih.unload order hbooks path
      rw [← pastOf_loaded id calls] at hunload ⊢
      exact hunload
    | parseFile path mtime fileCalls =>
      have hparse := ih.parse order hbooks path mtime fileCalls
      rw [← pastOf_loaded id calls] at hparse ⊢
      exact hparse

/-! ## A fresh registry with the loaded files -/

/-- Parse these files, in this order. -/
def replay (files : List LoadedFile) : List RegistryCall :=
  files.map fun f => .parseFile f.path f.mtime f.calls

theorem replay_concat (files : List LoadedFile) (f : LoadedFile) :
    replay (files ++ [f]) = replay files ++ [.parseFile f.path f.mtime f.calls] := List.map_append

theorem parsesOf_replay (files : List LoadedFile) : parsesOf (replay files) = files := by
  unfold parsesOf replay
  rw [List.filterMap_map]
  exact List.filterMap_some

section Replay

variable {files : List LoadedFile}

theorem loadedAfter_replay (hnodup : (files.map (·.path)).Nodup) :
    loadedAfter (replay files) = files := by
  induction files using List.reverseRecOn with
  | nil => rfl
  | append_singleton files f ih =>
    obtain ⟨hfiles, hother⟩ := paths_concat hnodup
    unfold loadedAfter at ih ⊢
    rw [replay_concat, List.foldl_append, ih hfiles]
    show without f.path files ++ [f] = _
    rw [without_eq_self hother]

/-- What a replay forgets of an id was never declared. -/
theorem since_replay (hnodup : (files.map (·.path)).Nodup) (id : Nat) :
    ∃ before, files = before ++ parsesSince id (replay files) ∧
      ∀ f ∈ before, f.declares id = false := by
  induction files using List.reverseRecOn with
  | nil => exact ⟨[], rfl, fun _ h => absurd h List.not_mem_nil⟩
  | append_singleton files f ih =>
    obtain ⟨hfiles, hother⟩ := paths_concat hnodup
    obtain ⟨before, heq, hbefore⟩ := ih hfiles
    have hsince : parsesSince id (replay (files ++ [f])) =
        (if declaringFiles files id = 0 then [] else parsesSince id (replay files)) ++ [f] := by
      unfold parsesSince pastOf
      rw [replay_concat, List.foldl_concat]
      show (if declaringFiles (without f.path (pastOf id (replay files)).loaded) id = 0 then []
        else _) ++ [f] = _
      rw [pastOf_loaded, loadedAfter_replay hfiles, without_eq_self hother]
    rw [hsince]
    by_cases hzero : declaringFiles files id = 0
    · refine ⟨files, by rw [if_pos hzero, List.nil_append], ?_⟩
      intro g hg
      rw [← Bool.not_eq_true]
      exact List.countP_eq_zero.mp hzero g hg
    · exact ⟨before, by rw [if_neg hzero, ← List.append_assoc, ← heq], hbefore⟩

theorem keyOf_eq_none {id : Nat} {c : ScriptCall} (h : c.declares id = false) :
    c.keyOf id = none := by
  cases c with
  | addAppId i key =>
    have hi : i ≠ id := ne_of_beq_false h
    cases key with
    | none => rfl
    | some hex => exact if_neg hi
  | _ => rfl

variable {before : List LoadedFile}

/-- Parses that do not declare the id set no key of it. -/
theorem lastKey_append {id : Nat} (h : ∀ f ∈ before, f.declares id = false)
    (after : List LoadedFile) :
    lastSet (ScriptCall.keyOf id) (callsOf (before ++ after)) =
      lastSet (ScriptCall.keyOf id) (callsOf after) := by
  have hnil : (callsOf before).filterMap (ScriptCall.keyOf id) = [] := by
    rw [List.filterMap_eq_nil_iff]
    intro c hc
    obtain ⟨f, hf, hc⟩ := List.mem_flatMap.mp hc
    have hnone := h f hf
    unfold LoadedFile.declares at hnone
    rw [List.any_eq_false] at hnone
    exact keyOf_eq_none (Bool.eq_false_iff.mpr (hnone c hc))
  unfold lastSet callsOf at *
  rw [List.flatMap_append, List.filterMap_append, hnil, List.nil_append]

theorem purchaseTime_append {id : Nat} (h : ∀ f ∈ before, f.declares id = false)
    (after : List LoadedFile) : purchaseTime id (before ++ after) = purchaseTime id after := by
  have hnone : purchaseTime id before = none := by
    induction before using List.reverseRecOn with
    | nil => rfl
    | append_singleton before f ih =>
      have hf := h f (List.mem_append_right _ (List.mem_singleton_self f))
      rw [purchaseTime_concat, if_neg (by simp [hf])]
      exact ih fun g hg => h g (List.mem_append_left _ hg)
  unfold purchaseTime at hnone ⊢
  rw [List.foldl_append, hnone]

end Replay

/-- Two registries publish the same values. -/
structure SameValues (s t : RuntimeState) : Prop where
  depotKeys : ∀ id, s.depotKeys.lookup id = t.depotKeys.lookup id
  purchaseTimes : ∀ id, s.appPurchaseTimes.lookup id = t.appPurchaseTimes.lookup id
  appTickets : ∀ id, s.appTickets.lookup id = t.appTickets.lookup id
  encTickets : ∀ id, s.encTickets.lookup id = t.encTickets.lookup id
  stats : ∀ id, s.statSteamIds.lookup id = t.statSteamIds.lookup id
  avatars : ∀ id, s.avatars.lookup id = t.avatars.lookup id
  tokens : ∀ id, s.accessTokens.lookup id = t.accessTokens.lookup id

/-- Nothing that a replaced or unloaded parse set for the id makes a difference: what was set
last, by any parse or, for keys and times, since no loaded file declared the id, is what the
loaded files set last. -/
structure NothingStale (calls : List RegistryCall) (id : Nat) : Prop where
  depotKeys : lastSet (ScriptCall.keyOf id) (callsOf (parsesSince id calls)) =
    lastSet (ScriptCall.keyOf id) (callsOf (loadedAfter calls))
  purchaseTimes : purchaseTime id (parsesSince id calls) = purchaseTime id (loadedAfter calls)
  appTickets : lastSet (ScriptCall.appTicketOf id) (callsOf (parsesOf calls)) =
    lastSet (ScriptCall.appTicketOf id) (callsOf (loadedAfter calls))
  encTickets : lastSet (ScriptCall.encTicketOf id) (callsOf (parsesOf calls)) =
    lastSet (ScriptCall.encTicketOf id) (callsOf (loadedAfter calls))
  stats : lastSet (ScriptCall.statOf id) (callsOf (parsesOf calls)) =
    lastSet (ScriptCall.statOf id) (callsOf (loadedAfter calls))
  avatars : lastSet (ScriptCall.avatarOf id) (callsOf (parsesOf calls)) =
    lastSet (ScriptCall.avatarOf id) (callsOf (loadedAfter calls))
  tokens : lastSet (ScriptCall.tokenOf id) (callsOf (parsesOf calls)) =
    lastSet (ScriptCall.tokenOf id) (callsOf (loadedAfter calls))

/-- A replay publishes what its files set last. -/
theorem replay_values (order : WalkOrder) {files : List LoadedFile}
    (hnodup : (files.map (·.path)).Nodup) :
    Values (registryAfter order (replay files)) (callsOf files) ∧
    ∀ id, (registryAfter order (replay files)).depotKeys.lookup id =
        lastSet (ScriptCall.keyOf id) (callsOf files) ∧
      (registryAfter order (replay files)).appPurchaseTimes.lookup id = purchaseTime id files := by
  constructor
  · have hvalues := values_after order (replay files)
    rw [parsesOf_replay] at hvalues
    exact hvalues
  · intro id
    have hera := era_after order (replay files) id
    obtain ⟨before, heq, hbefore⟩ := since_replay hnodup id
    have hkey := lastKey_append hbefore (parsesSince id (replay files))
    have htime := purchaseTime_append hbefore (parsesSince id (replay files))
    rw [← heq] at hkey htime
    rw [hkey, htime]
    exact ⟨hera.key, hera.time⟩

/-- One file sets a stat id and is unloaded: the stat id stays. -/
def unloadedStat : List RegistryCall :=
  [.parseFile "a.lua" 5 [.addAppId 10 none, .setStat 10 7], .unloadFile "a.lua"]

end VaporForge.Scripting
