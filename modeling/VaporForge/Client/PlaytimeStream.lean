import Mathlib.Data.List.Induction
import VaporForge.Client.PlaytimeOverlay

/-!
# Playtime notifications are a complete difference

`apply_stream_snapshot` keeps the last snapshot of the backend and tells Steam about the
games that changed. A snapshot replaces the cache as a whole, and so does a new runtime key.
What Steam holds is then never written down in one place:

> a reader that replays all notifications since the cached key became the cached key holds
> the values of the last accepted snapshot

`Complete` says this of a cache and the notifications since; it mentions only games that the
cache has, so that a game that vanishes drops out of it and one that comes back is sent.
The message is the record before it is encoded.
-/

namespace VaporForge.Client

open VaporForge.CloudCore
open Lib

/-! ## The cache -/

structure RuntimeKey where
  credentialFingerprint : String
  steamId64 : Nat
  identityGeneration : Nat
  clientId : Nat
  runtimeGeneration : Nat
  deriving DecidableEq, Repr

structure PlaytimeCache where
  key : Option RuntimeKey
  revision : Nat
  games : KnownPlaytime

/-- `PlaytimeCache::default`. -/
def PlaytimeCache.default : PlaytimeCache := ⟨none, 0, .empty⟩

/-- The fields of the snapshot that are read. -/
structure AccountPlaytimeSnapshot where
  playtimeRevision : Nat
  playtime : List PlaytimeEntry
  deriving DecidableEq, Repr

/-- `PlayerLastPlayedTimesNotification`, with the account of its header. -/
structure PlaytimeNotification where
  steamId64 : Nat
  games : List PlayerLastPlayedGame
  deriving DecidableEq

abbrev GamesOrder := Arrangement ((_ : Nat) × CachedPlaytime)

/-- The condition under which `store_backend_playtime` returns `None`. -/
def PlaytimeCache.outdates (cache : PlaytimeCache) (key : RuntimeKey) (revision : Nat) : Prop :=
  cache.key = some key ∧ revision ≠ 0 ∧ cache.revision ≠ 0 ∧ revision ≤ cache.revision

instance (cache : PlaytimeCache) (key : RuntimeKey) (revision : Nat) :
    Decidable (cache.outdates key revision) := by
  unfold PlaytimeCache.outdates
  infer_instance

def changedGames (order : GamesOrder) (cache : PlaytimeCache) (key : RuntimeKey)
    (games : KnownPlaytime) : List CachedPlaytime :=
  let values := (order.arrange games.games.entries).map Sigma.snd
  if cache.key = some key then
    values.filter fun entry => cache.games.games.lookup entry.appId ≠ some entry
  else values

def storeBackendPlaytime (order : GamesOrder) (cache : PlaytimeCache) (key : RuntimeKey)
    (revision : Nat) (entries : List PlaytimeEntry) :
    PlaytimeCache × Option (List CachedPlaytime) :=
  let games := playtimeGames entries
  if cache.outdates key revision then (cache, none)
  else (⟨some key, revision, games⟩, some (changedGames order cache key games))

def buildNotificationPacket (steamId64 : Nat) (games : List PlayerLastPlayedGame) :
    Option PlaytimeNotification :=
  if steamId64 = 0 ∨ games = [] then none else some ⟨steamId64, games⟩

def sentGames (S : AppsState) (changed : List CachedPlaytime) : List PlayerLastPlayedGame :=
  (changed.filter fun entry => requiresBackendPlaytime S entry.appId).filterMap steamGame

def applyStreamSnapshot (S : AppsState) (order : GamesOrder) (cache : PlaytimeCache)
    (key : RuntimeKey) (snapshot : AccountPlaytimeSnapshot) :
    PlaytimeCache × Option PlaytimeNotification :=
  match storeBackendPlaytime order cache key snapshot.playtimeRevision snapshot.playtime with
  | (cache, none) => (cache, none)
  | (cache, some changed) =>
    let games := sentGames S changed
    (cache, if games = [] then none else buildNotificationPacket key.steamId64 games)

/-! ## A reader -/

/-- The cache, and the notifications since its key became its key. -/
structure Downlink where
  cache : PlaytimeCache
  since : List PlaytimeNotification

def Downlink.apply (S : AppsState) (order : GamesOrder) (d : Downlink)
    (e : RuntimeKey × AccountPlaytimeSnapshot) : Downlink :=
  let (cache, notification) := applyStreamSnapshot S order d.cache e.1 e.2
  ⟨cache, if cache.key = d.cache.key then d.since ++ notification.toList
    else notification.toList⟩

/-- The downlink after some snapshots, from an empty cache. -/
def downlinkAfter (S : AppsState) (order : GamesOrder)
    (snapshots : List (RuntimeKey × AccountPlaytimeSnapshot)) : Downlink :=
  snapshots.foldl (Downlink.apply S order) ⟨.default, []⟩

/-- The last game that some games have for an app. -/
def lastGame (games : List PlayerLastPlayedGame) (app : Nat) : Option PlayerLastPlayedGame :=
  (games.filter fun g => gameApp g = some app).getLast?

/-- What a reader of the notifications holds: later values replace earlier ones. -/
def heldGame (notifications : List PlaytimeNotification) (app : Nat) :
    Option PlayerLastPlayedGame :=
  lastGame (notifications.flatMap (·.games)) app

/-- An entry of an app, with a last-played time that is not negative. -/
def isEntryFor (app : Nat) (e : PlaytimeEntry) : Bool :=
  e.appId = app && !e.lastPlayedAt.any (· < 0)

def lastEntry (entries : List PlaytimeEntry) (app : Nat) : Option PlaytimeEntry :=
  (entries.filter (isEntryFor app)).getLast?

/-- A game shows an entry: minutes as far as the message goes, the time if it fits. -/
structure Shows (g : PlayerLastPlayedGame) (e : PlaytimeEntry) : Prop where
  app : gameApp g = some e.appId
  forever : g.playtimeForever.map Int32.toInt = some (min e.playtimeMinutes i32Max : Nat)
  twoWeeks : g.playtime2weeks.map Int32.toInt = some (min e.playtime2weeksMinutes i32Max : Nat)
  lastPlayed : g.lastPlaytime.map UInt32.toNat =
    (e.lastPlayedAt.map Int.toNat).filter (· ≤ 4294967295)

/-! ## Entries and games -/

variable {app : Nat} {g : PlayerLastPlayedGame}

/-- The last entry of an app is the one in the map. -/
theorem lookup_playtimeGames (entries : List PlaytimeEntry) (happ : app ≠ 0) :
    (playtimeGames entries).games.lookup app = (lastEntry entries app).map fun e =>
      ⟨app, e.playtimeMinutes, e.playtime2weeksMinutes, e.lastPlayedAt⟩ := by
  induction entries using List.reverseRecOn with
  | nil => rfl
  | append_singleton entries e ih =>
    have hlast : lastEntry (entries ++ [e]) app =
        if isEntryFor app e then some e else lastEntry entries app := by
      unfold lastEntry
      rw [List.filter_append]
      by_cases he : isEntryFor app e = true
      · rw [List.filter_cons_of_pos he, List.filter_nil, List.getLast?_concat, if_pos he]
      · rw [List.filter_cons_of_neg he, List.filter_nil, List.append_nil, if_neg he]
    have hgames : playtimeGames (entries ++ [e]) = (playtimeGames entries).collect e :=
      List.foldl_concat ..
    rw [hgames, hlast]
    unfold KnownPlaytime.collect
    split
    · rename_i hnone
      have he : ¬ isEntryFor app e = true := by
        intro he
        obtain ⟨hid, htime⟩ := Bool.and_eq_true_iff.mp he
        unfold cachedEntry at hnone
        rw [if_neg] at hnone
        · cases hnone
        · rw [of_decide_eq_true hid]
          simpa [happ] using htime
      rw [if_neg he, ih]
    · rename_i cached hcached
      show ((playtimeGames entries).games.insert cached.appId cached).lookup app = _
      unfold cachedEntry at hcached
      split at hcached
      · cases hcached
      · rename_i hvalid
        cases hcached
        rw [Assoc.lookup_insert_eq]
        by_cases hid : app = e.appId
        · have he : isEntryFor app e = true := by
            simp only [not_or, Bool.not_eq_true] at hvalid
            simp [isEntryFor, hid, hvalid.2]
          rw [if_pos hid, if_pos he, hid]
          rfl
        · have he : ¬ isEntryFor app e = true := by
            simp [isEntryFor, Ne.symm hid]
          rw [if_neg hid, if_neg he, ih]

theorem lastGame_append (games more : List PlayerLastPlayedGame) (app : Nat) :
    lastGame (games ++ more) app = (lastGame more app).or (lastGame games app) := by
  unfold lastGame
  rw [List.filter_append, List.getLast?_append]

theorem toInt_saturatingI32 (value : Nat) :
    (saturatingI32 value).toInt = (min value i32Max : Nat) := by
  unfold saturatingI32
  refine Int32.toInt_ofNat_of_lt ?_
  have hle : min value i32Max ≤ i32Max := Nat.min_le_right _ _
  unfold i32Max at hle ⊢
  omega

theorem u32OfTime_toNat (value : Int) (h : 0 ≤ value) :
    (u32OfTime value).map UInt32.toNat = (some value.toNat).filter (· ≤ 4294967295) := by
  unfold u32OfTime
  by_cases hfits : value ≤ 4294967295
  · rw [if_pos ⟨h, hfits⟩]
    have hnat : value.toNat ≤ 4294967295 := by omega
    rw [Option.filter_some, if_pos (decide_eq_true hnat)]
    show some (UInt32.ofNat value.toNat).toNat = _
    rw [UInt32.toNat_ofNat_of_lt' (by rw [UInt32.size]; omega)]
  · rw [if_neg fun h => hfits h.2]
    have hnat : ¬ value.toNat ≤ 4294967295 := by omega
    rw [Option.filter_some, if_neg (by simpa using hnat)]
    rfl

/-- The game that is sent for an entry shows it. -/
theorem shows_of_steamGame {entries : List PlaytimeEntry} {e : PlaytimeEntry} (happ : app ≠ 0)
    (he : lastEntry entries app = some e)
    (hg : steamGame ⟨app, e.playtimeMinutes, e.playtime2weeksMinutes, e.lastPlayedAt⟩ = some g) :
    Shows g e := by
  have hmem := List.mem_of_getLast? he
  obtain ⟨hid, htime⟩ := Bool.and_eq_true_iff.mp (List.mem_filter.mp hmem).2
  have hid : e.appId = app := of_decide_eq_true hid
  have happ' := gameApp_steamGame hg happ
  unfold steamGame at hg
  split at hg
  · cases hg
    refine ⟨hid.symm ▸ happ', ?_, ?_, ?_⟩
    · exact congrArg some (toInt_saturatingI32 _)
    · exact congrArg some (toInt_saturatingI32 _)
    · cases hlast : e.lastPlayedAt with
      | none => rfl
      | some value =>
        rw [hlast] at htime
        exact u32OfTime_toNat value (by simpa using htime)
  · cases hg

/-! ## One snapshot -/

section Step

variable {S : AppsState} {order : GamesOrder} {cache : PlaytimeCache} {key : RuntimeKey}
  {games : KnownPlaytime}

variable {entry : CachedPlaytime} {snapshot : AccountPlaytimeSnapshot}

/-- The entry that changed is in the list, and no other one of its app. -/
theorem mem_changedGames :
    entry ∈ changedGames order cache key games ↔
      games.games.lookup entry.appId = some entry ∧
        (cache.key = some key → cache.games.games.lookup entry.appId ≠ some entry) := by
  have hvalues : entry ∈ (order.arrange games.games.entries).map Sigma.snd ↔
      games.games.lookup entry.appId = some entry := by
    rw [List.mem_map]
    constructor
    · intro h
      obtain ⟨e, he, rfl⟩ := h
      have hlookup : games.games.lookup e.1 = some e.2 :=
        Assoc.lookup_eq_some_iff.mpr (order.mem_arrange.mp he)
      rw [(games.keyed e.1 e.2 hlookup).1]
      exact hlookup
    · intro h
      exact ⟨⟨entry.appId, entry⟩, order.mem_arrange.mpr (Assoc.lookup_eq_some_iff.mp h), rfl⟩
  unfold changedGames
  by_cases hkey : cache.key = some key
  · simp only [hkey, if_true, List.mem_filter, hvalues, decide_eq_true_eq, forall_const]
  · simp only [hkey, if_false, hvalues, false_implies, and_true]

theorem mem_sentGames :
    g ∈ sentGames S (changedGames order cache key games) ↔
      ∃ entry, games.games.lookup entry.appId = some entry ∧
        (cache.key = some key → cache.games.games.lookup entry.appId ≠ some entry) ∧
        requiresBackendPlaytime S entry.appId = true ∧ steamGame entry = some g := by
  unfold sentGames
  simp only [List.mem_filterMap, List.mem_filter, mem_changedGames, and_assoc]

/-- What is sent for an app is its entry, if it changed. -/
theorem lastGame_sentGames (hentry : games.games.lookup app = some entry)
    (hg : steamGame entry = some g) (hcontrolled : requiresBackendPlaytime S app = true) :
    lastGame (sentGames S (changedGames order cache key games)) app =
      if cache.key = some key ∧ cache.games.games.lookup app = some entry then none
      else some g := by
  obtain ⟨happ, hzero⟩ := games.keyed app entry hentry
  -- every game that is sent for the app comes from the entry of the app
  have hunique (g' : PlayerLastPlayedGame)
      (hg' : g' ∈ (sentGames S (changedGames order cache key games)).filter
        fun g => gameApp g = some app) :
      g' = g ∧ ¬ (cache.key = some key ∧ cache.games.games.lookup app = some entry) := by
    obtain ⟨hsent, hgame⟩ := List.mem_filter.mp hg'
    obtain ⟨other, hother, hchanged, _, hsteam⟩ := mem_sentGames.mp hsent
    have hid : other.appId = app := by
      have hkeyed := games.keyed other.appId other hother
      have happ' := gameApp_steamGame hsteam hkeyed.2
      rw [of_decide_eq_true hgame] at happ'
      exact (Option.some.inj happ').symm
    rw [hid] at hother hchanged
    rw [hentry] at hother
    cases hother
    rw [hg] at hsteam
    cases hsteam
    exact ⟨rfl, fun h => hchanged h.1 h.2⟩
  unfold lastGame
  by_cases hsame : cache.key = some key ∧ cache.games.games.lookup app = some entry
  · rw [if_pos hsame, List.getLast?_eq_none_iff, List.eq_nil_iff_forall_not_mem]
    intro g' hg'
    exact (hunique g' hg').2 hsame
  · rw [if_neg hsame]
    have hsent : g ∈ sentGames S (changedGames order cache key games) := by
      refine mem_sentGames.mpr ⟨entry, happ ▸ hentry, ?_, happ ▸ hcontrolled, hg⟩
      intro hkey hcached
      exact hsame ⟨hkey, happ ▸ hcached⟩
    have hgame : gameApp g = some app := by
      rw [gameApp_steamGame hg (happ ▸ hzero), happ]
    have hmem : g ∈ (sentGames S (changedGames order cache key games)).filter
        fun g => gameApp g = some app :=
      List.mem_filter.mpr ⟨hsent, decide_eq_true hgame⟩
    obtain ⟨g', hlast⟩ := Option.ne_none_iff_exists'.mp
      (mt List.getLast?_eq_none_iff.mp (List.ne_nil_of_mem hmem))
    rw [hlast, (hunique g' (List.mem_of_getLast? hlast)).1]

theorem applyStreamSnapshot_outdated (h : cache.outdates key snapshot.playtimeRevision) :
    applyStreamSnapshot S order cache key snapshot = (cache, none) := by
  unfold applyStreamSnapshot storeBackendPlaytime
  simp only [if_pos h]

/-- An accepted snapshot replaces the cache; its games are sent if the account is known. -/
theorem applyStreamSnapshot_accepted (S : AppsState) (order : GamesOrder)
    (h : ¬ cache.outdates key snapshot.playtimeRevision) (hsteam : key.steamId64 ≠ 0) :
    ∃ notification, applyStreamSnapshot S order cache key snapshot =
        (⟨some key, snapshot.playtimeRevision, playtimeGames snapshot.playtime⟩, notification) ∧
      notification.toList.flatMap (·.games) =
        sentGames S (changedGames order cache key (playtimeGames snapshot.playtime)) := by
  unfold applyStreamSnapshot storeBackendPlaytime
  simp only [if_neg h]
  refine ⟨_, rfl, ?_⟩
  by_cases hnil : sentGames S (changedGames order cache key (playtimeGames snapshot.playtime)) = []
  · rw [if_pos hnil, hnil]
    rfl
  · rw [if_neg hnil]
    unfold buildNotificationPacket
    rw [if_neg (by simp [hsteam, hnil])]
    simp

end Step

/-! ## Every sequence of snapshots -/

/-- The reader holds what the cache has, for every game that the message can carry. -/
def Complete (S : AppsState) (d : Downlink) : Prop :=
  ∀ key, d.cache.key = some key → key.steamId64 ≠ 0 →
    ∀ app entry g, d.cache.games.games.lookup app = some entry →
      requiresBackendPlaytime S app = true → steamGame entry = some g →
      heldGame d.since app = some g

section Run

variable {S : AppsState} {order : GamesOrder} {d : Downlink} {key : RuntimeKey}
  {snapshot : AccountPlaytimeSnapshot}

theorem apply_outdated (h : d.cache.outdates key snapshot.playtimeRevision) :
    d.apply S order (key, snapshot) = d := by
  unfold Downlink.apply
  simp only [applyStreamSnapshot_outdated h, if_true, Option.toList_none, List.append_nil]

theorem apply_cache (h : ¬ d.cache.outdates key snapshot.playtimeRevision) :
    (d.apply S order (key, snapshot)).cache =
      ⟨some key, snapshot.playtimeRevision, playtimeGames snapshot.playtime⟩ := by
  unfold Downlink.apply applyStreamSnapshot storeBackendPlaytime
  simp only [if_neg h]

/-- What a reader holds after an accepted snapshot. -/
theorem heldGame_apply (h : ¬ d.cache.outdates key snapshot.playtimeRevision)
    (hsteam : key.steamId64 ≠ 0) (app : Nat) :
    heldGame (d.apply S order (key, snapshot)).since app =
      (lastGame (sentGames S (changedGames order d.cache key (playtimeGames snapshot.playtime)))
        app).or (if d.cache.key = some key then heldGame d.since app else none) := by
  obtain ⟨notification, happly, hsent⟩ :=
    applyStreamSnapshot_accepted S order h hsteam
  unfold Downlink.apply heldGame
  simp only [happly]
  by_cases hkey : d.cache.key = some key
  · rw [if_pos hkey.symm, if_pos hkey, List.flatMap_append, lastGame_append, hsent]
  · rw [if_neg (Ne.symm hkey), if_neg hkey, hsent, Option.or_none]

theorem Complete.apply (hd : Complete S d) (e : RuntimeKey × AccountPlaytimeSnapshot) :
    Complete S (d.apply S order e) := by
  obtain ⟨key, snapshot⟩ := e
  by_cases hold : d.cache.outdates key snapshot.playtimeRevision
  · rw [apply_outdated hold]
    exact hd
  · intro key' hkey' hsteam app entry g hentry hcontrolled hg
    rw [apply_cache hold] at hkey' hentry
    cases hkey'
    rw [heldGame_apply hold hsteam, lastGame_sentGames hentry hg hcontrolled]
    -- an entry that the cache has already was sent before
    by_cases hsame : d.cache.key = some key ∧ d.cache.games.games.lookup app = some entry
    · rw [if_pos hsame, if_pos hsame.1, Option.none_or]
      exact hd key hsame.1 hsteam app entry g hsame.2 hcontrolled hg
    · rw [if_neg hsame, Option.some_or]

theorem complete_after (S : AppsState) (order : GamesOrder)
    (snapshots : List (RuntimeKey × AccountPlaytimeSnapshot)) :
    Complete S (downlinkAfter S order snapshots) := by
  unfold downlinkAfter
  induction snapshots using List.reverseRecOn with
  | nil =>
    intro key hkey
    cases hkey
  | append_singleton snapshots e ih =>
    rw [List.foldl_concat]
    exact ih.apply e

end Run

/-- A snapshot that is not newer is ignored; after any other one, a reader of the notifications
since its key became the cached key shows every entry of it that the message can carry. -/
theorem playtime_notifications_complete (S : AppsState) (order : GamesOrder)
    (snapshots : List (RuntimeKey × AccountPlaytimeSnapshot)) (key : RuntimeKey)
    (snapshot : AccountPlaytimeSnapshot) :
    ((downlinkAfter S order snapshots).cache.outdates key snapshot.playtimeRevision →
      applyStreamSnapshot S order (downlinkAfter S order snapshots).cache key snapshot =
        ((downlinkAfter S order snapshots).cache, none)) ∧
    (¬ (downlinkAfter S order snapshots).cache.outdates key snapshot.playtimeRevision →
      key.steamId64 ≠ 0 → ∀ app e, requiresBackendPlaytime S app = true → app ≤ i32Max →
        lastEntry snapshot.playtime app = some e →
        ∃ g, heldGame (downlinkAfter S order (snapshots ++ [(key, snapshot)])).since app = some g ∧
          Shows g e) := by
  constructor
  · intro hold
    exact applyStreamSnapshot_outdated hold
  · intro hnew hsteam app e hcontrolled hfits he
    have hzero : app ≠ 0 := of_decide_eq_true (Bool.and_eq_true_iff.mp hcontrolled).1
    have hcomplete := complete_after S order (snapshots ++ [(key, snapshot)])
    have hrun : downlinkAfter S order (snapshots ++ [(key, snapshot)]) =
        (downlinkAfter S order snapshots).apply S order (key, snapshot) := List.foldl_concat ..
    have hcache : (downlinkAfter S order (snapshots ++ [(key, snapshot)])).cache =
        ⟨some key, snapshot.playtimeRevision, playtimeGames snapshot.playtime⟩ := by
      rw [hrun]
      exact apply_cache hnew
    obtain ⟨g, hg⟩ : ∃ g, steamGame
        ⟨app, e.playtimeMinutes, e.playtime2weeksMinutes, e.lastPlayedAt⟩ = some g :=
      ⟨_, if_pos hfits⟩
    refine ⟨g, ?_, shows_of_steamGame hzero he hg⟩
    refine hcomplete key (by rw [hcache]) hsteam app _ g ?_ hcontrolled hg
    rw [hcache]
    show (playtimeGames snapshot.playtime).games.lookup app = _
    rw [lookup_playtimeGames _ hzero, he]
    rfl

/-! The id that vanishes and comes back with the values it had. -/

def streamKey (steamId64 : Nat) : RuntimeKey := ⟨"fingerprint", steamId64, 1, 1, 1⟩

def streamApps : AppsState := ⟨[⟨440, []⟩], ∅⟩

def minutesAt (minutes : Nat) (lastPlayed : Option Int) : PlaytimeEntry :=
  ⟨"", "", 440, minutes, 0, lastPlayed, 1⟩

def vanishing : List (RuntimeKey × AccountPlaytimeSnapshot) :=
  [(streamKey 7, ⟨1, [minutesAt 100 (some 50)]⟩), (streamKey 7, ⟨2, []⟩)]

theorem vanished_app_shown_again :
    ∃ g, heldGame (downlinkAfter streamApps .stored
        (vanishing ++ [(streamKey 7, ⟨3, [minutesAt 100 (some 50)]⟩)])).since 440 = some g ∧
      Shows g (minutesAt 100 (some 50)) :=
  (playtime_notifications_complete streamApps .stored vanishing (streamKey 7)
    ⟨3, [minutesAt 100 (some 50)]⟩).2 (by decide +kernel) (by decide) 440 _ (by decide +kernel)
    (by decide) rfl

/-- Without a SteamID nothing is sent, and a time past the range of the message is left out
instead of being saturated. -/
theorem playtime_not_shown :
    heldGame (downlinkAfter streamApps .stored
      [(streamKey 0, ⟨1, [minutesAt 100 (some 50)]⟩)]).since 440 = none ∧
    (heldGame (downlinkAfter streamApps .stored
      [(streamKey 7, ⟨1, [minutesAt 100 (some 4294967296)]⟩)]).since 440).map (·.lastPlaytime) =
        some none := by
  decide +kernel

end VaporForge.Client
