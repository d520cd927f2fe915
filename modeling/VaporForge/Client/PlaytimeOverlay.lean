import VaporForge.Client.PlaytimeDownlink
import VaporForge.Lib.Records

/-!
# What the playtime overlay does

> The overlay leaves the uncontrolled games as they are, replaces or removes the controlled
> ones and appends those that are missing, and a second overlay changes nothing, exactly
> unless a full response meets an app of the backend whose id does not fit the message while
> there is something else to correct (`overlays_iff`).

The first loop rewrites every game on its own (`replacement`) and notes whether one of them
changed (`foldlM_overlayGame`). No game of the list can stand in the way there, because an
id that is in the message fits into it. The second loop leaves the function at the first
entry that does not (`foldlM_appendGame`), and with it goes what the first loop did.
-/

namespace VaporForge.Client

open VaporForge.CloudCore
open Lib

/-! ## Games -/

theorem sameSteamGame_iff {left right : PlayerLastPlayedGame} :
    sameSteamGame left right = true ↔ left = right := by
  rw [PlayerLastPlayedGame.ext_iff]
  simp only [sameSteamGame, Bool.and_eq_true, decide_eq_true_eq, and_assoc]

variable {game : PlayerLastPlayedGame} {app : Nat} {entry : CachedPlaytime}

theorem gameApp_eq_some (h : gameApp game = some app) : app ≠ 0 ∧ app ≤ i32Max := by
  obtain ⟨hbind, hzero⟩ := Option.filter_eq_some_iff.mp h
  refine ⟨of_decide_eq_true hzero, ?_⟩
  obtain ⟨value, _, hvalue⟩ := Option.bind_eq_some_iff.mp hbind
  split at hvalue
  next hnonneg =>
    cases hvalue
    have hlt := value.toInt_lt
    unfold i32Max
    omega
  next => cases hvalue

theorem steamGame_eq_none_iff : steamGame entry = none ↔ i32Max < entry.appId := by
  unfold steamGame
  split
  next h => simp [Nat.not_lt.mpr h]
  next h => simp [Nat.lt_of_not_le h]

/-- A game made of an entry is a game of its app. -/
theorem gameApp_steamGame (h : steamGame entry = some game) (hzero : entry.appId ≠ 0) :
    gameApp game = some entry.appId := by
  unfold steamGame at h
  split at h
  next hle =>
    cases h
    have hint : (Int32.ofNat entry.appId).toInt = entry.appId := by
      refine Int32.toInt_ofNat_of_lt ?_
      unfold i32Max at hle
      omega
    unfold gameApp
    rw [Option.bind_some, hint, if_pos (Int.natCast_nonneg _), Int.toNat_natCast]
    exact Option.filter_eq_some_iff.mpr ⟨rfl, decide_eq_true hzero⟩
  next => cases h

/-- A list is its own image exactly if every member is. -/
theorem filterMap_eq_self_iff {α : Type} {f : α → Option α} {l : List α} :
    l.filterMap f = l ↔ ∀ a ∈ l, f a = some a := by
  induction l with
  | nil => simp
  | cons a l ih =>
    rw [List.filterMap_cons, List.forall_mem_cons]
    cases h : f a with
    | none =>
      have hlength : l.filterMap f ≠ a :: l := by
        intro heq
        have hle := List.length_filterMap_le f l
        rw [heq, List.length_cons] at hle
        omega
      simp [hlength]
    | some b => simp [ih]

/-! ## The two loops -/

/-- What becomes of a game of the list. -/
def replacement (S : AppsState) (K : KnownPlaytime) (game : PlayerLastPlayedGame) :
    Option PlayerLastPlayedGame :=
  match gameApp game with
  | none => some game
  | some app =>
    if requiresBackendPlaytime S app then (K.games.lookup app).bind steamGame else some game

section Overlay

variable {S : AppsState} {K : KnownPlaytime}

/-- The controlled part of the backend's map. -/
abbrev controlledGames (S : AppsState) (K : KnownPlaytime) : Assoc Nat CachedPlaytime :=
  K.games.retain fun app _ => requiresBackendPlaytime S app

theorem lookup_controlledGames :
    (controlledGames S K).lookup app = some entry ↔
      K.games.lookup app = some entry ∧ requiresBackendPlaytime S app = true := by
  rw [Assoc.lookup_retain, Option.filter_eq_some_iff]

/-- The apps of a list that the backend answers for. -/
def Seen (S : AppsState) (K : KnownPlaytime) (games : List PlayerLastPlayedGame) (app : Nat) :
    Prop :=
  (∃ game ∈ games, gameApp game = some app) ∧ ∃ entry, (controlledGames S K).lookup app = some entry

/-- One game: it is rewritten on its own. -/
theorem overlayGame_eq (V : Overlaying) (game : PlayerLastPlayedGame) :
    ∃ V', overlayGame S (controlledGames S K) V game = some V' ∧
      V'.rewritten = V.rewritten ++ (replacement S K game).toList ∧
      (V'.changed = true ↔ V.changed = true ∨ replacement S K game ≠ some game) ∧
      ∀ app, app ∈ V'.seenBackendApps ↔ app ∈ V.seenBackendApps ∨ Seen S K [game] app := by
  unfold overlayGame replacement
  cases happ : gameApp game with
  | none =>
    refine ⟨V.push game, rfl, rfl, ?_, ?_⟩
    · simp [Overlaying.push]
    · intro app
      simp [Overlaying.push, Seen, happ]
  | some app =>
    dsimp only
    cases hrequires : requiresBackendPlaytime S app with
    | false =>
      refine ⟨V.push game, rfl, rfl, ?_, ?_⟩
      · simp [Overlaying.push]
      · intro app'
        have hnot : ¬Seen S K [game] app' := by
          rintro ⟨⟨game', hmem, hgame'⟩, entry, hentry⟩
          cases List.mem_singleton.mp hmem
          cases happ.symm.trans hgame'
          rw [(lookup_controlledGames.mp hentry).2] at hrequires
          cases hrequires
        simp [Overlaying.push, hnot]
    | true =>
      have hlookup : (controlledGames S K).lookup app = K.games.lookup app := by
        rw [Assoc.lookup_retain, hrequires]
        cases K.games.lookup app with
        | none => rfl
        | some _ => rfl
      have hseen : ∀ app', Seen S K [game] app' ↔
          app' = app ∧ (K.games.lookup app).isSome = true := by
        intro app'
        constructor
        · rintro ⟨⟨game', hmem, hgame'⟩, entry, hentry⟩
          cases List.mem_singleton.mp hmem
          cases happ.symm.trans hgame'
          exact ⟨rfl, hlookup ▸ Option.isSome_iff_exists.mpr ⟨entry, hentry⟩⟩
        · rintro ⟨rfl, hsome⟩
          exact ⟨⟨game, List.mem_singleton.mpr rfl, happ⟩,
            Option.isSome_iff_exists.mp (hlookup ▸ hsome)⟩
      rw [if_neg (by simp), if_pos rfl, hlookup]
      cases hentry : K.games.lookup app with
      | none =>
        refine ⟨{ V with changed := true }, rfl, (List.append_nil _).symm, ?_, ?_⟩
        · simp
        · intro app'
          rw [hseen, hentry]
          simp
      | some entry =>
        have hsome : ∃ overlay, steamGame entry = some overlay := by
          refine Option.ne_none_iff_exists'.mp ?_
          rw [Ne, steamGame_eq_none_iff, (K.keyed app entry hentry).1]
          exact Nat.not_lt.mpr (gameApp_eq_some happ).2
        obtain ⟨overlay, hoverlay⟩ := hsome
        rw [Option.bind_some, hoverlay]
        refine ⟨⟨V.changed || !sameSteamGame overlay game, app :: V.seenBackendApps,
          V.rewritten ++ [overlay]⟩, ?_, rfl, ?_, ?_⟩
        · simp [hoverlay]
        · simp [← sameSteamGame_iff]
        · intro app'
          rw [hseen, hentry]
          simp [or_comm]

/-- The first loop. -/
theorem foldlM_overlayGame (games : List PlayerLastPlayedGame) (V : Overlaying) :
    ∃ V', games.foldlM (overlayGame S (controlledGames S K)) V = some V' ∧
      V'.rewritten = V.rewritten ++ games.filterMap (replacement S K) ∧
      (V'.changed = true ↔
        V.changed = true ∨ games.filterMap (replacement S K) ≠ games) ∧
      ∀ app, app ∈ V'.seenBackendApps ↔ app ∈ V.seenBackendApps ∨ Seen S K games app := by
  induction games generalizing V with
  | nil =>
    refine ⟨V, rfl, (List.append_nil _).symm, by simp, ?_⟩
    intro app
    simp [Seen]
  | cons game games ih =>
    obtain ⟨V₁, hstep, hwritten₁, hchanged₁, hseen₁⟩ := overlayGame_eq (S := S) (K := K) V game
    obtain ⟨V₂, hloop, hwritten₂, hchanged₂, hseen₂⟩ := ih V₁
    refine ⟨V₂, ?_, ?_, ?_, ?_⟩
    · rw [List.foldlM_cons, hstep]
      exact hloop
    · rw [hwritten₂, hwritten₁, List.append_assoc, List.filterMap_cons]
      cases replacement S K game with
      | none => rfl
      | some overlay => rfl
    · rw [hchanged₂, hchanged₁, Ne, Ne, Ne, filterMap_eq_self_iff, filterMap_eq_self_iff,
        List.forall_mem_cons, not_and_or, or_assoc]
    · intro app
      rw [hseen₂, hseen₁, or_assoc]
      refine or_congr_right ?_
      unfold Seen
      rw [← or_and_right]
      simp

theorem foldlM_appendGame (missing : List ((_ : Nat) × CachedPlaytime)) (V : Overlaying) :
    missing.foldlM appendGame V =
      if ∃ e ∈ missing, steamGame e.2 = none then none
      else some
        { V with
          changed := V.changed || !missing.isEmpty
          rewritten := V.rewritten ++ missing.filterMap fun e => steamGame e.2 } := by
  induction missing generalizing V with
  | nil => simp
  | cons e missing ih =>
    rw [List.foldlM_cons]
    cases hgame : steamGame e.2 with
    | none => simp [appendGame, hgame]
    | some game =>
      have hstep : appendGame V e = some { V.push game with changed := true } := by
        rw [appendGame, hgame]
        rfl
      rw [hstep, Option.bind_eq_bind, Option.bind_some, ih]
      simp only [List.exists_mem_cons_iff, hgame, reduceCtorEq, false_or, Overlaying.push,
        List.filterMap_cons, List.isEmpty_cons, Bool.true_or, Bool.not_false, Bool.or_true,
        List.append_assoc, List.singleton_append]

/-! ## What is missing -/

/-- A controlled app of the backend that no game of the list is of. -/
def IsMissing (S : AppsState) (K : KnownPlaytime) (games : List PlayerLastPlayedGame) (app : Nat)
    (entry : CachedPlaytime) : Prop :=
  (controlledGames S K).lookup app = some entry ∧ ∀ game ∈ games, gameApp game ≠ some app

/-- What a full response gets in addition: the missing games, in ascending order. -/
structure Appended (S : AppsState) (K : KnownPlaytime) (games tail : List PlayerLastPlayedGame) :
    Prop where
  ascending : ∃ apps : List Nat, apps.Pairwise (· < ·) ∧ tail.map gameApp = apps.map some
  mem : ∀ game, game ∈ tail ↔
    ∃ app entry, IsMissing S K games app entry ∧ steamGame entry = some game

variable {games : List PlayerLastPlayedGame}

variable {seen : List Nat} {appendMissing : Bool} {tail : List PlayerLastPlayedGame}

theorem mem_missingGames {o : Arrangement ((_ : Nat) × CachedPlaytime)}
    (hseen : ∀ app, app ∈ seen ↔ Seen S K games app) {e : (_ : Nat) × CachedPlaytime} :
    e ∈ missingGames o (controlledGames S K) seen ↔ IsMissing S K games e.1 e.2 := by
  unfold missingGames IsMissing
  rw [List.mem_insertionSort, List.mem_filter, o.mem_arrange, ← Assoc.lookup_eq_some_iff]
  refine and_congr_right ?_
  intro hlookup
  rw [Bool.not_eq_true', List.contains_eq_mem, decide_eq_false_iff_not, hseen]
  constructor
  · intro hnot game hgame happ
    exact hnot ⟨⟨game, hgame, happ⟩, e.2, hlookup⟩
  · rintro hnone ⟨⟨game, hgame, happ⟩, _⟩
    exact hnone game hgame happ

theorem ascending_missingGames (o : Arrangement ((_ : Nat) × CachedPlaytime))
    (backendGames : Assoc Nat CachedPlaytime) (seen : List Nat) :
    (missingGames o backendGames seen).Pairwise fun a b => a.1 < b.1 := by
  refine ascending_insertionSort ?_
  have hnodup : ((o.arrange backendGames.entries).map Sigma.fst).Nodup :=
    ((o.perm _).map _).nodup_iff.mpr backendGames.nodupKeys
  exact hnodup.sublist (List.filter_sublist.map _)

/-- A missing app is not zero, and its game is one of that app. -/
theorem IsMissing.gameApp (h : IsMissing S K games app entry) (hgame : steamGame entry = some game) :
    Client.gameApp game = some app := by
  obtain ⟨rfl, hzero⟩ := K.keyed app entry (lookup_controlledGames.mp h.1).1
  exact gameApp_steamGame hgame hzero

theorem appended_missingGames {o : Arrangement ((_ : Nat) × CachedPlaytime)}
    (hseen : ∀ app, app ∈ seen ↔ Seen S K games app) :
    Appended S K games
      ((missingGames o (controlledGames S K) seen).filterMap fun e => steamGame e.2) := by
  have hmem := fun {e} => mem_missingGames (o := o) (e := e) hseen
  have hascending := ascending_missingGames o (controlledGames S K) seen
  generalize missingGames o (controlledGames S K) seen = missing at hmem hascending
  refine ⟨?_, ?_⟩
  · -- the apps of the entries that have a game
    refine ⟨(missing.filter fun e => (steamGame e.2).isSome).map Sigma.fst, ?_, ?_⟩
    · exact List.pairwise_map.mpr (hascending.sublist List.filter_sublist)
    · have hgame : ∀ e ∈ missing, ∀ game, steamGame e.2 = some game →
          gameApp game = some e.1 := fun e he game => (hmem.mp he).gameApp
      clear hascending hmem
      induction missing with
      | nil => rfl
      | cons e missing ih =>
        have ih := ih fun e he => hgame e (List.mem_cons_of_mem _ he)
        rw [List.filterMap_cons, List.filter_cons]
        cases hsome : steamGame e.2 with
        | none => exact ih
        | some game =>
          rw [Option.isSome_some, if_pos rfl, List.map_cons, List.map_cons, List.map_cons, ih,
            hgame e List.mem_cons_self game hsome]
  · intro game
    rw [List.mem_filterMap]
    constructor
    · rintro ⟨e, he, hgame⟩
      exact ⟨e.1, e.2, hmem.mp he, hgame⟩
    · rintro ⟨app, entry, hmissing, hgame⟩
      exact ⟨⟨app, entry⟩, hmem.mpr hmissing, hgame⟩

/-! ## The overlay as a whole -/

/-- What is put behind the list. -/
def Tail (S : AppsState) (K : KnownPlaytime) (appendMissing : Bool)
    (games tail : List PlayerLastPlayedGame) : Prop :=
  if appendMissing then Appended S K games tail else tail = []

theorem Tail.exists_of_mem (h : Tail S K appendMissing games tail) (hmem : game ∈ tail) :
    ∃ app entry, IsMissing S K games app entry ∧ steamGame entry = some game := by
  cases appendMissing with
  | false =>
    rw [show tail = [] from h] at hmem
    cases hmem
  | true => exact (Appended.mem h game).mp hmem

/-- A controlled app of the backend has an id that the message has no room for. -/
def Unrepresentable (S : AppsState) (K : KnownPlaytime) : Prop :=
  ∃ app entry, (controlledGames S K).lookup app = some entry ∧ i32Max < app

/-- Where an id does not fit, a full response is not touched at all. -/
theorem overlayGames_unrepresentable (o : Arrangement ((_ : Nat) × CachedPlaytime))
    (games : List PlayerLastPlayedGame) (h : Unrepresentable S K) :
    overlayGames S (.known K) true o games = none := by
  obtain ⟨V, hloop, _, _, hseen⟩ := foldlM_overlayGame (S := S) (K := K) games .start
  obtain ⟨app, entry, hlookup, hlarge⟩ := h
  have hseen : ∀ app, app ∈ V.seenBackendApps ↔ Seen S K games app := by
    intro app
    rw [hseen]
    simp [Overlaying.start]
  have hmissing : IsMissing S K games app entry := by
    refine ⟨hlookup, ?_⟩
    intro game _ happ
    exact Nat.not_le.mpr hlarge (gameApp_eq_some happ).2
  have hkeyed := (K.keyed app entry (lookup_controlledGames.mp hlookup).1).1
  have hnone : ∃ e ∈ missingGames o (controlledGames S K) V.seenBackendApps,
      steamGame e.2 = none :=
    ⟨⟨app, entry⟩, (mem_missingGames hseen).mpr hmissing,
      steamGame_eq_none_iff.mpr (hkeyed ▸ hlarge)⟩
  unfold overlayGames
  dsimp only
  rw [hloop, Option.bind_some, if_pos rfl, foldlM_appendGame, if_pos hnone]
  rfl

/-- Nothing behind the list is in it. -/
theorem tail_eq_nil_of_eq (htail : Tail S K appendMissing games tail)
    (h : games.filterMap (replacement S K) ++ tail = games) : tail = [] := by
  rw [List.eq_nil_iff_forall_not_mem]
  intro game hmem
  obtain ⟨app, entry, hmissing, hgame⟩ := htail.exists_of_mem hmem
  have hin : game ∈ games := by
    rw [← h]
    exact List.mem_append_right _ hmem
  exact hmissing.2 game hin (hmissing.gameApp hgame)

/-- Everywhere else the list is rewritten, or nothing would change. -/
theorem overlayGames_eq (o : Arrangement ((_ : Nat) × CachedPlaytime)) (appendMissing : Bool)
    (games : List PlayerLastPlayedGame) (h : appendMissing = true → ¬Unrepresentable S K) :
    ∃ tail, Tail S K appendMissing games tail ∧
      overlayGames S (.known K) appendMissing o games =
        if games.filterMap (replacement S K) ++ tail = games then none
        else some (games.filterMap (replacement S K) ++ tail) := by
  obtain ⟨V, hloop, hwritten, hchanged, hseen⟩ := foldlM_overlayGame (S := S) (K := K) games .start
  have hseen : ∀ app, app ∈ V.seenBackendApps ↔ Seen S K games app := by
    intro app
    rw [hseen]
    simp [Overlaying.start]
  have hchanged : V.changed = true ↔ games.filterMap (replacement S K) ≠ games := by
    rw [hchanged]
    simp [Overlaying.start]
  have hwritten : V.rewritten = games.filterMap (replacement S K) := hwritten
  unfold overlayGames
  dsimp only
  rw [hloop, Option.bind_some]
  cases appendMissing with
  | false =>
    refine ⟨[], rfl, ?_⟩
    rw [List.append_nil, if_neg (by decide), Option.bind_some, hwritten]
    by_cases hsame : games.filterMap (replacement S K) = games
    · rw [if_pos hsame, if_neg fun hc => hchanged.mp hc hsame]
    · rw [if_neg hsame, if_pos (hchanged.mpr hsame)]
  | true =>
    have hsome : ¬∃ e ∈ missingGames o (controlledGames S K) V.seenBackendApps,
        steamGame e.2 = none := by
      rintro ⟨e, he, hnone⟩
      have hlookup := ((mem_missingGames hseen).mp he).1
      have hkeyed := (K.keyed _ _ (lookup_controlledGames.mp hlookup).1).1
      exact h rfl ⟨e.1, e.2, hlookup, hkeyed ▸ steamGame_eq_none_iff.mp hnone⟩
    have htail : Tail S K true games _ := appended_missingGames (o := o) hseen
    refine ⟨_, htail, ?_⟩
    rw [if_pos rfl, foldlM_appendGame, if_neg hsome, Option.bind_some, hwritten]
    have hempty : (missingGames o (controlledGames S K) V.seenBackendApps).isEmpty = true ↔
        (missingGames o (controlledGames S K) V.seenBackendApps).filterMap
          (fun e => steamGame e.2) = [] := by
      rw [List.isEmpty_iff, List.filterMap_eq_nil_iff]
      constructor
      · intro hnil e he
        rw [hnil] at he
        cases he
      · intro hnone
        rw [List.eq_nil_iff_forall_not_mem]
        intro e he
        exact hsome ⟨e, he, hnone e he⟩
    by_cases hsame : games.filterMap (replacement S K) ++
        (missingGames o (controlledGames S K) V.seenBackendApps).filterMap
          (fun e => steamGame e.2) = games
    · have hnil := tail_eq_nil_of_eq htail hsame
      rw [if_pos hsame]
      rw [hnil, List.append_nil] at hsame
      refine if_neg ?_
      rw [hempty.mpr hnil, Bool.not_true, Bool.or_false]
      exact fun hc => hchanged.mp hc hsame
    · rw [if_neg hsame]
      refine if_pos ?_
      by_contra hunchanged
      rw [Bool.or_eq_true, not_or, hchanged, not_not, Bool.not_eq_true', Bool.not_eq_false,
        hempty] at hunchanged
      exact hsame (by rw [hunchanged.2, List.append_nil, hunchanged.1])

/-- A game made of a controlled entry is replaced by itself. -/
theorem replacement_steamGame (h : (controlledGames S K).lookup app = some entry)
    (hgame : steamGame entry = some game) : replacement S K game = some game := by
  obtain ⟨hlookup, hrequires⟩ := lookup_controlledGames.mp h
  obtain ⟨rfl, hzero⟩ := K.keyed app entry hlookup
  unfold replacement
  rw [gameApp_steamGame hgame hzero]
  dsimp only
  rw [if_pos hrequires, hlookup]
  exact hgame

/-- A replaced game is replaced by itself. -/
theorem replacement_replacement {overlay : PlayerLastPlayedGame}
    (h : replacement S K game = some overlay) : replacement S K overlay = some overlay := by
  have hself := h
  unfold replacement at h
  split at h
  next =>
    cases h
    exact hself
  next app happ =>
    split at h
    next hrequires =>
      obtain ⟨entry, hentry, hgame⟩ := Option.bind_eq_some_iff.mp h
      have hmissing : (controlledGames S K).lookup app = some entry :=
        lookup_controlledGames.mpr ⟨hentry, hrequires⟩
      exact replacement_steamGame hmissing hgame
    next =>
      cases h
      exact hself

/-- A second overlay reports no change. -/
theorem overlayGames_again (o o' : Arrangement ((_ : Nat) × CachedPlaytime)) (appendMissing : Bool)
    {out : List PlayerLastPlayedGame}
    (h : overlayGames S (.known K) appendMissing o games = some out) :
    overlayGames S (.known K) appendMissing o' out = none := by
  have hfits : appendMissing = true → ¬Unrepresentable S K := by
    rintro rfl hun
    rw [overlayGames_unrepresentable o games hun] at h
    cases h
  obtain ⟨tail, htail, hgames⟩ := overlayGames_eq o appendMissing games hfits
  obtain ⟨tail', htail', hout⟩ := overlayGames_eq o' appendMissing out hfits
  have hwritten : games.filterMap (replacement S K) ++ tail = out := by
    rw [hgames] at h
    split at h
    next => cases h
    next => exact Option.some.inj h
  have hself : ∀ game ∈ out, replacement S K game = some game := by
    intro game hmem
    rw [← hwritten] at hmem
    rcases List.mem_append.mp hmem with hmem | hmem
    · obtain ⟨before, _, hreplaced⟩ := List.mem_filterMap.mp hmem
      exact replacement_replacement hreplaced
    · obtain ⟨app, entry, hmissing, hgame⟩ := htail.exists_of_mem hmem
      exact replacement_steamGame hmissing.1 hgame
  have hnil : tail' = [] := by
    rw [List.eq_nil_iff_forall_not_mem]
    intro game hmem
    obtain ⟨app, entry, hmissing, hgame⟩ := htail'.exists_of_mem hmem
    -- the game is in the rewritten list: its app was there, or it has been appended
    refine hmissing.2 game ?_ (hmissing.gameApp hgame)
    rw [← hwritten, List.mem_append, List.mem_filterMap]
    by_cases hin : ∃ before ∈ games, gameApp before = some app
    · obtain ⟨before, hbefore, happ⟩ := hin
      obtain ⟨hlookup, hrequires⟩ := lookup_controlledGames.mp hmissing.1
      refine .inl ⟨before, hbefore, ?_⟩
      unfold replacement
      rw [happ]
      dsimp only
      rw [if_pos hrequires, hlookup]
      exact hgame
    · cases appendMissing with
      | false =>
        rw [show tail' = [] from htail'] at hmem
        cases hmem
      | true =>
        refine .inr ((Appended.mem htail game).mpr ⟨app, entry, ⟨hmissing.1, ?_⟩, hgame⟩)
        intro before hbefore happ
        exact hin ⟨before, hbefore, happ⟩
  rw [hout, hnil, List.append_nil, if_pos (filterMap_eq_self_iff.mpr hself)]

end Overlay

/-! ## The payoff -/

section Payoff

variable (S : AppsState) (K : KnownPlaytime) (appendMissing : Bool)
  (o : Arrangement ((_ : Nat) × CachedPlaytime)) (games : List PlayerLastPlayedGame)

/-- What the overlay is for: every game is kept, replaced or removed on its own, what a full
response lacks is appended, a change is reported exactly if there is one, and afterwards
there is none, whatever the order of the map. -/
structure Overlays : Prop where
  rewritten : ∃ tail, Tail S K appendMissing games tail ∧
    overlayGames S (.known K) appendMissing o games =
      if games.filterMap (replacement S K) ++ tail = games then none
      else some (games.filterMap (replacement S K) ++ tail)
  again : ∀ out, overlayGames S (.known K) appendMissing o games = some out →
    ∀ o', overlayGames S (.known K) appendMissing o' out = none

/-- There is nothing to correct: every game is as the backend has it, and no app is missing
that the message has room for. -/
structure UpToDate : Prop where
  same : ∀ game ∈ games, replacement S K game = some game
  complete : ∀ app entry, IsMissing S K games app entry → i32Max < app

theorem overlays_iff :
    Overlays S K appendMissing o games ↔
      (appendMissing = true → Unrepresentable S K → UpToDate S K games) := by
  constructor
  · rintro ⟨⟨tail, htail, hresult⟩, _⟩ rfl hun
    rw [overlayGames_unrepresentable o games hun] at hresult
    split at hresult
    next hsame =>
      have hnil := tail_eq_nil_of_eq htail hsame
      rw [hnil, List.append_nil] at hsame
      refine ⟨filterMap_eq_self_iff.mp hsame, ?_⟩
      intro app entry hmissing
      by_contra hfits
      have hkeyed := (K.keyed app entry (lookup_controlledGames.mp hmissing.1).1).1
      cases hgame : steamGame entry with
      | none => exact hfits (hkeyed ▸ steamGame_eq_none_iff.mp hgame)
      | some game =>
        have hmem := (Appended.mem htail game).mpr ⟨app, entry, hmissing, hgame⟩
        rw [hnil] at hmem
        cases hmem
    next => cases hresult
  · intro h
    refine ⟨?_, fun out hout o' => overlayGames_again o o' appendMissing hout⟩
    by_cases hun : appendMissing = true ∧ Unrepresentable S K
    · obtain ⟨rfl, hun⟩ := hun
      obtain ⟨hsame, hcomplete⟩ := h rfl hun
      refine ⟨[], ?_, ?_⟩
      · refine ⟨⟨[], List.Pairwise.nil, rfl⟩, ?_⟩
        intro game
        refine ⟨fun hmem => absurd hmem List.not_mem_nil, ?_⟩
        rintro ⟨app, entry, hmissing, hgame⟩
        have hkeyed := (K.keyed app entry (lookup_controlledGames.mp hmissing.1).1).1
        rw [steamGame_eq_none_iff.mpr (hkeyed ▸ hcomplete app entry hmissing)] at hgame
        cases hgame
      · rw [List.append_nil, if_pos (filterMap_eq_self_iff.mpr hsame),
          overlayGames_unrepresentable o games hun]
    · exact overlayGames_eq o appendMissing games fun happend hun' => hun ⟨happend, hun'⟩

end Payoff

/-- Two controlled apps; the id of the second does not fit into an `i32`. -/
def shortcutApps : AppsState := ⟨[⟨440, []⟩, ⟨4000000000, []⟩], ∅⟩

def backendMinutes (app minutes : Nat) : PlaytimeEntry := ⟨"", "", app, minutes, 0, none, 1⟩

def steamMinutes (minutes : Int32) : PlayerLastPlayedGame :=
  { appId := some 440, playtime2weeks := some 0, playtimeForever := some minutes }

/-- Steam's five minutes would be a hundred, but for the app that does not fit. -/
theorem shortcut_suppresses_overlay :
    overlayGames shortcutApps (.known (playtimeGames [backendMinutes 440 100])) true .stored
        [steamMinutes 5] = some [steamMinutes 100] ∧
      overlayGames shortcutApps
        (.known (playtimeGames [backendMinutes 440 100, backendMinutes 4000000000 1])) true .stored
        [steamMinutes 5] = none ∧
      ¬Overlays shortcutApps
        (playtimeGames [backendMinutes 440 100, backendMinutes 4000000000 1]) true .stored
        [steamMinutes 5] := by
  have hnone : overlayGames shortcutApps
      (.known (playtimeGames [backendMinutes 440 100, backendMinutes 4000000000 1])) true .stored
      [steamMinutes 5] = none := by decide +kernel
  have hreplaced : [steamMinutes 5].filterMap (replacement shortcutApps
      (playtimeGames [backendMinutes 440 100, backendMinutes 4000000000 1])) =
        [steamMinutes 100] := by decide +kernel
  refine ⟨by decide +kernel, hnone, ?_⟩
  rintro ⟨⟨tail, _, hresult⟩, _⟩
  rw [hnone, hreplaced] at hresult
  split at hresult
  next hsame => exact absurd (List.cons.inj hsame).1 (by decide)
  next => cases hresult

end VaporForge.Client
