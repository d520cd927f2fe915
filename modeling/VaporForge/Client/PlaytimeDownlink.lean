import Mathlib.Data.List.Sort
import VaporForge.CloudCore.Sync
import VaporForge.Lib.Assoc

/-!
# Playtime on its way into Steam

`playtime_downlink.rs` corrects the last-played-times response and notification of Steam
with what the backend knows. Only the games that the configuration controls, and that are
not known to be owned, are touched; the others are Steam's own business.

This file holds the overlay (`overlayGames`) with what it asks of `apps.rs` and of the
configuration. The ownership that has been observed is read as of one moment. `i32` and
`u32` fields of the message are `Int32` and `UInt32`; a `HashMap` is an `Assoc`, and where
it is iterated the order is an `Arrangement`.
-/

namespace VaporForge.Client

open VaporForge.CloudCore
open Lib

/-! ## Controlled apps -/

structure InjectApp where
  id : Nat
  dlc : List Nat
  deriving DecidableEq, Repr

inductive AppCategory where
  | inject
  | injectDlc (parent : Nat)
  deriving DecidableEq, Repr

/-- `entry(..).or_insert(..)`. -/
def orInsert (index : Assoc Nat AppCategory) (app : Nat) (category : AppCategory) :
    Assoc Nat AppCategory :=
  if app ∈ index then index else index.insert app category

def indexApp (index : Assoc Nat AppCategory) (app : InjectApp) : Assoc Nat AppCategory :=
  app.dlc.foldl (fun index dlc => orInsert index dlc (.injectDlc app.id))
    (orInsert index app.id .inject)

def appIndex (inject : List InjectApp) : Assoc Nat AppCategory := inject.foldl indexApp ∅

inductive OwnershipState where
  | unknown
  | unowned
  | owned
  deriving DecidableEq, Repr

inductive AppAuthority where
  | uncontrolled
  | controlled (category : AppCategory) (ownership : OwnershipState)
  deriving DecidableEq, Repr

/-- The apps of the configuration, and the ownership observed so far. -/
structure AppsState where
  inject : List InjectApp
  ownership : Assoc Nat Bool

def actualOwnership (S : AppsState) (app : Nat) : OwnershipState :=
  match S.ownership.lookup app with
  | some true => .owned
  | some false => .unowned
  | none => .unknown

def classifyApp (S : AppsState) (app : Nat) : AppAuthority :=
  match (appIndex S.inject).lookup app with
  | some category => .controlled category (actualOwnership S app)
  | none => .uncontrolled

def AppAuthority.requiresInjectedOwnership : AppAuthority → Bool
  | .controlled _ .unknown => true
  | .controlled _ .unowned => true
  | _ => false

def requiresBackendPlaytime (S : AppsState) (app : Nat) : Bool :=
  app ≠ 0 && (classifyApp S app).requiresInjectedOwnership

/-! ## Games -/

@[ext] structure PlayerLastPlayedGame where
  appId : Option Int32 := none
  lastPlaytime : Option UInt32 := none
  playtime2weeks : Option Int32 := none
  playtimeForever : Option Int32 := none
  firstPlaytime : Option UInt32 := none
  playtimeWindowsForever : Option Int32 := none
  playtimeMacForever : Option Int32 := none
  playtimeLinuxForever : Option Int32 := none
  firstWindowsPlaytime : Option UInt32 := none
  firstMacPlaytime : Option UInt32 := none
  firstLinuxPlaytime : Option UInt32 := none
  lastWindowsPlaytime : Option UInt32 := none
  lastMacPlaytime : Option UInt32 := none
  lastLinuxPlaytime : Option UInt32 := none
  playtimeDisconnected : Option UInt32 := none
  playtimeDeckForever : Option Int32 := none
  firstDeckPlaytime : Option UInt32 := none
  lastDeckPlaytime : Option UInt32 := none
  deriving DecidableEq

def sameSteamGame (left right : PlayerLastPlayedGame) : Bool :=
  left.appId = right.appId
    && left.lastPlaytime = right.lastPlaytime
    && left.playtime2weeks = right.playtime2weeks
    && left.playtimeForever = right.playtimeForever
    && left.firstPlaytime = right.firstPlaytime
    && left.playtimeWindowsForever = right.playtimeWindowsForever
    && left.playtimeMacForever = right.playtimeMacForever
    && left.playtimeLinuxForever = right.playtimeLinuxForever
    && left.firstWindowsPlaytime = right.firstWindowsPlaytime
    && left.firstMacPlaytime = right.firstMacPlaytime
    && left.firstLinuxPlaytime = right.firstLinuxPlaytime
    && left.lastWindowsPlaytime = right.lastWindowsPlaytime
    && left.lastMacPlaytime = right.lastMacPlaytime
    && left.lastLinuxPlaytime = right.lastLinuxPlaytime
    && left.playtimeDisconnected = right.playtimeDisconnected
    && left.playtimeDeckForever = right.playtimeDeckForever
    && left.firstDeckPlaytime = right.firstDeckPlaytime
    && left.lastDeckPlaytime = right.lastDeckPlaytime

structure CachedPlaytime where
  appId : Nat
  playtimeMinutes : Nat
  playtime2weeksMinutes : Nat
  lastPlayedAt : Option Int
  deriving DecidableEq, Repr

/-- `i32::MAX`. -/
def i32Max : Nat := 2147483647

def saturatingI32 (value : Nat) : Int32 := Int32.ofNat (min value i32Max)

/-- `u32::try_from` of an `i64`. -/
def u32OfTime (value : Int) : Option UInt32 :=
  if 0 ≤ value ∧ value ≤ 4294967295 then some (UInt32.ofNat value.toNat) else none

def steamGame (entry : CachedPlaytime) : Option PlayerLastPlayedGame :=
  if entry.appId ≤ i32Max then
    some
      { appId := some (Int32.ofNat entry.appId)
        lastPlaytime := entry.lastPlayedAt.bind u32OfTime
        playtime2weeks := some (saturatingI32 entry.playtime2weeksMinutes)
        playtimeForever := some (saturatingI32 entry.playtimeMinutes) }
  else none

def cachedEntry (entry : PlaytimeEntry) : Option CachedPlaytime :=
  if entry.appId = 0 ∨ entry.lastPlayedAt.any (· < 0) then none
  else some ⟨entry.appId, entry.playtimeMinutes, entry.playtime2weeksMinutes, entry.lastPlayedAt⟩

/-! ## What the backend knows -/

/-- The map of a `Known` view: every entry is under its app, and no app is zero. -/
structure KnownPlaytime where
  games : Assoc Nat CachedPlaytime
  keyed : ∀ app entry, games.lookup app = some entry → entry.appId = app ∧ app ≠ 0

namespace KnownPlaytime

def empty : KnownPlaytime := ⟨∅, fun _ _ h => by cases h⟩

/-- One step of the `collect` in `playtime_games`. -/
def collect (K : KnownPlaytime) (entry : PlaytimeEntry) : KnownPlaytime :=
  match h : cachedEntry entry with
  | none => K
  | some cached =>
    { games := K.games.insert cached.appId cached
      keyed := by
        intro app found hfound
        rw [Assoc.lookup_insert_eq] at hfound
        split at hfound
        next heq =>
          cases hfound
          refine ⟨heq.symm, ?_⟩
          unfold cachedEntry at h
          split at h
          next => cases h
          next hvalid =>
            cases h
            exact fun hzero => hvalid (.inl (heq.symm.trans hzero))
        next => exact K.keyed app found hfound }

end KnownPlaytime

def playtimeGames (entries : List PlaytimeEntry) : KnownPlaytime :=
  entries.foldl KnownPlaytime.collect .empty

inductive PlaytimeView where
  | cold
  | known (K : KnownPlaytime)

/-! ## The overlay -/

/-- The app of a game, if it has one. -/
def gameApp (game : PlayerLastPlayedGame) : Option Nat :=
  (game.appId.bind fun value => if 0 ≤ value.toInt then some value.toInt.toNat else none).filter
    (· ≠ 0)

/-- The variables of `overlay_games`. -/
structure Overlaying where
  changed : Bool
  seenBackendApps : List Nat
  rewritten : List PlayerLastPlayedGame

namespace Overlaying

def start : Overlaying := ⟨false, [], []⟩

def push (V : Overlaying) (game : PlayerLastPlayedGame) : Overlaying :=
  { V with rewritten := V.rewritten ++ [game] }

end Overlaying

/-- The body of the first loop; `none` where `?` leaves the function. -/
def overlayGame (S : AppsState) (backendGames : Assoc Nat CachedPlaytime) (V : Overlaying)
    (game : PlayerLastPlayedGame) : Option Overlaying :=
  match gameApp game with
  | none => some (V.push game)
  | some app =>
    if !requiresBackendPlaytime S app then some (V.push game)
    else
      match backendGames.lookup app with
      | some entry =>
        (steamGame entry).map fun overlay =>
          { changed := V.changed || !sameSteamGame overlay game
            seenBackendApps := app :: V.seenBackendApps
            rewritten := V.rewritten ++ [overlay] }
      | none => some { V with changed := true }

/-- The body of the second loop. -/
def appendGame (V : Overlaying) (missing : (_ : Nat) × CachedPlaytime) : Option Overlaying :=
  (steamGame missing.2).map fun game => { V.push game with changed := true }

/-- The entries the list does not have, ascending; `o` is the order of the map. -/
def missingGames (o : Arrangement ((_ : Nat) × CachedPlaytime))
    (backendGames : Assoc Nat CachedPlaytime) (seen : List Nat) :
    List ((_ : Nat) × CachedPlaytime) :=
  ((o.arrange backendGames.entries).filter fun e => !seen.contains e.1).insertionSort
    fun a b => a.1 ≤ b.1

/-- `overlay_games`, with the list it leaves behind where it reports a change. -/
def overlayGames (S : AppsState) (view : PlaytimeView) (appendMissing : Bool)
    (o : Arrangement ((_ : Nat) × CachedPlaytime)) (games : List PlayerLastPlayedGame) :
    Option (List PlayerLastPlayedGame) :=
  match view with
  | .cold => none
  | .known K =>
    let backendGames := K.games.retain fun app _ => requiresBackendPlaytime S app
    (games.foldlM (overlayGame S backendGames) .start).bind fun V =>
      (if appendMissing then (missingGames o backendGames V.seenBackendApps).foldlM appendGame V
        else some V).bind fun V => if V.changed then some V.rewritten else none

end VaporForge.Client
