import VaporForge.Lib.Assoc
import VaporForge.CloudCore.Text
import VaporForge.Patterns.Search
import Mathlib.Data.Finset.Insert
import Mathlib.Data.Finset.Erase

/-!
# What scripts contribute

`crates/scripting/src/bindings.rs` runs Lua files whose calls fill the maps that the rest of
the program reads. Files come and go while the program runs, so beside the maps there are
books of which file declared which id and set which manifest override.

A parse is the list of API calls that a file makes. A call whose arguments are refused does
not touch the state and is not in the list; `addappid` with a depot key of the right length
that is not hexadecimal fails after it has declared its id, and is. App ids and depot ids
are the same numbers. Hash maps are walked in an order nobody promises.
-/

namespace VaporForge.Scripting

open Lib

structure ManifestOverride where
  depotId : Nat
  gid : Nat
  size : Option Nat
  deriving DecidableEq, Repr

/-- The calls of `install_lua_api` that write. -/
inductive ScriptCall where
  | addAppId (id : Nat) (keyHex : Option String)
  | setManifestId (depotId gid : Nat) (size : Option Nat)
  | setAppTicket (appId : Nat) (hex : String)
  | setETicket (appId : Nat) (hex : String)
  | setStat (appId steamId : Nat)
  | setAvatar (appId avatar : Nat)
  | addToken (appId : Nat) (token : Option Nat)
  deriving DecidableEq, Repr

structure RuntimeState where
  apps : Finset Nat
  depotKeys : Assoc Nat (List UInt8)
  manifests : Assoc Nat ManifestOverride
  appTickets : Assoc Nat (List UInt8)
  encTickets : Assoc Nat (List UInt8)
  statSteamIds : Assoc Nat Nat
  avatars : Assoc Nat Nat
  accessTokens : Assoc Nat Nat
  appPurchaseTimes : Assoc Nat Nat
  currentFile : Option String
  /-- A set, in the order in which it was filled. -/
  fileDepots : Assoc String (List Nat)
  fileManifestOverrides : Assoc String (Assoc Nat ManifestOverride)
  fileParseSequence : Assoc String Nat
  fileMtimes : Assoc String Nat
  nextParseSequence : Nat
  depotRefcount : Assoc Nat Nat

/-- `RuntimeState::default`. -/
def RuntimeState.default : RuntimeState :=
  ⟨∅, ∅, ∅, ∅, ∅, ∅, ∅, ∅, ∅, none, ∅, ∅, ∅, ∅, 0, ∅⟩

abbrev WalkOrder := Arrangement ((_ : String) × Assoc Nat ManifestOverride)

namespace RuntimeState

/-! ## Manifest overrides -/

/-- One file of `rebuild_manifest_override`: a later parse wins. -/
def better (state : RuntimeState) (depotId : Nat) (winner : Option (Nat × ManifestOverride))
    (e : (_ : String) × Assoc Nat ManifestOverride) : Option (Nat × ManifestOverride) :=
  match e.2.lookup depotId with
  | none => winner
  | some entry =>
    let seq := (state.fileParseSequence.lookup e.1).getD 0
    if winner.all fun best => best.1 < seq then some (seq, entry) else winner

def rebuildManifestOverride (order : WalkOrder) (state : RuntimeState) (depotId : Nat) :
    RuntimeState :=
  match (order.arrange state.fileManifestOverrides.entries).foldl (better state depotId) none with
  | some (_, value) => { state with manifests := state.manifests.insert depotId value }
  | none => { state with manifests := state.manifests.erase depotId }

/-! ## Files -/

/-- One id of a file that is unloaded. -/
def dropDepot (state : RuntimeState) (depotId : Nat) : RuntimeState :=
  match state.depotRefcount.lookup depotId with
  | none => state
  | some count =>
    if count - 1 = 0 then
      { state with
        depotRefcount := state.depotRefcount.erase depotId
        depotKeys := state.depotKeys.erase depotId
        apps := state.apps.erase depotId
        appPurchaseTimes := state.appPurchaseTimes.erase depotId }
    else { state with depotRefcount := state.depotRefcount.insert depotId (count - 1) }

/-- The ids of the file. -/
def dropDepots (state : RuntimeState) (path : String) : RuntimeState :=
  match state.fileDepots.lookup path with
  | none => state
  | some depots =>
    depots.foldl dropDepot { state with fileDepots := state.fileDepots.erase path }

/-- The overrides of the file. -/
def dropOverrides (order : WalkOrder) (state : RuntimeState) (path : String) : RuntimeState :=
  match state.fileManifestOverrides.lookup path with
  | none => state
  | some overrides =>
    overrides.keys.foldl (rebuildManifestOverride order)
      { state with fileManifestOverrides := state.fileManifestOverrides.erase path }

def unloadFile (order : WalkOrder) (state : RuntimeState) (path : String) : RuntimeState :=
  let state := (state.dropDepots path).dropOverrides order path
  { state with
    fileParseSequence := state.fileParseSequence.erase path
    fileMtimes := state.fileMtimes.erase path }

def beginParseFile (order : WalkOrder) (state : RuntimeState) (path : String) (mtime : Nat) :
    RuntimeState :=
  let state := state.unloadFile order path
  { state with
    nextParseSequence := state.nextParseSequence + 1
    fileParseSequence := state.fileParseSequence.insert path (state.nextParseSequence + 1)
    fileMtimes := state.fileMtimes.insert path mtime
    currentFile := some path }

def endParseFile (state : RuntimeState) : RuntimeState := { state with currentFile := none }

/-! ## Calls -/

/-- The file declares the id for the first time. -/
def countDepot (state : RuntimeState) (path : String) (id : Nat) : RuntimeState :=
  let count := (state.depotRefcount.lookup id).getD 0 + 1
  let mtime := (state.fileMtimes.lookup path).getD 0
  { state with
    depotRefcount := state.depotRefcount.insert id count
    apps := if count = 1 then insert id state.apps else state.apps
    appPurchaseTimes :=
      if mtime ≠ 0 then
        state.appPurchaseTimes.insert id (max ((state.appPurchaseTimes.lookup id).getD 0) mtime)
      else state.appPurchaseTimes }

def declareDepot (state : RuntimeState) (id : Nat) : RuntimeState :=
  match state.currentFile with
  | none => { state with apps := insert id state.apps }
  | some path =>
    let depots := (state.fileDepots.lookup path).getD []
    let declared := { state with fileDepots := state.fileDepots.insert path (depots.insert id) }
    if id ∈ depots then declared else declared.countDepot path id

def hexPairs : List Char → Option (List (List Char))
  | [] => some []
  | [_] => none
  | a :: b :: rest => (hexPairs rest).map ([a, b] :: ·)

def parseHexKey (hex : String) : Option (List UInt8) := do
  (← hexPairs hex.toList).mapM Patterns.u8FromHex

/-- A depot key that is not empty replaces the one there is. -/
def setDepotKey (state : RuntimeState) (id : Nat) (hex : String) : RuntimeState :=
  if CloudCore.byteLen hex = 64 then
    match parseHexKey hex with
    | none => state
    | some key =>
      if key ≠ [] ∨ (state.depotKeys.lookup id).isNone then
        { state with depotKeys := state.depotKeys.insert id key }
      else state
  else state

def setManifestId (order : WalkOrder) (state : RuntimeState) (override : ManifestOverride) :
    RuntimeState :=
  match state.currentFile with
  | none => { state with manifests := state.manifests.insert override.depotId override }
  | some path =>
    let overrides := (state.fileManifestOverrides.lookup path).getD ∅
    { state with
      fileManifestOverrides := state.fileManifestOverrides.insert path
        (overrides.insert override.depotId override) }.rebuildManifestOverride order
          override.depotId

def call (order : WalkOrder) (state : RuntimeState) : ScriptCall → RuntimeState
  | .addAppId id none => state.declareDepot id
  | .addAppId id (some hex) => (state.declareDepot id).setDepotKey id hex
  | .setManifestId depotId gid size => state.setManifestId order ⟨depotId, gid, size⟩
  | .setAppTicket appId hex =>
    match parseHexKey hex with
    | none => state
    | some bytes => { state with appTickets := state.appTickets.insert appId bytes }
  | .setETicket appId hex =>
    match parseHexKey hex with
    | none => state
    | some bytes => { state with encTickets := state.encTickets.insert appId bytes }
  | .setStat appId steamId =>
    { state with statSteamIds := state.statSteamIds.insert appId steamId }
  | .setAvatar appId avatar => { state with avatars := state.avatars.insert appId avatar }
  | .addToken _ none => state
  | .addToken appId (some token) =>
    { state with accessTokens := state.accessTokens.insert appId token }

/-- `ScriptRegistry::parse_file` of a file that makes these calls. -/
def parseFile (order : WalkOrder) (state : RuntimeState) (path : String) (mtime : Nat)
    (calls : List ScriptCall) : RuntimeState :=
  (calls.foldl (call order) (state.beginParseFile order path mtime)).endParseFile

end RuntimeState

inductive RegistryCall where
  | parseFile (path : String) (mtime : Nat) (calls : List ScriptCall)
  | unloadFile (path : String)
  deriving DecidableEq, Repr

def RegistryCall.run (order : WalkOrder) (state : RuntimeState) : RegistryCall → RuntimeState
  | .parseFile path mtime calls => state.parseFile order path mtime calls
  | .unloadFile path => state.unloadFile order path

/-- The registry after some calls, from an empty one. -/
def registryAfter (order : WalkOrder) (calls : List RegistryCall) : RuntimeState :=
  calls.foldl (RegistryCall.run order) .default

end VaporForge.Scripting
