import VaporForge.Lib.Interleave
import VaporForge.Lib.Assoc
import Mathlib.Data.Finset.Insert
import Mathlib.Data.Finset.Erase

/-!
# The reverse bridge and the readiness of the conflict UI

`hooks/src/ui/reverse_bridge.rs` keeps the windows of Steam's UI into which it has registered
its methods, and which of them have answered. Hooks of Steam and callbacks of the windows
write the table; whoever changed it calls `update_conflict_ui_ready`, which reads the
capability and the table and stores what it found in a flag and in the queue of the cloud RPC.

> the value is computed under one lock and published outside it

The model has one step for each load, store and locked section. `alive` and everything below
it are records that nothing reads: the windows that exist, what was true before each step, and
which two moments the update looked at whose value the flag, or the queue, holds.
-/

namespace VaporForge.Ui

open Lib

/-! ## States -/

structure WindowRegistration where
  generation : Nat
  reverseRegistered : Bool
  bootstrapDispatched : Bool
  bridgeConfirmed : Bool
  deriving DecidableEq, Repr

/-- What an update looks at. -/
structure View where
  bridge : Bool
  confirmed : Bool
  deriving DecidableEq, Repr

/-- The steps at which an update read the capability and, if that was ready, the windows. -/
structure Reads where
  bridgeAt : Nat
  windowsAt : Option Nat
  deriving DecidableEq, Repr

structure BridgeShared where
  windows : Assoc Nat WindowRegistration
  nextWindowGeneration : Nat
  stringHandlerVptr : Nat
  /-- The capability `ConflictUiBridge` is ready. -/
  bridgeReady : Bool
  conflictUiReady : Bool
  /-- The copy that the cloud RPC queue holds. -/
  queueUiReady : Bool
  alive : Finset Nat
  past : List View
  flagFrom : Option Reads
  queueFrom : Option Reads

def BridgeShared.init : BridgeShared := ⟨∅, 1, 0, false, false, false, ∅, [], none, none⟩

def WindowRegistration.ready (state : WindowRegistration) : Bool :=
  state.reverseRegistered && state.bridgeConfirmed

def BridgeShared.view (s : BridgeShared) : View :=
  ⟨s.bridgeReady, s.windows.entries.any fun e => e.2.ready⟩

/-- Where a thread is. `todo` are the windows that it still has to register. -/
inductive BridgeLocal where
  | idle
  /-- In the hook of `RegisterJSMethod`, for the marker of a window. -/
  | marking (window : Nat)
  | capturing (window : Nat)
  | inserting (window generation : Nat)
  /-- In the same hook, for the string handler. -/
  | handling (vptr : Nat)
  | storingHandler (vptr : Nat)
  | collecting
  | registering (todo : List Nat)
  | checking (window : Nat) (todo : List Nat)
  | calling (window generation : Nat) (todo : List Nat)
  | completing (window generation : Nat) (todo : List Nat)
  | confirming (generation : Nat)
  | destroying (window : Nat)
  | retiring (window : Nat)
  | setting (ready : Bool)
  /-- In `update_conflict_ui_ready`. -/
  | readingBridge (todo : List Nat)
  | readingWindows (bridgeAt : Nat) (todo : List Nat)
  | storingFlag (ready : Bool) (reads : Reads) (todo : List Nat)
  | storingQueue (ready : Bool) (reads : Reads) (todo : List Nat)
  deriving DecidableEq, Repr

/-- What a thread does next: it starts an operation, or goes on with the one it is in. -/
inductive BridgeAction where
  /-- Steam registers `Apps.ContinueGameAction` in a window. -/
  | marker (window : Nat)
  /-- Steam registers `URL.ExecuteSteamURL`, with a handler of this vtable. -/
  | stringHandler (vptr : Nat)
  /-- A window calls the ready method that was registered with this generation. -/
  | ready (generation : Nat)
  | destroy (window : Nat)
  | setRuntimeReady (ready : Bool)
  | next
  /-- `malloc` returns null. -/
  | outOfMemory
  deriving DecidableEq, Repr

abbrev WindowOrder := Arrangement ((_ : Nat) × WindowRegistration)

/-! ## Steps -/

def start (s : BridgeShared) : BridgeAction → Option (BridgeShared × BridgeLocal)
  | .marker window => some ({ s with alive := insert window s.alive }, .marking window)
  | .stringHandler vptr => some (s, .handling vptr)
  | .ready generation => if generation = 0 then none else some (s, .confirming generation)
  | .destroy window => some ({ s with alive := s.alive.erase window }, .destroying window)
  | .setRuntimeReady ready => some (s, .setting ready)
  | _ => none

/-- `capture_window` and the hooks. -/
def hookStep (order : WindowOrder) (s : BridgeShared) :
    BridgeLocal → Option (BridgeShared × BridgeLocal)
  | .marking window =>
    if s.bridgeReady = false ∨ window = 0 then some (s, .idle) else some (s, .capturing window)
  | .capturing window =>
    some ({ s with nextWindowGeneration := s.nextWindowGeneration + 1 },
      .inserting window s.nextWindowGeneration)
  | .inserting window generation =>
    some ({ s with windows := s.windows.insert window ⟨generation, false, false, false⟩ },
      .readingBridge [window])
  | .handling vptr =>
    if s.bridgeReady = false ∨ vptr = 0 then some (s, .idle) else some (s, .storingHandler vptr)
  | .storingHandler vptr => some ({ s with stringHandlerVptr := vptr }, .collecting)
  | .collecting =>
    some (s, .registering (((order.arrange s.windows.entries).filter
      fun e => !e.2.reverseRegistered).map Sigma.fst))
  | .destroying window =>
    if s.bridgeReady = false ∨ window = 0 then some (s, .idle) else some (s, .retiring window)
  | .retiring window =>
    if window ∈ s.windows then
      some ({ s with windows := s.windows.erase window }, .readingBridge [])
    else some (s, .idle)
  | .setting ready => some ({ s with bridgeReady := ready }, .readingBridge [])
  | _ => none

/-- `register_window`, for one window after the other. -/
def registerStep (s : BridgeShared) : BridgeLocal → Option (BridgeShared × BridgeLocal)
  | .registering [] => some (s, .idle)
  | .registering (window :: todo) =>
    if s.stringHandlerVptr = 0 then some (s, .registering todo) else some (s, .checking window todo)
  | .checking window todo =>
    match s.windows.lookup window with
    | none => some (s, .registering todo)
    | some state =>
      if state.reverseRegistered then some (s, .registering todo)
      else some (s, .calling window state.generation todo)
  | .calling window generation todo => some (s, .completing window generation todo)
  | .completing window generation todo =>
    match s.windows.lookup window with
    | none => some (s, .registering todo)
    | some state =>
      if state.generation ≠ generation then some (s, .registering todo)
      else some ({ s with windows := s.windows.insert window ⟨generation, true, false, false⟩ },
        .readingBridge todo)
  | _ => none

/-- `confirm_bridge_ready`. At most one window has a given generation. -/
def confirmStep (s : BridgeShared) : BridgeLocal → Option (BridgeShared × BridgeLocal)
  | .confirming generation =>
    match s.windows.entries.find? fun e =>
        e.2.generation == generation && e.2.reverseRegistered with
    | none => some (s, .idle)
    | some e =>
      let windows := s.windows.insert e.1 { e.2 with bridgeConfirmed := true }
      some ({ s with windows := windows },
        if e.2.bridgeConfirmed then .idle else .readingBridge [])
  | _ => none

/-- `update_conflict_ui_ready`: the windows are looked at only if the capability is ready. -/
def updateStep (s : BridgeShared) : BridgeLocal → Option (BridgeShared × BridgeLocal)
  | .readingBridge todo =>
    if s.bridgeReady then some (s, .readingWindows s.past.length todo)
    else some (s, .storingFlag false ⟨s.past.length, none⟩ todo)
  | .readingWindows bridgeAt todo =>
    some (s, .storingFlag s.view.confirmed ⟨bridgeAt, some s.past.length⟩ todo)
  | .storingFlag ready reads todo =>
    some ({ s with conflictUiReady := ready, flagFrom := some reads },
      .storingQueue ready reads todo)
  | .storingQueue ready reads todo =>
    some ({ s with queueUiReady := ready, queueFrom := some reads }, .registering todo)
  | _ => none

/-- What a thread does, without the record of the past. -/
def bridgeCore (order : WindowOrder) (action : BridgeAction) (s : BridgeShared) (l : BridgeLocal) :
    Option (BridgeShared × BridgeLocal) :=
  match l, action with
  | .idle, action => start s action
  | .calling _ _ todo, .outOfMemory => some (s, .registering todo)
  | l, .next =>
    (hookStep order s l).or ((registerStep s l).or ((confirmStep s l).or (updateStep s l)))
  | _, _ => none

/-- One atomic step of a thread. -/
def bridgeStep (order : WindowOrder) (action : BridgeAction) (s : BridgeShared) (l : BridgeLocal) :
    Option (BridgeShared × BridgeLocal) :=
  (bridgeCore order action s l).map fun out => ({ out.1 with past := s.past ++ [s.view] }, out.2)

def bridgeThreads (order : WindowOrder) : Threads Nat BridgeShared BridgeLocal BridgeAction :=
  ⟨fun _ => bridgeStep order⟩

/-- The system after some actions. -/
def bridgeAfter (order : WindowOrder) (actions : List (Nat × BridgeAction)) :
    System Nat BridgeShared BridgeLocal :=
  (bridgeThreads order).run ⟨.init, fun _ => .idle⟩ actions

end VaporForge.Ui
