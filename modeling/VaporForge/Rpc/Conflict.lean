import Mathlib.Data.Finset.Basic
import Mathlib.Data.Finset.Filter
import VaporForge.Lib.Assoc
import VaporForge.Local.Folder
import VaporForge.Rpc.Settings

/-!
# The conflict coordinator

`LocalConflictCoordinator` of `cloud-rpc/src/conflict_ui.rs`. A changelist or a
launch request that meets unresolved heads registers a pending conflict; each UI
window is shown one dialog per conflict, whose buttons carry one-time tokens; a
submitted token becomes a `Choice` for the resolver thread, which commits it to
the folder and reports back through `finish_choice`.

Every method holds the state lock for one critical section, except that `arm`
holds it twice around a call of `register`: its sections are separate
definitions, so that other calls can run between them. Tokens come from a
`TokenMint`, a digest over a process-wide sequence number.
-/

namespace VaporForge.Rpc

open VaporForge.CloudCore
open VaporForge.Local (CommitIdentity ManifestCandidate StoreView)
open Lib (Assoc Arrangement)

/-- `(steam_id64, app_id)`. -/
abbrev ConflictKey := Nat × Nat

structure UiContext where
  steamId64 : Nat
  identityGeneration : Nat
  connectionGeneration : Nat
  windowGeneration : Nat
  cloudScope : Bytes
  deriving DecidableEq, Repr

structure ConflictDialogCandidate where
  token : String
  revision : Nat
  machineName : String
  createdAtMs : Nat
  fileCount : Nat
  totalBytes : Nat
  fileNames : List String
  isLocal : Bool
  deriving DecidableEq, Repr

structure ConflictDialog where
  appId : Nat
  cancelToken : String
  candidates : List ConflictDialogCandidate
  deriving DecidableEq, Repr

structure ConflictUiAck where
  token : String
  appId : Nat
  accepted : Bool
  error : String
  resumeLaunch : Bool
  cancelLaunch : Bool
  deriving DecidableEq, Repr

inductive SubmitResult where
  | accepted
  | unknown
  | stale
  deriving DecidableEq, Repr

structure PendingConflict where
  settings : CloudSettings
  identity : CommitIdentity
  heads : List String
  candidates : List ManifestCandidate
  resolving : Bool
  armed : Bool
  minimumRevision : Nat
  cloudScope : Bytes
  deriving DecidableEq, Repr

/-- What a token stands for. The empty head is the cancel button. -/
structure Binding where
  key : ConflictKey
  head : String
  context : UiContext
  deriving DecidableEq, Repr

structure Choice where
  key : ConflictKey
  head : String
  token : String
  context : UiContext
  epoch : UInt64
  pending : PendingConflict
  deriving DecidableEq, Repr

structure PendingAck where
  context : UiContext
  ack : ConflictUiAck
  sent : Bool
  deriving DecidableEq, Repr

structure ConflictState where
  epoch : UInt64
  pending : Assoc ConflictKey PendingConflict
  presented : Finset (ConflictKey × UiContext)
  bindings : Assoc String Binding
  acks : List PendingAck

def ConflictState.initial : ConflictState := ⟨0, ∅, ∅, ∅, []⟩

/-- `next_token`: a digest over the sequence number, the key, the label and the
context. -/
abbrev TokenMint := Nat → ConflictKey → String → UiContext → String

/-! ## Registering and arming -/

def discardKeyBindings (s : ConflictState) (key : ConflictKey) : ConflictState :=
  { s with
    bindings := s.bindings.retain fun _ binding => binding.key != key
    presented := s.presented.filter fun shown => shown.1 ≠ key }

/-- The comparison both `register` and `arm` make before they keep an entry. -/
def PendingConflict.Same (p : PendingConflict) (heads : List String) (identity : CommitIdentity)
    (cloudScope : Bytes) : Prop :=
  p.heads = heads ∧ p.identity = identity ∧ p.cloudScope = cloudScope

instance (p : PendingConflict) (heads : List String) (identity : CommitIdentity)
    (cloudScope : Bytes) : Decidable (p.Same heads identity cloudScope) :=
  inferInstanceAs (Decidable (_ ∧ _ ∧ _))

def CloudSettings.account (settings : CloudSettings) : Option Nat :=
  settings.steamId64.filter (· != 0)

/-- The `required` half of `register`. An entry that would only be replaced by
itself keeps its flags and its dialogs. -/
def registerRequired (D : Digests) (s : ConflictState) (settings : CloudSettings)
    (key : ConflictKey) (identity : CommitIdentity) (view : StoreView) (minimumRevision : Nat) :
    ConflictState :=
  let pending : PendingConflict :=
    { settings, identity
      heads := view.headIds
      candidates := view.heads
      resolving := false
      armed := (s.pending.lookup key).any (·.armed)
      minimumRevision
      cloudScope := settings.conflictScope D }
  match s.pending.lookup key with
  | some current =>
    if current.Same pending.heads pending.identity pending.cloudScope then
      { s with
        pending := s.pending.insert key
          { current with minimumRevision := max current.minimumRevision minimumRevision } }
    else discardKeyBindings { s with pending := s.pending.insert key pending } key
  | none => discardKeyBindings { s with pending := s.pending.insert key pending } key

def register (D : Digests) (s : ConflictState) (settings : CloudSettings) (appId : Nat)
    (identity : CommitIdentity) (view : StoreView) (required : Bool) (minimumRevision : Nat) :
    ConflictState :=
  match settings.account with
  | none => s
  | some steamId64 =>
    if required then
      registerRequired D s settings (steamId64, appId) identity view minimumRevision
    else
      discardKeyBindings { s with pending := s.pending.erase (steamId64, appId) }
        (steamId64, appId)

/-- The first critical section of `arm`: an entry for the same heads, identity
and scope is armed where it is. -/
def armFirst (D : Digests) (s : ConflictState) (settings : CloudSettings) (key : ConflictKey)
    (identity : CommitIdentity) (view : StoreView) (minimumRevision : Nat) :
    ConflictState × Bool :=
  match s.pending.lookup key with
  | some pending =>
    if pending.Same view.headIds identity (settings.conflictScope D) then
      ({ s with
          pending := s.pending.insert key
            { pending with
              minimumRevision := max pending.minimumRevision minimumRevision
              armed := true } }, true)
    else (s, false)
  | none => (s, false)

/-- The second critical section of `arm`, after it registered the conflict. -/
def armLast (s : ConflictState) (key : ConflictKey) : ConflictState × Bool :=
  match s.pending.lookup key with
  | some pending =>
    ({ s with pending := s.pending.insert key { pending with armed := true } }, true)
  | none => (s, false)

def arm (D : Digests) (s : ConflictState) (settings : CloudSettings) (appId : Nat)
    (identity : CommitIdentity) (view : StoreView) (required : Bool) (minimumRevision : Nat) :
    ConflictState × Bool :=
  match settings.account with
  | none => (s, false)
  | some steamId64 =>
    match armFirst D s settings (steamId64, appId) identity view minimumRevision with
    | (s, true) => (s, true)
    | (s, false) =>
      if required then
        armLast (register D s settings appId identity view true minimumRevision) (steamId64, appId)
      else (s, false)

/-! ## Dialogs -/

/-- The loop over the candidates: one binding and one button each. -/
def bindCandidates (mint : TokenMint) (key : ConflictKey) (context : UiContext)
    (identity : CommitIdentity) :
    List ManifestCandidate → Assoc String Binding → Nat →
      List ConflictDialogCandidate × Assoc String Binding × Nat
  | [], bindings, sequence => ([], bindings, sequence)
  | candidate :: rest, bindings, sequence =>
    let token := mint sequence key candidate.id context
    let (shown, bindings, sequence) := bindCandidates mint key context identity rest
      (bindings.insert token ⟨key, candidate.id, context⟩) (sequence + 1)
    ({ token
       revision := candidate.revision
       machineName := candidate.machineName
       createdAtMs := candidate.createdAtMs
       fileCount := candidate.fileCount
       totalBytes := candidate.totalBytes
       fileNames := candidate.fileNames
       isLocal := candidate.clientId == identity.clientId } :: shown, bindings, sequence)

/-- The body of the loop over the keys, with the state, the token sequence and
the dialogs made so far. -/
def presentKey (mint : TokenMint) (context : UiContext)
    (acc : ConflictState × Nat × List ConflictDialog) (key : ConflictKey) :
    ConflictState × Nat × List ConflictDialog :=
  let (s, sequence, shown) := acc
  if (key, context) ∈ s.presented then acc
  else
    match s.pending.lookup key with
    | none => acc
    | some pending =>
      let (candidates, bindings, sequence) :=
        bindCandidates mint key context pending.identity pending.candidates s.bindings sequence
      let cancelToken := mint sequence key "cancel" context
      ({ s with
          bindings := bindings.insert cancelToken ⟨key, "", context⟩
          presented := insert (key, context) s.presented },
        sequence + 1, shown ++ [⟨key.2, cancelToken, candidates⟩])

def dialogKeys (order : Arrangement (Sigma fun _ : ConflictKey => PendingConflict))
    (s : ConflictState) (context : UiContext) : List ConflictKey :=
  ((order.arrange s.pending.entries).filter fun entry =>
    entry.1.1 == context.steamId64 && entry.2.cloudScope == context.cloudScope &&
      entry.2.armed && !entry.2.resolving).map (·.1)

def dialogs (mint : TokenMint)
    (order : Arrangement (Sigma fun _ : ConflictKey => PendingConflict)) (s : ConflictState)
    (sequence : Nat) (context : UiContext) : ConflictState × Nat × List ConflictDialog :=
  if context.steamId64 = 0 ∨ context.windowGeneration = 0 then (s, sequence, [])
  else (dialogKeys order s context).foldl (presentKey mint context) (s, sequence, [])

/-! ## Choices -/

def cancelAck (token : String) (key : ConflictKey) : ConflictUiAck :=
  { token, appId := key.2, accepted := true, error := "", resumeLaunch := false,
    cancelLaunch := true }

/-- `submit`, up to handing the choice to the resolver. -/
def submit (s : ConflictState) (token : String) (context : UiContext) :
    ConflictState × SubmitResult × Option Choice :=
  match s.bindings.lookup token with
  | none => (s, .unknown, none)
  | some binding =>
    if binding.context ≠ context ∨ binding.key.1 ≠ context.steamId64 then
      if binding.context.steamId64 = context.steamId64 ∧
          binding.context.cloudScope ≠ context.cloudScope then
        (discardKeyBindings { s with pending := s.pending.erase binding.key } binding.key,
          .stale, none)
      else (s, .stale, none)
    else if binding.head = "" then
      let s := discardKeyBindings { s with pending := s.pending.erase binding.key } binding.key
      ({ s with acks := s.acks ++ [⟨context, cancelAck token binding.key, false⟩] },
        .accepted, none)
    else
      match s.pending.lookup binding.key with
      | none => (s, .stale, none)
      | some pending =>
        if pending.resolving ∨ pending.heads = [] then (s, .stale, none)
        else
          let pending := { pending with resolving := true }
          (discardKeyBindings { s with pending := s.pending.insert binding.key pending }
              binding.key, .accepted,
            some ⟨binding.key, binding.head, token, context, s.epoch, pending⟩)

def retryDialog (s : ConflictState) (context : UiContext) (token : String) :
    ConflictState × Bool :=
  match (s.bindings.lookup token).filter fun b => b.context = context ∧ b.head = "" with
  | none => (s, false)
  | some binding =>
    ({ s with
        presented := s.presented.erase (binding.key, context)
        bindings := s.bindings.retain fun _ current =>
          current.key != binding.key || current.context != context },
      (binding.key, context) ∈ s.presented)

def retryContext (s : ConflictState) (context : UiContext) : ConflictState :=
  { s with
    bindings := s.bindings.retain fun _ binding => binding.context != context
    presented := s.presented.filter fun shown => shown.2 ≠ context }

def retainUiWindows (s : ConflictState) (generations : List Nat) : ConflictState :=
  { s with
    bindings := s.bindings.retain fun _ binding =>
      generations.contains binding.context.windowGeneration
    presented := s.presented.filter fun shown => shown.2.windowGeneration ∈ generations
    acks := s.acks.map fun pending =>
      if pending.context.windowGeneration ∈ generations then pending
      else
        { pending with
          context := { pending.context with windowGeneration := 0 }
          sent := false } }

def cancelPending (s : ConflictState) : ConflictState × Bool :=
  ({ epoch := s.epoch + 1, pending := ∅, presented := ∅, bindings := ∅, acks := [] },
    !s.pending.entries.isEmpty)

/-- Is the choice still about the conflict that is pending? -/
def Choice.Current (choice : Choice) (s : ConflictState) : Prop :=
  s.epoch = choice.epoch ∧ ∃ pending, s.pending.lookup choice.key = some pending ∧
    pending.heads = choice.pending.heads ∧ pending.identity = choice.pending.identity

def Choice.isCurrent (choice : Choice) (s : ConflictState) : Bool :=
  s.epoch = choice.epoch && (s.pending.lookup choice.key).any fun pending =>
    pending.heads = choice.pending.heads && pending.identity = choice.pending.identity

theorem Choice.isCurrent_iff (choice : Choice) (s : ConflictState) :
    choice.isCurrent s = true ↔ choice.Current s := by
  simp only [isCurrent, Current, Bool.and_eq_true, decide_eq_true_eq, Option.any_eq_true]

instance (choice : Choice) (s : ConflictState) : Decidable (choice.Current s) :=
  decidable_of_iff _ (choice.isCurrent_iff s)

/-- What the resolver's outcome is answered with. -/
def resolvedAck (choice : Choice) : Except String Unit → ConflictUiAck
  | .ok () =>
    { token := choice.token, appId := choice.key.2, accepted := true, error := "",
      resumeLaunch := true, cancelLaunch := false }
  | .error _ =>
    { token := choice.token, appId := choice.key.2, accepted := false, error := "save_failed",
      resumeLaunch := false, cancelLaunch := false }

def finishChoice (s : ConflictState) (choice : Choice) (result : Except String Unit) :
    ConflictState :=
  if choice.Current s then
    let s := match result with
      | .ok () => discardKeyBindings { s with pending := s.pending.erase choice.key } choice.key
      | .error _ =>
        { s with
          pending := s.pending.adjust choice.key fun pending => { pending with resolving := false }
          presented := s.presented.filter fun shown => shown.1 ≠ choice.key }
    { s with acks := s.acks ++ [⟨choice.context, resolvedAck choice result, false⟩] }
  else s

end VaporForge.Rpc
