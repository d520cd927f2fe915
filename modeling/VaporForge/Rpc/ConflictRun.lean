import VaporForge.Rpc.Conflict

/-!
# Runs of the conflict coordinator

The coordinator with its resolver thread, driven by any interleaving of calls:
one `ConflictOp` is one critical section of a method, or one move of the
resolver, which may take its choices in any order. A run also remembers what the
state forgets: every token issued, with the key and the window it was issued
for, and every acknowledgement ever queued.
-/

namespace VaporForge.Rpc

open VaporForge.CloudCore
open VaporForge.Local (CommitIdentity StoreView)
open Lib (Assoc Arrangement)

structure Coordinator where
  state : ConflictState
  /-- The process-wide token sequence. -/
  sequence : Nat
  /-- Choices sent to the resolver. -/
  choices : List Choice
  /-- The choice the resolver is working on. -/
  working : Option Choice
  /-- Is the resolver thread still receiving? -/
  resolver : Bool

def Coordinator.initial : Coordinator := ⟨.initial, 1, [], none, true⟩

/-- `submit` as a whole: the choice goes to the resolver, if it still runs. -/
def Coordinator.submit (c : Coordinator) (token : String) (context : UiContext) :
    Coordinator × SubmitResult :=
  match Rpc.submit c.state token context with
  | (s, result, none) => ({ c with state := s }, result)
  | (s, result, some choice) =>
    if c.resolver then ({ c with state := s, choices := c.choices ++ [choice] }, result)
    else ({ c with state := s }, .stale)

theorem Coordinator.submit_state (c : Coordinator) (token : String) (context : UiContext) :
    (c.submit token context).1.state = (Rpc.submit c.state token context).1 := by
  unfold Coordinator.submit
  split
  · next hout => rw [hout]
  · next hout =>
    split
    · rw [hout]
    · rw [hout]

inductive ConflictOp where
  | register (settings : CloudSettings) (appId : Nat) (identity : CommitIdentity)
      (view : StoreView) (required : Bool) (minimumRevision : Nat)
  | armFirst (settings : CloudSettings) (key : ConflictKey) (identity : CommitIdentity)
      (view : StoreView) (minimumRevision : Nat)
  | armLast (key : ConflictKey)
  | dialogs (order : Arrangement (Sigma fun _ : ConflictKey => PendingConflict))
      (context : UiContext)
  | submit (token : String) (context : UiContext)
  | retryDialog (context : UiContext) (token : String)
  | retryContext (context : UiContext)
  | retainUiWindows (generations : List Nat)
  | cancelPending
  /-- The resolver receives a choice. -/
  | receive (index : Nat)
  /-- The resolver reports on the choice it worked on. -/
  | finish (result : Except String Unit)
  /-- The resolver thread ends. -/
  | stop

section Act

variable (D : Digests) (mint : TokenMint)

def Coordinator.act (c : Coordinator) : ConflictOp → Coordinator
  | .register settings appId identity view required minimumRevision =>
    { c with
      state := Rpc.register D c.state settings appId identity view required minimumRevision }
  | .armFirst settings key identity view minimumRevision =>
    { c with state := (Rpc.armFirst D c.state settings key identity view minimumRevision).1 }
  | .armLast key => { c with state := (Rpc.armLast c.state key).1 }
  | .dialogs order context =>
    let (s, sequence, _) := Rpc.dialogs mint order c.state c.sequence context
    { c with state := s, sequence }
  | .submit token context => (c.submit token context).1
  | .retryDialog context token => { c with state := (Rpc.retryDialog c.state context token).1 }
  | .retryContext context => { c with state := Rpc.retryContext c.state context }
  | .retainUiWindows generations => { c with state := Rpc.retainUiWindows c.state generations }
  | .cancelPending => { c with state := (Rpc.cancelPending c.state).1 }
  | .receive index =>
    match c.working, c.choices[index]? with
    | none, some choice => { c with choices := c.choices.eraseIdx index, working := some choice }
    | _, _ => c
  | .finish result =>
    match c.working with
    | some choice => { c with state := Rpc.finishChoice c.state choice result, working := none }
    | none => c
  | .stop => { c with choices := [], working := none, resolver := false }

/-! ## What a run remembers -/

/-- A token with the key and the window it was issued for. -/
structure Issued where
  token : String
  key : ConflictKey
  context : UiContext
  deriving DecidableEq, Repr

def issuedBy (context : UiContext) (dialog : ConflictDialog) : List Issued :=
  (dialog.cancelToken :: dialog.candidates.map (·.token)).map fun token =>
    ⟨token, (context.steamId64, dialog.appId), context⟩

/-- The tokens an operation issues. -/
def ConflictOp.issues (c : Coordinator) : ConflictOp → List Issued
  | .dialogs order context =>
    (Rpc.dialogs mint order c.state c.sequence context).2.2.flatMap (issuedBy context)
  | _ => []

/-- The acknowledgement an operation queues. -/
def ConflictOp.queues (c : Coordinator) : ConflictOp → List ConflictUiAck
  | .submit token context =>
    match c.state.bindings.lookup token with
    | some binding =>
      if binding.head = "" ∧ (Rpc.submit c.state token context).2.1 = .accepted then
        [cancelAck token binding.key]
      else []
    | none => []
  | .finish result =>
    match c.working with
    | some choice => if choice.Current c.state then [resolvedAck choice result] else []
    | none => []
  | _ => []

structure ConflictRun where
  coordinator : Coordinator
  issued : List Issued
  queued : List ConflictUiAck

def ConflictRun.initial : ConflictRun := ⟨.initial, [], []⟩

def ConflictRun.act (r : ConflictRun) (op : ConflictOp) : ConflictRun where
  coordinator := r.coordinator.act D mint op
  issued := r.issued ++ op.issues mint r.coordinator
  queued := r.queued ++ op.queues r.coordinator

def conflictRun (trace : List ConflictOp) : ConflictRun :=
  trace.foldl (ConflictRun.act D mint) .initial

theorem conflictRun_concat (trace : List ConflictOp) (op : ConflictOp) :
    conflictRun D mint (trace ++ [op]) = (conflictRun D mint trace).act D mint op := by
  rw [conflictRun, List.foldl_append, List.foldl_cons, List.foldl_nil, ← conflictRun]

end Act

end VaporForge.Rpc
