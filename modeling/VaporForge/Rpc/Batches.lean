import Mathlib.Data.List.Sort
import Mathlib.Data.List.Dedup
import VaporForge.Journal.Store
import VaporForge.Lib.Assoc
import VaporForge.Lib.Effect
import VaporForge.Rpc.Settings

/-!
# The upload batches of the RPC adapter

The part of `AdapterState` of `cloud-rpc/src/adapter.rs` that the upload handlers share: the
batch each app has open, the batches by id, and the transfer targets that were handed to
Steam. A handler is an `Effect` on it, so that what it wrote before an error stays written.
-/

namespace VaporForge.Rpc

open VaporForge.CloudCore
open VaporForge.Journal (Queued ConflictResolutionEvent)
open VaporForge.Local (CommitIdentity StagedFile)
open Lib

/-- `if c { return Err(AdapterError::Protocol(message)) }`. -/
def refuseIf (c : Prop) [Decidable c] (message : String) : Result Unit :=
  if c then throw (.protocol message) else return ()

theorem refuseIf_ok {c : Prop} [Decidable c] {message : String} {u : Unit}
    (h : refuseIf c message = .ok u) : ¬c := by
  unfold refuseIf at h
  split at h
  · cases h
  · assumption

theorem Result.bind_ok {α β : Type} {x : Result α} {f : α → Result β} {b : β}
    (h : x >>= f = .ok b) : ∃ a, x = .ok a ∧ f a = .ok b := by
  cases x with
  | ok a => exact ⟨a, rfl, h⟩
  | error e => cases h

/-- One batch. A storage operation is named by its number in the store. -/
structure BatchState where
  appId : Nat
  uploadPaths : List String
  deletePaths : List String
  files : Assoc String String
  localFiles : Assoc String StagedFile
  localOperation : Option Nat
  localIdentity : Option CommitIdentity
  conflictResolution : Option (Queued ConflictResolutionEvent)

/-! ## Transfer targets -/

/-- `CloudStateScope`, which the settings determine. -/
structure CloudStateScope where
  credentialFingerprint : String
  steamId64 : Option Nat
  deriving DecidableEq, Repr

structure IssuedTransferTarget where
  scope : CloudStateScope
  authority : String
  path : String
  expiresAt : Nat
  deriving DecidableEq, Repr

namespace TransferTargetRegistry

def capacity : Nat := 4096

/-- Fifteen minutes, in milliseconds. -/
def ttl : Nat := 15 * 60 * 1000

def removeExpired (targets : List IssuedTransferTarget) (now : Nat) : List IssuedTransferTarget :=
  targets.dropWhile fun target => target.expiresAt ≤ now

def register (targets : List IssuedTransferTarget) (now : Nat) (scope : CloudStateScope)
    (authority path : String) : List IssuedTransferTarget :=
  let targets := removeExpired targets now
  let targets := if targets.length = capacity then targets.tail else targets
  targets ++ [⟨scope, toAsciiLowercase authority, path, now + ttl⟩]

end TransferTargetRegistry

/-! ## The adapter -/

structure AdapterState where
  scope : CloudStateScope
  activeBatches : Assoc Nat Nat
  batches : Assoc Nat BatchState
  transferTargets : List IssuedTransferTarget

/-- A handler: its writes survive its errors. -/
abbrev Handler := Effect AdapterState AdapterError

def findBatchId (state : AdapterState) (appId : Nat) (requested : Option Nat) : Result Nat := do
  match requested.or (state.activeBatches.lookup appId) with
  | none => throw (.protocol "no active upload batch")
  | some batchId =>
    match state.batches.lookup batchId with
    | none => throw (.protocol "unknown upload batch")
    | some batch =>
      if batch.appId ≠ appId then throw (.protocol "upload batch belongs to another app")
      else return batchId

end VaporForge.Rpc
