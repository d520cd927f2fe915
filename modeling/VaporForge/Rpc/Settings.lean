import VaporForge.Local.Manifest

/-!
# Settings and errors of the RPC adapter

The parts of `cloud-rpc/src/http.rs` and `local.rs` that every handler starts
from: the settings a request runs under and the error it may answer with. A protobuf
message arrives decoded; a field it may lack is an `Option`.
-/

namespace VaporForge.Rpc

open VaporForge.CloudCore

inductive AdapterError where
  | protocol (message : String)
  | backend (error : BackendError)
  | store (message : String)
  | client (message : String)
  deriving DecidableEq, Repr

abbrev Result := Except AdapterError

def required {α : Type} (value : Option α) (field : String) : Result α :=
  match value with
  | some value => return value
  | none => throw (.protocol s!"missing {field}")

structure SyncthingGcConfig where
  url : String
  apiKey : String
  folderId : String
  timeoutMs : Nat
  deriving DecidableEq, Repr

/-- The settings the local backend reads. -/
structure CloudSettings where
  localPath : String
  syncthing : Option SyncthingGcConfig
  steamClientId : Option Nat
  steamMachineName : Option String
  steamId64 : Option Nat
  deriving DecidableEq, Repr

/-! ## The scope of a conflict -/

/-- The digests taken from other crates. -/
structure Digests where
  sha256 : Bytes → Bytes
  credentialFingerprint : String → String → String

/-- `u64::to_le_bytes`. -/
def leBytes (n : Nat) : Bytes := (List.range 8).map fun i => UInt8.ofNat (n >>> (8 * i))

/-- `str::trim_end_matches` for one character. -/
def trimEndChar (s : String) (c : Char) : String :=
  String.ofList (s.toList.reverse.dropWhile (· == c)).reverse

def CloudSettings.syncthingFingerprint (D : Digests) (s : CloudSettings) : Option String :=
  s.syncthing.map fun settings =>
    D.credentialFingerprint (trimEndChar settings.url '/' ++ "/" ++ settings.folderId)
      settings.apiKey

/-- Two settings share a scope when they sync the same folder for the same
account and device through the same Syncthing instance. -/
def CloudSettings.conflictScope (D : Digests) (s : CloudSettings) : Bytes :=
  D.sha256 ("vapor-local-cloud-conflict\x00".toUTF8.toList ++ (trim s.localPath).toUTF8.toList ++
    [0] ++ leBytes (s.steamId64.getD 0) ++ leBytes (s.steamClientId.getD 0) ++
    ((s.syncthingFingerprint D).getD "").toUTF8.toList)

end VaporForge.Rpc
