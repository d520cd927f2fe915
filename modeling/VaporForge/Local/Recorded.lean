import Mathlib.Logic.Encodable.Basic
import Mathlib.Logic.Equiv.List
import Mathlib.Tactic.DeriveEncodable
import VaporForge.Lib.Codec
import VaporForge.Lib.Maps
import VaporForge.Local.Folder

/-!
# Platforms from recorded values

A concrete history needs concrete digests. A `Recording` lists the manifests of the
history with the JSON text `serde_json` writes for them and its SHA-256, and the
blobs with their SHA-1. Its platform answers from the list, and has the round trip
for every other manifest too: those are written after a zero byte, with which no
JSON text begins.
-/

namespace VaporForge.Local

open VaporForge.CloudCore

def utf8Bytes (text : String) : Bytes := text.toByteArray.data.toList

/-- The decimal text of a number. -/
def decimal (n : Nat) : Bytes := (Nat.toDigits 10 n).map fun c => UInt8.ofNat c.toNat

instance encodableString : Encodable String :=
  Encodable.ofLeftInverse (fun s => s.toList.map Char.toNat)
    (fun l => String.ofList (l.map Char.ofNat)) fun s => by
      simp [Function.comp_def, Char.ofNat_toNat]

deriving instance Encodable for StoredFile

instance encodableFiles : Encodable Files :=
  Encodable.ofLeftInverse Std.ExtTreeMap.toList (Lib.collect ∅) fun files => by
    refine Std.ExtTreeMap.ext_getElem? fun path => Option.ext fun file => ?_
    have hnd : (files.toList.map Prod.fst).Nodup := by
      rw [Std.ExtTreeMap.map_fst_toList_eq_keys]
      exact (Lib.keys_ascending files).imp ne_of_lt
    rw [Lib.getElem?_collect hnd fun _ _ => Std.ExtTreeMap.not_mem_empty,
      Std.ExtTreeMap.mem_toList_iff_getElem?_eq_some]
    simp

deriving instance Encodable for SaveManifest

/-- One manifest as it was written. -/
structure RecordedManifest where
  manifest : SaveManifest
  json : Bytes
  id : String

structure Recording where
  manifests : List RecordedManifest
  blobs : List (Bytes × String)
  distinct : manifests.Pairwise fun row row' => row.json ≠ row'.json
  text : ∀ row ∈ manifests, row.json.head? ≠ some 0

namespace Recording

variable (R : Recording)

def withJson (bytes : Bytes) : Option RecordedManifest :=
  R.manifests.find? fun row => row.json == bytes

def encode (m : SaveManifest) : Bytes :=
  match R.manifests.find? fun row => row.manifest == m with
  | some row => row.json
  | none => 0 :: List.replicate (Encodable.encode m) 0

def decode (bytes : Bytes) : Option SaveManifest :=
  match R.withJson bytes with
  | some row => some row.manifest
  | none =>
    match bytes with
    | 0 :: rest => Encodable.decode rest.length
    | _ => none

theorem withJson_eq_some {row : RecordedManifest} (hrow : row ∈ R.manifests) :
    R.withJson row.json = some row :=
  Lib.find?_of_distinct R.distinct hrow fun _ => beq_iff_eq

theorem decode_encode (m : SaveManifest) : R.decode (R.encode m) = some m := by
  unfold encode
  split
  next row hrow =>
    have hm : row.manifest = m := by simpa using List.find?_some hrow
    simp only [decode, R.withJson_eq_some (List.mem_of_find?_eq_some hrow), hm]
  next =>
    have hnone : R.withJson (0 :: List.replicate (Encodable.encode m) 0) = none := by
      refine List.find?_eq_none.mpr fun row hrow heq => R.text row hrow ?_
      rw [beq_iff_eq] at heq
      rw [heq]
      rfl
    simp [decode, hnone]

/-- The platform that answers from the recording. -/
def platform : Platform where
  sha1 bytes := ((R.blobs.find? fun blob => blob.1 == bytes).map Prod.snd).getD ""
  sha256 bytes := ((R.withJson bytes).map (·.id)).getD ""
  encodeManifest := R.encode
  decodeManifest := R.decode
  decode_encode := R.decode_encode

end Recording

/-! ## A recorded history

Four versions of one save file, each over the one before, from two devices. -/

/-- A version with one file. -/
structure SaveRow where
  revision : Nat
  parents : List String
  clientId : Nat
  machineName : String
  createdAtMs : Nat
  file : StoredFile
  id : String

namespace SaveRow

def manifest (row : SaveRow) : SaveManifest where
  steamId64 := "76561198000000001"
  appId := 480
  revision := row.revision
  parents := row.parents
  clientId := row.clientId
  machineName := row.machineName
  createdAtMs := row.createdAtMs
  files := .ofList [("save.dat", row.file)] compare

/-- The pieces of the text `serde_json::to_vec` writes for it, from the parents on. -/
def jsonPieces (row : SaveRow) : List Bytes :=
  [utf8Bytes "\"parents\":[",
    (utf8Bytes ",").intercalate
      (row.parents.map fun id => utf8Bytes "\"" ++ utf8Bytes id ++ utf8Bytes "\""),
    utf8Bytes "],\"client_id\":", decimal row.clientId,
    utf8Bytes ",\"machine_name\":\"", utf8Bytes row.machineName,
    utf8Bytes "\",\"created_at_ms\":", decimal row.createdAtMs,
    utf8Bytes ",\"files\":\x7b\"save.dat\":\x7b\"sha1\":\"", utf8Bytes row.file.sha1,
    utf8Bytes "\",\"raw_size\":", decimal row.file.rawSize,
    utf8Bytes ",\"mtime\":", decimal row.file.mtime.toNat,
    utf8Bytes ",\"platforms_to_sync\":", decimal row.file.platformsToSync,
    utf8Bytes "\x7d\x7d\x7d"]

/-- The whole text; 123 is the opening brace and 44 the comma. -/
def json (row : SaveRow) : Bytes :=
  123 :: (utf8Bytes "\"steam_id64\":\"76561198000000001\",\"app_id\":480,\"revision\":" ++
    (decimal row.revision ++ 44 :: row.jsonPieces.flatten))

def recorded (row : SaveRow) : RecordedManifest := ⟨row.manifest, row.json, row.id⟩

end SaveRow

def firstId : String := "5e550ff18f7c362a188ebfc0242c117789c5da3b3f83e89c1abdd318f77eec13"
def secondId : String := "5429ca94de35ee427909e69b37589d2bd2680ccf130b6e8f39141899f89b099d"
def thirdId : String := "a0335c820131870a96903077b6da7918c3f3629ed5964f755e7e11e514392855"
def fourthId : String := "6a9079a3171290d95e53d19203417320f844c7ac95ae8037bc90f63351a347f8"

def savedFile (sha1 : String) (rawSize : Nat) (mtime : Int) : StoredFile :=
  ⟨sha1, rawSize, mtime, 4294967295⟩

def firstSave : StoredFile := savedFile "fe05bcdcdc4928012781a5f1a2a77cbb5398e106" 3 1
def secondSave : StoredFile := savedFile "ad782ecdac770fc6eb9a62e44f90873fb97fb26b" 3 2
def thirdSave : StoredFile := savedFile "b802f384302cb24fbab0a44997e820bf2e8507bb" 5 3
def fourthSave : StoredFile := savedFile "9f8f7eec5dea5ac43738721939c120318cbff1df" 4 4

def firstRow : SaveRow := ⟨1, [], 7, "deck", 1001, firstSave, firstId⟩
def secondRow : SaveRow := ⟨2, [firstId], 9, "desktop", 2000, secondSave, secondId⟩
def thirdRow : SaveRow := ⟨3, [secondId], 7, "deck", 3000, thirdSave, thirdId⟩
def fourthRow : SaveRow := ⟨4, [thirdId], 7, "deck", 4000, fourthSave, fourthId⟩

/-- The store both devices open. -/
def cloudStore : FolderStore := ⟨"/cloud", some "76561198000000001", 0⟩

def deck : CommitIdentity := ⟨7, "deck"⟩
def desktop : CommitIdentity := ⟨9, "desktop"⟩

def SaveRow.metadata (row : SaveRow) : FileMetadata :=
  ⟨row.file.sha1, row.file.rawSize, row.file.mtime, row.file.platformsToSync⟩

/-- What `stage_file` returns for the file of the version. -/
def SaveRow.staged (row : SaveRow) : StagedFile := ⟨"save.dat", row.file.sha1, row.metadata⟩

def fourVersions : Recording where
  manifests := [firstRow.recorded, secondRow.recorded, thirdRow.recorded, fourthRow.recorded]
  blobs := [(utf8Bytes "one", firstSave.sha1), (utf8Bytes "two", secondSave.sha1),
    (utf8Bytes "three", thirdSave.sha1), (utf8Bytes "four", fourthSave.sha1)]
  distinct := by decide +kernel
  text := by decide +kernel

end VaporForge.Local
