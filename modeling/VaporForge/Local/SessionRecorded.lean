import Mathlib.Data.List.Sublists
import VaporForge.Local.Recorded
import VaporForge.Local.SessionLaunch

/-!
# Session records as they were written

Concrete session folders for the results about `launch_session` and its companions:
the claims and overrides of two devices with the JSON text `serde_json` writes for them
and its SHA-256. As in `Recorded`, every other record is written after a zero byte, with
which no JSON text begins, and long enough that dropping ids never makes a text longer.
-/

namespace VaporForge.Local

open VaporForge.CloudCore

/-! ## A codec from recorded texts -/

structure RecordedTexts (α : Type) where
  rows : List (α × Bytes)
  distinct : rows.Pairwise fun row row' => row.2 ≠ row'.2
  text : ∀ row ∈ rows, row.2.head? ≠ some 0

namespace RecordedTexts

variable {α : Type} [DecidableEq α] (R : RecordedTexts α) (pad : Nat) (code : α → Nat)
  (uncode : Nat → Option α)

def encode (a : α) : Bytes :=
  match R.rows.find? fun row => row.1 == a with
  | some row => row.2
  | none => 0 :: List.replicate (pad + code a) 0

def decode (bytes : Bytes) : Option α :=
  match R.rows.find? fun row => row.2 == bytes with
  | some row => some row.1
  | none =>
    match bytes with
    | 0 :: rest => (uncode (rest.length - pad)).filter fun a => rest.length == pad + code a
    | _ => none

variable {R pad code uncode}

omit [DecidableEq α] in
theorem find?_text {row : α × Bytes} (hrow : row ∈ R.rows) :
    (R.rows.find? fun other => other.2 == row.2) = some row :=
  Lib.find?_of_distinct R.distinct hrow fun _ => beq_iff_eq

theorem decode_encode (hcode : ∀ a, uncode (code a) = some a) (a : α) :
    R.decode pad code uncode (R.encode pad code a) = some a := by
  unfold encode
  split
  next row hrow =>
    have hsame : row.1 = a := by simpa using List.find?_some hrow
    simp only [decode, find?_text (List.mem_of_find?_eq_some hrow), hsame]
  next =>
    have hnone : (R.rows.find? fun row => row.2 == 0 :: List.replicate (pad + code a) 0) = none := by
      refine List.find?_eq_none.mpr fun row hrow heq => R.text row hrow ?_
      rw [beq_iff_eq] at heq
      rw [heq]
      rfl
    simp [decode, hnone, hcode]

omit [DecidableEq α] in
/-- What a text that reads was written for. -/
theorem decode_eq_some {bytes : Bytes} {a : α} (h : R.decode pad code uncode bytes = some a) :
    (a, bytes) ∈ R.rows ∨ bytes.length = pad + code a + 1 := by
  unfold decode at h
  split at h
  next row hrow =>
    have hsame : row.2 = bytes := by simpa using List.find?_some hrow
    obtain rfl := Option.some.inj h
    exact .inl (hsame ▸ List.mem_of_find?_eq_some hrow)
  next =>
    split at h
    next rest =>
      have hlength := (Option.filter_eq_some_iff.mp h).2
      rw [beq_iff_eq] at hlength
      exact .inr (by rw [List.length_cons, hlength])
    next => cases h

/-- The text of a value is recorded or made up. -/
theorem encode_cases (R : RecordedTexts α) (pad : Nat) (code : α → Nat) (a : α) :
    (a, R.encode pad code a) ∈ R.rows ∨ (R.encode pad code a).length = pad + code a + 1 := by
  unfold encode
  split
  next row hrow =>
    have hsame : row.1 = a := by simpa using List.find?_some hrow
    exact .inl (hsame ▸ List.mem_of_find?_eq_some hrow)
  next => exact .inr (by simp)

end RecordedTexts

/-! ## Codes for the records nobody wrote -/

deriving instance Encodable for SessionStatus
deriving instance Encodable for SessionClaim

def overrideCode (record : SessionOverride) : Nat :=
  Nat.pair record.appId (Nat.pair record.clientId (Encodable.encode record.supersededClaims))

def overrideOf (code : Nat) : Option SessionOverride :=
  (Encodable.decode code.unpair.2.unpair.2 : Option (List String)).map fun ids =>
    ⟨code.unpair.1, code.unpair.2.unpair.1, ids⟩

theorem overrideOf_overrideCode (record : SessionOverride) :
    overrideOf (overrideCode record) = some record := by
  simp [overrideOf, overrideCode, Encodable.encodek]

theorem pair_le_pair_right (a : Nat) {b b' : Nat} (h : b ≤ b') : Nat.pair a b ≤ Nat.pair a b' := by
  rcases Nat.lt_or_eq_of_le h with hlt | rfl
  · exact Nat.le_of_lt (Nat.pair_lt_pair_right a hlt)
  · exact Nat.le_refl _

/-- Fewer ids have a smaller code. -/
theorem encode_le_of_sublist {ids ids' : List String} (h : ids.Sublist ids') :
    Encodable.encode ids ≤ Encodable.encode ids' := by
  induction h with
  | slnil => exact Nat.le_refl _
  | cons a _ ih =>
    rw [Encodable.encode_list_cons a]
    exact Nat.le_trans ih (Nat.le_trans (Nat.right_le_pair _ _) (Nat.le_succ _))
  | cons_cons a _ ih =>
    rw [Encodable.encode_list_cons, Encodable.encode_list_cons]
    exact Nat.succ_le_succ (pair_le_pair_right _ ih)

theorem overrideCode_le {record : SessionOverride} {ids : List String}
    (h : ids.Sublist record.supersededClaims) :
    overrideCode { record with supersededClaims := ids } ≤ overrideCode record :=
  pair_le_pair_right _ (pair_le_pair_right _ (encode_le_of_sublist h))

/-- The session records of a history. -/
structure SessionRecording where
  claims : RecordedTexts SessionClaim
  overrides : RecordedTexts SessionOverride
  short : ∀ row ∈ overrides.rows, row.2.length ≤ 4096
  /-- Whatever is dropped from a recorded override, the rest is recorded and shorter. -/
  shrinks : ∀ row ∈ overrides.rows, ∀ ids ∈ row.1.supersededClaims.sublists,
    (overrides.encode 4096 overrideCode { row.1 with supersededClaims := ids }).length ≤
      row.2.length

namespace SessionRecording

variable (R : SessionRecording)

theorem encodeOverride_le (bytes : Bytes) (record : SessionOverride)
    (h : R.overrides.decode 4096 overrideCode overrideOf bytes = some record) (ids : List String)
    (hids : ids.Sublist record.supersededClaims) :
    (R.overrides.encode 4096 overrideCode { record with supersededClaims := ids }).length ≤
      bytes.length := by
  rcases RecordedTexts.decode_eq_some h with hrow | hlength
  · exact R.shrinks _ hrow ids (List.mem_sublists.mpr hids)
  · have hcode := overrideCode_le hids
    rcases R.overrides.encode_cases 4096 overrideCode
      { record with supersededClaims := ids } with hrow | hencoded
    · have hshort := R.short _ hrow
      dsimp only at hshort
      omega
    · omega

def codec : SessionCodec where
  encodeClaim := R.claims.encode 0 Encodable.encode
  decodeClaim := R.claims.decode 0 Encodable.encode Encodable.decode
  encodeOverride := R.overrides.encode 4096 overrideCode
  decodeOverride := R.overrides.decode 4096 overrideCode overrideOf
  decode_encodeClaim := RecordedTexts.decode_encode Encodable.encodek
  decode_encodeOverride := RecordedTexts.decode_encode overrideOf_overrideCode
  encodeOverride_le := R.encodeOverride_le

end SessionRecording

/-! ## Two devices

The desktop starts the game, the deck starts it too and ignores the desktop's session. -/

def desktopClaim : SessionClaim :=
  ⟨480, 9, "desktop", none, none, .active, [], 100, "2a-186a0-1"⟩
def deckClaim : SessionClaim := ⟨480, 7, "deck", none, none, .active, [], 200, "3b-30d40-1"⟩

def desktopClaimId : String := "f72f1f8a01afbdc9f3324cc82aafc3f117f9c68d828cc6bda1210ec45162aa60"
def deckClaimId : String := "794bede9740b3258fc54ed881192645591cfb713339d915844268c6cebfbfead"

/-- The text of a claim without heads; 123 and 125 are the braces. -/
def claimJson (claim : SessionClaim) (status : String) : Bytes :=
  123 :: ([utf8Bytes "\"app_id\":480,\"client_id\":", decimal claim.clientId,
    utf8Bytes ",\"machine_name\":\"", utf8Bytes claim.machineName,
    utf8Bytes "\",\"os_type\":null,\"device_type\":null,\"status\":\"", utf8Bytes status,
    utf8Bytes "\",\"observed_heads\":[],\"updated_at\":", decimal claim.updatedAt,
    utf8Bytes ",\"nonce\":\"", utf8Bytes claim.nonce, utf8Bytes "\""].flatten ++ [125])

def overrideJson (clientId : Nat) (ids : List String) : Bytes :=
  123 :: ([utf8Bytes "\"app_id\":480,\"client_id\":", decimal clientId,
    utf8Bytes ",\"superseded_claims\":[",
    (utf8Bytes ",").intercalate (ids.map fun id => utf8Bytes "\"" ++ utf8Bytes id ++ utf8Bytes "\""),
    utf8Bytes "]"].flatten ++ [125])

def twoSessions : SessionRecording where
  claims := {
    rows := [(desktopClaim, claimJson desktopClaim "active"),
      (deckClaim, claimJson deckClaim "active")]
    distinct := by decide +kernel
    text := by decide +kernel }
  overrides := {
    rows := [(⟨480, 7, [desktopClaimId]⟩, overrideJson 7 [desktopClaimId]),
      (⟨480, 7, []⟩, overrideJson 7 [])]
    distinct := by decide +kernel
    text := by decide +kernel }
  short := by decide +kernel
  shrinks := by decide +kernel

/-- The digests of the two claims, next to those of the recorded manifests. -/
def sessionPlatform : Platform :=
  { fourVersions.platform with
    sha256 := fun bytes =>
      if bytes = claimJson desktopClaim "active" then desktopClaimId
      else if bytes = claimJson deckClaim "active" then deckClaimId
      else fourVersions.platform.sha256 bytes }

/-- The desktop plays; the app's manifests are still on their way. -/
def desktopPlays : SessionFolder :=
  ⟨AppDir.empty.put "9.json" (.file (claimJson desktopClaim "active")), .empty⟩

def incompleteApp : AppDir := AppDir.empty.put firstId (.dir [])

/-- The content of a file. -/
def AppDir.contents (dir : AppDir) (name : String) : Option Bytes :=
  match dir.find name with
  | some (.file bytes) => some bytes
  | _ => none

def deckLaunch : Except BackendError (List SessionPeer) × SessionFolder :=
  launchSession sessionPlatform twoSessions.codec cloudStore 480 incompleteApp deck none none true
    200 "3b-30d40-1" desktopPlays

theorem deckLaunch_evaluates :
    deckLaunch.1 = .error (incomplete "local cloud manifest directory is incomplete") ∧
    deckLaunch.2.overrides.contents "7.json" = some (overrideJson 7 [desktopClaimId]) ∧
    desktopPlays.overrides.contents "7.json" = none := by
  decide +kernel

end VaporForge.Local
