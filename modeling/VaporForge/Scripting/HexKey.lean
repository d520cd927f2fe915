import VaporForge.Lib.Utf8
import VaporForge.Scripting.Bindings

/-!
# Hexadecimal arguments of scripts

`parse_hex_key` of `scripting/src/bindings.rs` decodes the keys and tickets that scripts pass.
It cuts the text every two bytes and gives each piece to `u8::from_str_radix`. Neither is made
for text that a script chooses: a cut may fall inside a character, which aborts the process,
and `from_str_radix` takes a sign.

> The decoder is exact on a text unless an even number of bytes is cut inside a character
> after accepted pairs, or every pair is accepted and one begins with `+`
> (`parse_hex_key_exact_iff`).

`RuntimeState.parseHexKey` pairs characters; where the process lives on it is the same
(`parseHexKeyBytes_cases`).
-/

namespace VaporForge.Scripting

open Lib Patterns

/-- `collect` of one more byte. -/
def withByte (byte : UInt8) : Ran (Option (List UInt8)) → Ran (Option (List UInt8))
  | .returned bytes => .returned (bytes.map (byte :: ·))
  | .aborted => .aborted

/-- The pairs that are left, where the text from the current byte on is `text`. -/
def decodePairs : Nat → List Char → Ran (Option (List UInt8))
  | 0, _ => .returned (some [])
  | pairs + 1, text =>
    match splitAtByte text 2 with
    | none => .aborted
    | some (pair, rest) =>
      match u8FromHex pair with
      | none => .returned none
      | some byte => withByte byte (decodePairs pairs rest)

/-- `parse_hex_key`, by bytes. -/
def parseHexKeyBytes (hex : String) : Ran (Option (List UInt8)) :=
  if Lib.byteLen hex.toList % 2 ≠ 0 then .returned none
  else decodePairs (Lib.byteLen hex.toList / 2) hex.toList

/-! ## Exactness -/

def IsHexDigit (c : Char) : Prop := (hexDigit c).isSome

def hexChar (n : Nat) : Char := "0123456789abcdef".toList.getD n '0'

def hexEncode (bytes : List UInt8) : List Char :=
  bytes.flatMap fun byte => [hexChar (byte.toNat / 16), hexChar (byte.toNat % 16)]

def HexText (text : List Char) : Prop := text.length % 2 = 0 ∧ ∀ c ∈ text, IsHexDigit c

/-- The call returns. It returns bytes for hexadecimal text only, and these are its bytes. -/
def DecodedExactly (hex : String) : Prop :=
  match parseHexKeyBytes hex with
  | .aborted => False
  | .returned none => ¬HexText hex.toList
  | .returned (some bytes) =>
    HexText hex.toList ∧ hexEncode bytes = hex.toList.map Char.toLower

/-- No script function stores anything for the text. -/
def NothingStored (hex : String) : Prop :=
  ∀ (order : WalkOrder) (state : RuntimeState) (id : Nat),
    state.call order (.setAppTicket id hex) = state ∧
    state.call order (.setETicket id hex) = state ∧
    state.call order (.addAppId id (some hex)) = state.call order (.addAppId id none)

/-! ## What goes wrong -/

/-- The pairs of characters that `u8::from_str_radix` accepts. -/
def AcceptedPair (a b : Char) : Prop := (a = '+' ∨ IsHexDigit a) ∧ IsHexDigit b

inductive Accepted : List Char → Prop
  | nil : Accepted []
  | pair {a b : Char} {rest : List Char} : AcceptedPair a b → Accepted rest →
      Accepted (a :: b :: rest)

/-- After accepted pairs a cut falls inside a character. -/
inductive Cut : List Char → Prop
  | wide {c : Char} {rest : List Char} : 3 ≤ c.utf8Size → Cut (c :: rest)
  | straddled {c d : Char} {rest : List Char} : c.utf8Size = 1 → 2 ≤ d.utf8Size →
      Cut (c :: d :: rest)
  | pair {a b : Char} {rest : List Char} : AcceptedPair a b → Cut rest → Cut (a :: b :: rest)

/-! ## Digits -/

variable {c a b : Char} {rest : List Char}

theorem hexDigit_spec {d : Nat} (h : hexDigit c = some d) :
    c.utf8Size = 1 ∧ d < 16 ∧ hexChar d = c.toLower ∧ c ≠ '+' := by
  have hascii : c.toNat < 128 := by
    simp only [hexDigit, Char.le_def, UInt32.le_iff_toNat_le] at h
    have hf : 'f'.val.toNat = 102 := rfl
    have hF : 'F'.val.toNat = 70 := rfl
    have h9 : '9'.val.toNat = 57 := rfl
    show c.val.toNat < 128
    split at h
    · omega
    · split at h
      · omega
      · split at h
        · omega
        · exact nomatch h
  -- The digits are among the first 128 characters; each is looked at.
  have hall : ∀ n < 128, ∀ d ∈ hexDigit (Char.ofNat n), (Char.ofNat n).utf8Size = 1 ∧ d < 16 ∧
      hexChar d = (Char.ofNat n).toLower ∧ Char.ofNat n ≠ '+' := by
    decide +kernel
  have hc := hall c.toNat hascii
  rw [Char.ofNat_toNat] at hc
  exact hc d h

theorem IsHexDigit.spec (h : IsHexDigit c) :
    ∃ d, hexDigit c = some d ∧ c.utf8Size = 1 ∧ d < 16 ∧ hexChar d = c.toLower ∧ c ≠ '+' := by
  obtain ⟨d, hd⟩ := Option.isSome_iff_exists.mp h
  exact ⟨d, hd, hexDigit_spec hd⟩

theorem AcceptedPair.utf8Size (h : AcceptedPair a b) : a.utf8Size = 1 ∧ b.utf8Size = 1 := by
  obtain ⟨ha, hb⟩ := h
  obtain ⟨_, _, hsize, _⟩ := hb.spec
  refine ⟨?_, hsize⟩
  obtain rfl | ha := ha
  · rfl
  · obtain ⟨_, _, hsize, _⟩ := ha.spec
    exact hsize

theorem pushHexDigit_zero (c : Char) : pushHexDigit 0 c = hexDigit c := by
  cases hc : hexDigit c with
  | none => simp [pushHexDigit, hc]
  | some d =>
    have hlt := (hexDigit_spec hc).2.1
    simp [pushHexDigit, hc, show d < 256 by omega]

theorem u8FromHex_signed (b : Char) : u8FromHex ['+', b] = (hexDigit b).map UInt8.ofNat := by
  simp [u8FromHex, pushHexDigit_zero]

theorem u8FromHex_digits (b : Char) (ha : a ≠ '+') :
    u8FromHex [a, b] = (hexDigit a).bind fun high =>
      (hexDigit b).map fun low => UInt8.ofNat (high * 16 + low) := by
  have hdef : u8FromHex [a, b] = ([a, b].foldlM pushHexDigit 0).map UInt8.ofNat := by
    rw [u8FromHex]
    · intro h
      exact nomatch h
    · intro h
      exact ha (List.cons.inj h).1
    · intro _ h
      exact ha (List.cons.inj h).1
  rw [hdef]
  cases hhigh : hexDigit a with
  | none => simp [pushHexDigit_zero, hhigh]
  | some high =>
    have hlt := (hexDigit_spec hhigh).2.1
    cases hlow : hexDigit b with
    | none => simp [pushHexDigit, hhigh, hlow]
    | some low =>
      have hlt' := (hexDigit_spec hlow).2.1
      simp [pushHexDigit, hhigh, hlow, show high < 256 by omega,
        show high * 16 + low < 256 by omega]

theorem u8FromHex_eq_none (h : ¬AcceptedPair a b) : u8FromHex [a, b] = none := by
  by_cases hsign : a = '+'
  · subst hsign
    have hb : hexDigit b = none := by
      rw [← Option.not_isSome_iff_eq_none]
      exact fun hb => h ⟨.inl rfl, hb⟩
    rw [u8FromHex_signed, hb, Option.map_none]
  · rw [u8FromHex_digits b hsign]
    cases hhigh : hexDigit a with
    | none => rfl
    | some high =>
      have hb : hexDigit b = none := by
        rw [← Option.not_isSome_iff_eq_none]
        exact fun hb => h ⟨.inr (Option.isSome_of_mem hhigh), hb⟩
      rw [hb, Option.bind_some, Option.map_none]

/-- An accepted pair is a byte, which is written as the pair when that has no sign. -/
theorem AcceptedPair.byte (h : AcceptedPair a b) :
    ∃ byte, u8FromHex [a, b] = some byte ∧
      (a ≠ '+' → hexEncode [byte] = [a.toLower, b.toLower]) := by
  obtain ⟨ha, hb⟩ := h
  obtain ⟨low, hlow, _, hlowLt, hlowChar, _⟩ := hb.spec
  obtain rfl | ha := ha
  · exact ⟨_, by rw [u8FromHex_signed, hlow, Option.map_some], fun h => absurd rfl h⟩
  · obtain ⟨high, hhigh, _, hhighLt, hhighChar, hsign⟩ := ha.spec
    refine ⟨UInt8.ofNat (high * 16 + low), ?_, fun _ => ?_⟩
    · rw [u8FromHex_digits b hsign, hhigh, hlow, Option.bind_some, Option.map_some]
    · have hvalue : (UInt8.ofNat (high * 16 + low)).toNat = high * 16 + low := by
        rw [UInt8.toNat_ofNat']
        omega
      have hdiv : (high * 16 + low) / 16 = high := by omega
      have hmod : (high * 16 + low) % 16 = low := by omega
      simp only [hexEncode, List.flatMap_cons, List.flatMap_nil, List.append_nil, hvalue, hdiv,
        hmod, hhighChar, hlowChar]

theorem u8FromHex_wide (h : c.utf8Size ≠ 1) : u8FromHex [c] = none := by
  have hsign : c ≠ '+' := by
    intro hc
    subst hc
    exact h rfl
  have hdigit : hexDigit c = none := by
    cases hc : hexDigit c with
    | none => rfl
    | some d => exact absurd (hexDigit_spec hc).1 h
  have hdef : u8FromHex [c] = ([c].foldlM pushHexDigit 0).map UInt8.ofNat := by
    rw [u8FromHex]
    · intro hnil
      exact nomatch hnil
    · intro hc
      exact hsign (List.cons.inj hc).1
    · intro _ hc
      exact hsign (List.cons.inj hc).1
  simp [hdef, pushHexDigit, hdigit]

/-! ## The pairs of a text -/

/-- The bytes of the pairs of characters, as `RuntimeState.parseHexKey` has them. -/
theorem parseHexKey_pair (a b : Char) (rest : List Char) :
    RuntimeState.parseHexKey (String.ofList (a :: b :: rest)) =
      (u8FromHex [a, b]).bind fun byte =>
        (RuntimeState.parseHexKey (String.ofList rest)).map (byte :: ·) := by
  simp only [RuntimeState.parseHexKey, String.toList_ofList, RuntimeState.hexPairs]
  cases RuntimeState.hexPairs rest with
  | none => cases u8FromHex [a, b] <;> rfl
  | some pairs =>
    cases hbyte : u8FromHex [a, b] with
    | none => simp [hbyte]
    | some byte => simp [hbyte, Option.map_eq_bind]

/-- What the pairs that are left can end in. -/
inductive PairsRead (text : List Char) : Ran (Option (List UInt8)) → Prop
  | aborted : Cut text → PairsRead text .aborted
  | refused : ¬Cut text → ¬Accepted text →
      RuntimeState.parseHexKey (String.ofList text) = none → PairsRead text (.returned none)
  | read {bytes : List UInt8} : ¬Cut text → Accepted text →
      RuntimeState.parseHexKey (String.ofList text) = some bytes →
      ('+' ∉ text → hexEncode bytes = text.map Char.toLower) →
      PairsRead text (.returned (some bytes))

theorem not_cut_pair (ha : a.utf8Size = 1) (hb : b.utf8Size = 1) (h : ¬AcceptedPair a b ∨ ¬Cut rest) :
    ¬Cut (a :: b :: rest) := by
  intro hcut
  cases hcut with
  | wide hwide => omega
  | straddled _ hwide => omega
  | pair hpair hrest => exact h.elim (absurd hpair) (absurd hrest)

theorem not_accepted_pair (h : ¬AcceptedPair a b ∨ ¬Accepted rest) :
    ¬Accepted (a :: b :: rest) := by
  intro haccepted
  cases haccepted with
  | pair hpair hrest => exact h.elim (absurd hpair) (absurd hrest)

/-- A text of accepted pairs is not refused by the model that pairs characters, and only such
a text is read by it. -/
theorem accepted_of_parseHexKey {bytes : List UInt8} : ∀ (text : List Char),
    RuntimeState.parseHexKey (String.ofList text) = some bytes → Accepted text
  | [], _ => .nil
  | [c], h => by
    simp [RuntimeState.parseHexKey, RuntimeState.hexPairs] at h
  | a :: b :: rest, h => by
    rw [parseHexKey_pair] at h
    obtain ⟨byte, hbyte, h⟩ := Option.bind_eq_some_iff.mp h
    obtain ⟨more, hmore, _⟩ := Option.map_eq_some_iff.mp h
    have hpair : AcceptedPair a b := by
      by_contra hrefused
      rw [u8FromHex_eq_none hrefused] at hbyte
      exact nomatch hbyte
    exact .pair hpair (accepted_of_parseHexKey rest hmore)

/-- A refusal needs a text that is not all accepted pairs. -/
theorem PairsRead.refuse {text : List Char} (hcut : ¬Cut text) (h : ¬Accepted text) :
    PairsRead text (.returned none) := by
  refine .refused hcut h ?_
  cases hparse : RuntimeState.parseHexKey (String.ofList text) with
  | none => rfl
  | some bytes => exact absurd (accepted_of_parseHexKey text hparse) h

theorem PairsRead.cons {byte : UInt8} (hpair : AcceptedPair a b)
    (hbyte : u8FromHex [a, b] = some byte)
    (hencode : a ≠ '+' → hexEncode [byte] = [a.toLower, b.toLower])
    {outcome : Ran (Option (List UInt8))} (h : PairsRead rest outcome) :
    PairsRead (a :: b :: rest) (withByte byte outcome) := by
  obtain ⟨ha, hb⟩ := hpair.utf8Size
  cases h with
  | aborted hcut => exact .aborted (.pair hpair hcut)
  | refused hcut hrest _ =>
    exact .refuse (not_cut_pair ha hb (.inr hcut)) (not_accepted_pair (.inr hrest))
  | @read bytes hcut hrest hparse hwritten =>
    refine .read (not_cut_pair ha hb (.inr hcut)) (.pair hpair hrest) ?_ ?_
    · rw [parseHexKey_pair, hbyte, Option.bind_some, hparse, Option.map_some]
    · intro hsign
      have hfirst : a ≠ '+' := fun h => hsign (h ▸ List.mem_cons_self)
      have hothers : '+' ∉ rest := fun h => hsign (.tail _ (.tail _ h))
      show hexEncode ([byte] ++ bytes) = _
      rw [hexEncode, List.flatMap_append, ← hexEncode, ← hexEncode, hencode hfirst,
        hwritten hothers]
      rfl

theorem decodePairs_cases : ∀ (pairs : Nat) (text : List Char), Lib.byteLen text = 2 * pairs →
    PairsRead text (decodePairs pairs text)
  | 0, [], _ => .read (fun h => nomatch h) .nil rfl fun _ => rfl
  | 0, c :: text, h => by
    have := c.utf8Size_pos
    rw [byteLen_cons] at h
    omega
  | _ + 1, [], h => by
    rw [byteLen_nil] at h
    omega
  | pairs + 1, c :: text, h => by
    have hpos := c.utf8Size_pos
    rw [byteLen_cons] at h
    rw [decodePairs, splitAtByte_cons c text (by omega)]
    -- by the width of the first character
    by_cases hwide : 3 ≤ c.utf8Size
    · rw [if_neg (by omega)]
      exact .aborted (.wide hwide)
    by_cases htwo : c.utf8Size = 2
    · rw [if_pos (by omega), htwo, Nat.sub_self, splitAtByte_zero, Option.map_some]
      simp only [u8FromHex_wide (show c.utf8Size ≠ 1 by omega)]
      refine .refuse (fun hcut => ?_) (fun haccepted => ?_)
      · cases hcut with
        | wide h3 => omega
        | straddled h1 _ => omega
        | pair hpair _ => exact absurd hpair.utf8Size.1 (by omega)
      · cases haccepted with
        | pair hpair _ => exact absurd hpair.utf8Size.1 (by omega)
    have hone : c.utf8Size = 1 := by omega
    cases text with
    | nil =>
      rw [byteLen_nil] at h
      omega
    | cons d rest =>
      have hpos' := d.utf8Size_pos
      rw [byteLen_cons] at h
      rw [if_pos (by omega), hone, splitAtByte_cons d rest (by omega)]
      by_cases hwide' : 2 ≤ d.utf8Size
      · rw [if_neg (by omega)]
        exact .aborted (.straddled hone hwide')
      have hone' : d.utf8Size = 1 := by omega
      rw [if_pos (by omega), hone', Nat.sub_self, splitAtByte_zero]
      by_cases hpair : AcceptedPair c d
      · obtain ⟨byte, hbyte, hencode⟩ := hpair.byte
        simp only [Option.map_some, hbyte]
        exact .cons hpair hbyte hencode (decodePairs_cases pairs rest (by omega))
      · simp only [Option.map_some, u8FromHex_eq_none hpair]
        exact .refuse (not_cut_pair hone hone' (.inl hpair)) (not_accepted_pair (.inl hpair))

/-! ## Whole texts -/

theorem Accepted.byteLen {text : List Char} (h : Accepted text) :
    Lib.byteLen text % 2 = 0 ∧ text.length % 2 = 0 := by
  induction h with
  | nil => exact ⟨rfl, rfl⟩
  | pair hpair _ ih =>
    obtain ⟨ha, hb⟩ := hpair.utf8Size
    simp only [byteLen_cons, List.length_cons]
    omega

/-- Hexadecimal text is accepted pairs without a sign. -/
theorem hexText_iff : ∀ text : List Char, HexText text ↔ Accepted text ∧ '+' ∉ text
  | [] => by simp [HexText, Accepted.nil]
  | [c] => by
    refine ⟨fun h => absurd h.1 (by simp), fun h => nomatch h.1⟩
  | a :: b :: rest => by
    have ih := hexText_iff rest
    constructor
    · intro h
      have ha : IsHexDigit a := h.2 a List.mem_cons_self
      have hb : IsHexDigit b := h.2 b (.tail _ List.mem_cons_self)
      have hlen := h.1
      simp only [List.length_cons] at hlen
      have hrest : HexText rest := ⟨by omega, fun c hc => h.2 c (.tail _ (.tail _ hc))⟩
      obtain ⟨haccepted, hsign⟩ := ih.mp hrest
      refine ⟨.pair ⟨.inr ha, hb⟩ haccepted, ?_⟩
      obtain ⟨_, _, _, _, _, hasign⟩ := ha.spec
      obtain ⟨_, _, _, _, _, hbsign⟩ := hb.spec
      simp only [List.mem_cons, not_or]
      exact ⟨hasign.symm, hbsign.symm, hsign⟩
    · intro h
      obtain ⟨haccepted, hsign⟩ := h
      simp only [List.mem_cons, not_or] at hsign
      obtain ⟨hasign, _, hsign⟩ := hsign
      refine ⟨haccepted.byteLen.2, ?_⟩
      cases haccepted with
      | pair hpair hrest =>
        have hdigits := (ih.mpr ⟨hrest, hsign⟩).2
        have ha : IsHexDigit a := hpair.1.resolve_left (Ne.symm hasign)
        simpa only [List.forall_mem_cons] using ⟨ha, hpair.2, hdigits⟩

/-- What the call can end in, with the model that pairs characters beside it. -/
theorem parseHexKeyBytes_cases (hex : String) :
    (Lib.byteLen hex.toList % 2 = 0 ∧ PairsRead hex.toList (parseHexKeyBytes hex)) ∨
      (Lib.byteLen hex.toList % 2 ≠ 0 ∧ parseHexKeyBytes hex = .returned none ∧
        ¬Accepted hex.toList) := by
  by_cases heven : Lib.byteLen hex.toList % 2 = 0
  · refine .inl ⟨heven, ?_⟩
    rw [parseHexKeyBytes, if_neg (not_not.mpr heven)]
    exact decodePairs_cases _ _ (by omega)
  · exact .inr ⟨heven, if_pos heven, fun h => heven h.byteLen.1⟩

theorem nothingStored_of_not_accepted {hex : String} (h : ¬Accepted hex.toList) :
    NothingStored hex := by
  have hnone : RuntimeState.parseHexKey hex = none := by
    cases hparse : RuntimeState.parseHexKey hex with
    | none => rfl
    | some bytes =>
      rw [← String.ofList_toList (s := hex)] at hparse
      exact absurd (accepted_of_parseHexKey _ hparse) h
  intro order state id
  simp only [RuntimeState.call, RuntimeState.setDepotKey, hnone, ite_self, and_self]

/-- The decoder is exact, and what it refuses is not stored, except on the texts named. -/
theorem parse_hex_key_exact_iff (hex : String) :
    (DecodedExactly hex ∧ (¬HexText hex.toList → NothingStored hex)) ↔
      ¬(Lib.byteLen hex.toList % 2 = 0 ∧ Cut hex.toList) ∧
      ¬(Accepted hex.toList ∧ '+' ∈ hex.toList) := by
  rw [DecodedExactly, hexText_iff]
  obtain ⟨heven, hread⟩ | ⟨hodd, hrun, hrefused⟩ := parseHexKeyBytes_cases hex
  · generalize parseHexKeyBytes hex = outcome at hread
    cases hread with
    | aborted hcut => exact ⟨fun h => h.1.elim, fun h => absurd ⟨heven, hcut⟩ h.1⟩
    | refused hcut hrefused _ =>
      exact ⟨fun _ => ⟨fun h => hcut h.2, fun h => hrefused h.1⟩,
        fun _ => ⟨fun h => hrefused h.1, fun _ => nothingStored_of_not_accepted hrefused⟩⟩
    | read hcut haccepted _ hwritten =>
      constructor
      · intro h
        exact ⟨fun h' => hcut h'.2, fun h' => h.1.1.2 h'.2⟩
      · intro h
        have hsign : '+' ∉ hex.toList := fun hsign => h.2 ⟨haccepted, hsign⟩
        exact ⟨⟨⟨haccepted, hsign⟩, hwritten hsign⟩, fun h => absurd ⟨haccepted, hsign⟩ h⟩
  · rw [hrun]
    exact ⟨fun _ => ⟨fun h => hodd h.1, fun h => hrefused h.1⟩,
      fun _ => ⟨fun h => hrefused h.1, fun _ => nothingStored_of_not_accepted hrefused⟩⟩

/-- A key that ends the process, and one that is no hexadecimal number and is read as one. -/
theorem euro_sign_aborts : parseHexKeyBytes "€a" = .aborted ∧ ¬DecodedExactly "€a" ∧
    parseHexKeyBytes "+f" = .returned (some [0x0f]) ∧ ¬HexText "+f".toList := by
  have habort : parseHexKeyBytes "€a" = .aborted := by decide +kernel
  refine ⟨habort, ?_, by decide +kernel, fun h => ?_⟩
  · rw [DecodedExactly, habort]
    exact id
  · have hsign : (hexDigit '+').isSome := h.2 '+' (by decide)
    exact absurd hsign (by decide)

end VaporForge.Scripting
