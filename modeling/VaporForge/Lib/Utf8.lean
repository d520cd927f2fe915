import Mathlib.Data.List.Basic
import Mathlib.Algebra.Ring.Nat

/-!
# Text by byte positions

Strings of many languages are UTF-8 and are cut at byte positions, where a position inside a
character is an error. Here a text is its characters, `byteLen` is its length in bytes, and
`splitAtByte` cuts at a position when it is a boundary.
-/

namespace Lib

/-- A call that returns, or that ends the process. -/
inductive Ran (α : Type) where
  | returned (value : α)
  | aborted
  deriving DecidableEq, Repr

def Ran.map {α β : Type} (f : α → β) : Ran α → Ran β
  | .returned value => .returned (f value)
  | .aborted => .aborted

def byteLen (text : List Char) : Nat := (text.map Char.utf8Size).sum

@[simp] theorem byteLen_nil : byteLen [] = 0 := rfl

@[simp] theorem byteLen_cons (c : Char) (text : List Char) :
    byteLen (c :: text) = c.utf8Size + byteLen text := by
  simp only [byteLen, List.map_cons, List.sum_cons]

@[simp] theorem byteLen_append (a b : List Char) : byteLen (a ++ b) = byteLen a + byteLen b := by
  simp only [byteLen, List.map_append, List.sum_append]

/-- The text before and the text from a byte position on, when it is a boundary. -/
def splitAtByte : List Char → Nat → Option (List Char × List Char)
  | text, 0 => some ([], text)
  | [], _ + 1 => none
  | c :: text, n + 1 =>
    if c.utf8Size ≤ n + 1 then
      (splitAtByte text (n + 1 - c.utf8Size)).map fun halves => (c :: halves.1, halves.2)
    else none

@[simp] theorem splitAtByte_zero (text : List Char) : splitAtByte text 0 = some ([], text) := by
  cases text <;> rfl

theorem splitAtByte_cons (c : Char) (text : List Char) {n : Nat} (hn : n ≠ 0) :
    splitAtByte (c :: text) n =
      if c.utf8Size ≤ n then
        (splitAtByte text (n - c.utf8Size)).map fun halves => (c :: halves.1, halves.2)
      else none := by
  cases n with
  | zero => exact absurd rfl hn
  | succ n => rfl

/-- A text is cut where its first part ends. -/
@[simp] theorem splitAtByte_append (a b : List Char) :
    splitAtByte (a ++ b) (byteLen a) = some (a, b) := by
  induction a with
  | nil => exact splitAtByte_zero b
  | cons c a ih =>
    have hsize := c.utf8Size_pos
    rw [List.cons_append, byteLen_cons, splitAtByte_cons c _ (by omega), if_pos (by omega),
      Nat.add_sub_cancel_left, ih, Option.map_some]

/-! ## The bytes of a text -/

def utf8Bytes (text : List Char) : List UInt8 := text.flatMap String.utf8EncodeChar

@[simp] theorem utf8Bytes_append (a b : List Char) :
    utf8Bytes (a ++ b) = utf8Bytes a ++ utf8Bytes b := List.flatMap_append

@[simp] theorem utf8Bytes_cons (c : Char) (text : List Char) :
    utf8Bytes (c :: text) = String.utf8EncodeChar c ++ utf8Bytes text := rfl

@[simp] theorem length_utf8Bytes (text : List Char) :
    (utf8Bytes text).length = byteLen text := by
  induction text with
  | nil => rfl
  | cons c text ih =>
    rw [utf8Bytes_cons, List.length_append, ih, String.length_utf8EncodeChar, byteLen_cons]

theorem utf8EncodeChar_ascii {c : Char} (h : c.toNat < 0x80) :
    String.utf8EncodeChar c = [UInt8.ofNat c.toNat] := by
  have hle : c.val.toNat ≤ 0x7f := Nat.le_of_lt_succ h
  rw [String.utf8EncodeChar]
  exact if_pos hle

/-- No byte of a wider character is an ASCII byte. -/
theorem le_of_mem_utf8EncodeChar {c : Char} (h : 0x80 ≤ c.toNat) {byte : UInt8}
    (hbyte : byte ∈ String.utf8EncodeChar c) : 0x80 ≤ byte.toNat := by
  have hgt : ¬c.val.toNat ≤ 0x7f := Nat.not_le_of_gt h
  simp only [String.utf8EncodeChar, if_neg hgt] at hbyte
  split at hbyte
  · simp only [List.mem_cons, List.not_mem_nil, or_false] at hbyte
    obtain rfl | rfl := hbyte <;> (rw [UInt8.toNat_ofNat']; omega)
  · split at hbyte
    · simp only [List.mem_cons, List.not_mem_nil, or_false] at hbyte
      obtain rfl | rfl | rfl := hbyte <;> (rw [UInt8.toNat_ofNat']; omega)
    · simp only [List.mem_cons, List.not_mem_nil, or_false] at hbyte
      obtain rfl | rfl | rfl | rfl := hbyte <;> (rw [UInt8.toNat_ofNat']; omega)

/-- A position is a boundary, or it lies inside a character. -/
theorem splitAtByte_cases : ∀ (text : List Char) (n : Nat), n ≤ byteLen text →
    (∃ a b, splitAtByte text n = some (a, b) ∧ text = a ++ b ∧ byteLen a = n) ∨
    (splitAtByte text n = none ∧ ∃ a c b k, text = a ++ c :: b ∧ 0 < k ∧ k < c.utf8Size ∧
      n = byteLen a + k)
  | text, 0, _ => .inl ⟨[], text, splitAtByte_zero text, rfl, rfl⟩
  | [], n + 1, h => absurd h (by simp)
  | c :: text, n + 1, h => by
    rw [byteLen_cons] at h
    rw [splitAtByte]
    split
    · next hle =>
      obtain ⟨a, b, hsplit, rfl, hlen⟩ | ⟨hsplit, a, d, b, k, rfl, hpos, hlt, hn⟩ :=
        splitAtByte_cases text (n + 1 - c.utf8Size) (by omega)
      · refine .inl ⟨c :: a, b, by rw [hsplit, Option.map_some], rfl, ?_⟩
        rw [byteLen_cons]
        omega
      · refine .inr ⟨by rw [hsplit, Option.map_none], c :: a, d, b, k, rfl, hpos, hlt, ?_⟩
        rw [byteLen_cons]
        omega
    · next hlt =>
      exact .inr ⟨rfl, [], c, text, n + 1, rfl, by omega, by omega, by rw [byteLen_nil, Nat.zero_add]⟩

/-! ## Decoding with replacement characters -/

/-- No character is written as the beginning of another. -/
theorem utf8EncodeChar_append_inj {c d : Char} {r r' : List UInt8}
    (h : String.utf8EncodeChar c ++ r = String.utf8EncodeChar d ++ r') : c = d ∧ r = r' := by
  have hc := ByteArray.utf8DecodeChar?_utf8EncodeChar_append (c := c) (b := r.toByteArray)
  have hd := ByteArray.utf8DecodeChar?_utf8EncodeChar_append (c := d) (b := r'.toByteArray)
  rw [← List.toByteArray_append, h, List.toByteArray_append, hd] at hc
  obtain rfl := Option.some.inj hc
  exact ⟨rfl, List.append_cancel_left h⟩

/-- The bytes of a text, and then a character that is cut short, or nothing. -/
def CutText (text : List Char) (tail bytes : List UInt8) : Prop :=
  bytes = utf8Bytes text ++ tail ∧
    (tail = [] ∨ ∃ c k, 0 < k ∧ k < Char.utf8Size c ∧ tail = (String.utf8EncodeChar c).take k)

theorem CutText.no_char {tail r : List UInt8} {d : Char} (h : tail = [] ∨
    ∃ c k, 0 < k ∧ k < Char.utf8Size c ∧ tail = (String.utf8EncodeChar c).take k) :
    tail ≠ String.utf8EncodeChar d ++ r := by
  intro heq
  have hlen := congrArg List.length heq
  rw [List.length_append, String.length_utf8EncodeChar] at hlen
  have hpos := d.utf8Size_pos
  obtain rfl | ⟨c, k, _, hlt, rfl⟩ := h
  · simp only [List.length_nil] at hlen
    omega
  · -- with the bytes that were cut off it would be two characters at once
    have hwhole : String.utf8EncodeChar c ++ [] =
        String.utf8EncodeChar d ++ (r ++ (String.utf8EncodeChar c).drop k) := by
      rw [← List.append_assoc, ← heq, List.take_append_drop, List.append_nil]
    obtain ⟨rfl, _⟩ := utf8EncodeChar_append_inj hwhole
    rw [List.length_take, String.length_utf8EncodeChar] at hlen
    omega

theorem CutText.unique {bytes : List UInt8} : ∀ {text text' : List Char} {tail tail' : List UInt8},
    CutText text tail bytes → CutText text' tail' bytes → text = text' ∧ tail = tail'
  | [], [], _, _, h, h' => ⟨rfl, List.append_cancel_left (h.1.symm.trans h'.1)⟩
  | c :: text, [], tail, tail', h, h' => by
    have heq : tail' = String.utf8EncodeChar c ++ (utf8Bytes text ++ tail) := by
      rw [← List.append_assoc]
      exact h'.1.symm.trans h.1
    exact absurd heq (CutText.no_char h'.2)
  | [], c :: text, tail, tail', h, h' => by
    have heq : tail = String.utf8EncodeChar c ++ (utf8Bytes text ++ tail') := by
      rw [← List.append_assoc]
      exact h.1.symm.trans h'.1
    exact absurd heq (CutText.no_char h.2)
  | c :: text, d :: text', tail, tail', h, h' => by
    have heq := h.1.symm.trans h'.1
    rw [utf8Bytes_cons, utf8Bytes_cons, List.append_assoc, List.append_assoc] at heq
    obtain ⟨rfl, hrest⟩ := utf8EncodeChar_append_inj heq
    obtain ⟨rfl, htail⟩ := CutText.unique ⟨hrest.symm, h.2⟩ ⟨rfl, h'.2⟩
    exact ⟨rfl, htail⟩

/-- A decoder that puts U+FFFD where bytes are no text. Only this is known of it: text is read
back, and one character that is cut short at the end becomes one U+FFFD. -/
structure LossyDecoder where
  decode : List UInt8 → List Char
  valid : ∀ text, decode (utf8Bytes text) = text
  cut : ∀ text c k, 0 < k → k < Char.utf8Size c →
    decode (utf8Bytes text ++ (String.utf8EncodeChar c).take k) = text ++ ['\uFFFD']

open Classical in
/-- There is such a decoder. -/
noncomputable def LossyDecoder.ofTexts : LossyDecoder where
  decode bytes :=
    if h : ∃ text tail, CutText text tail bytes then
      h.choose ++ if h.choose_spec.choose = [] then [] else ['\uFFFD']
    else ['\uFFFD']
  valid text := by
    have h : ∃ text' tail, CutText text' tail (utf8Bytes text) :=
      ⟨text, [], (List.append_nil _).symm, .inl rfl⟩
    obtain ⟨htext, htail⟩ := CutText.unique h.choose_spec.choose_spec
      ⟨(List.append_nil _).symm, .inl rfl⟩
    rw [dif_pos h, htail, if_pos rfl, htext, List.append_nil]
  cut text c k hpos hlt := by
    have hne : (String.utf8EncodeChar c).take k ≠ [] := by
      apply List.ne_nil_of_length_pos
      rw [List.length_take, String.length_utf8EncodeChar]
      omega
    have hcut : CutText text _ (utf8Bytes text ++ (String.utf8EncodeChar c).take k) :=
      ⟨rfl, .inr ⟨c, k, hpos, hlt, rfl⟩⟩
    have h : ∃ text' tail, CutText text' tail
        (utf8Bytes text ++ (String.utf8EncodeChar c).take k) := ⟨text, _, hcut⟩
    obtain ⟨htext, htail⟩ := CutText.unique h.choose_spec.choose_spec hcut
    rw [dif_pos h, htail, if_neg hne, htext]

end Lib
