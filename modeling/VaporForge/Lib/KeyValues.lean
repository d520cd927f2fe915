import Mathlib.Algebra.Group.Nat.Defs
import Mathlib.Data.List.Basic

/-!
# Binary KeyValues

A tree of named values in the binary KeyValues format. An entry is a tag, a name that ends
with a zero byte, and a payload; a section is an entry whose payload is its own entries up
to an end tag. What the leaves are, and how their payload is written, is left to the user
of the format (`Format`).

Siblings are one inductive type (`Forest`), so that an induction has a case for the first
entry being a leaf and one for it being a section, each with the rest.
-/

namespace Lib

/-! ## Reading at a position -/

section Position

variable {data tail : List UInt8} {pos : Nat} {b : UInt8}

/-- The position is inside where something is left to read. -/
theorem lt_of_drop (h : data.drop pos = b :: tail) : pos < data.length := by
  by_contra hle
  rw [List.drop_eq_nil_of_le (Nat.le_of_not_lt hle)] at h
  cases h

theorem get_of_drop (h : data.drop pos = b :: tail) : data.get ⟨pos, lt_of_drop h⟩ = b := by
  have hcons := List.drop_eq_getElem_cons (lt_of_drop h)
  rw [h] at hcons
  exact (List.cons.inj hcons).1.symm

theorem drop_add {front : List UInt8} (h : data.drop pos = front ++ tail) :
    data.drop (pos + front.length) = tail := by
  rw [← List.drop_drop, h, List.drop_left]

theorem drop_succ (h : data.drop pos = b :: tail) : data.drop (pos + 1) = tail :=
  drop_add (show data.drop pos = [b] ++ tail from h)

end Position

/-! ## Texts -/

def textBytes (text : String) : List UInt8 := text.toByteArray.data.toList

/-- The text, if the bytes are UTF-8. -/
def decodeText (bytes : List UInt8) : Option String := String.fromUTF8? ⟨bytes.toArray⟩

theorem decodeText_textBytes (text : String) : decodeText (textBytes text) = some text := by
  unfold decodeText String.fromUTF8?
  exact dif_pos text.isValidUTF8

def NulFree (text : String) : Prop := (0 : UInt8) ∉ textBytes text

/-- A text and the zero byte after it. -/
def cstr (text : String) : List UInt8 := textBytes text ++ [0]

/-- The first zero byte of a text without one is the byte after it. -/
theorem findIdx?_cstr {text : String} (h : NulFree text) (tail : List UInt8) :
    (cstr text ++ tail).findIdx? (· == 0) = some (textBytes text).length := by
  have hnone : (textBytes text).findIdx? (· == 0) = none := by
    rw [List.findIdx?_eq_none_iff]
    intro b hb
    rw [beq_eq_false_iff_ne]
    exact fun heq => h (heq ▸ hb)
  rw [cstr, List.append_assoc, List.findIdx?_append, hnone, List.singleton_append,
    List.findIdx?_cons]
  simp

theorem take_cstr (text : String) (tail : List UInt8) :
    (cstr text ++ tail).take (textBytes text).length = textBytes text := by
  rw [cstr, List.append_assoc, List.take_left]

/-! ## Numbers -/

/-- The low `width` bytes of a number, least significant first. -/
def leBytes : Nat → Nat → List UInt8
  | 0, _ => []
  | width + 1, n => UInt8.ofNat n :: leBytes width (n / 256)

def ofLeBytes : List UInt8 → Nat
  | [] => 0
  | b :: bytes => b.toNat + 256 * ofLeBytes bytes

theorem length_leBytes (width n : Nat) : (leBytes width n).length = width := by
  induction width generalizing n with
  | zero => rfl
  | succ width ih => exact congrArg Nat.succ (ih (n / 256))

theorem ofLeBytes_leBytes (width n : Nat) : ofLeBytes (leBytes width n) = n % 256 ^ width := by
  induction width generalizing n with
  | zero =>
    rw [Nat.pow_zero, Nat.mod_one]
    rfl
  | succ width ih =>
    have hpow : 256 ^ (width + 1) = 256 * 256 ^ width := Nat.pow_succ'
    rw [leBytes, ofLeBytes, ih, UInt8.toNat_ofNat', hpow, Nat.mod_mul]

/-- A bit vector from its bytes. -/
theorem ofNat_ofLeBytes {w : Nat} (width : Nat) (bits : BitVec w) (h : 2 ^ w = 256 ^ width) :
    BitVec.ofNat w (ofLeBytes (leBytes width bits.toNat)) = bits := by
  rw [ofLeBytes_leBytes, ← h, Nat.mod_eq_of_lt bits.isLt, BitVec.ofNat_toNat, BitVec.setWidth_eq]

/-! ## Trees -/

/-- Siblings, in order. -/
inductive Forest (σ : Type) where
  | nil
  | leaf (name : String) (value : σ) (rest : Forest σ)
  | node (name : String) (children rest : Forest σ)
  deriving DecidableEq, Repr

/-- How leaves are written. -/
structure Format (σ : Type) where
  tag : σ → UInt8
  payload : σ → List UInt8

namespace Forest

variable {σ : Type}

def sectionTag : UInt8 := 0
def endTag : UInt8 := 8

def encode (F : Format σ) : Forest σ → List UInt8
  | nil => []
  | leaf name value rest => F.tag value :: (cstr name ++ (F.payload value ++ encode F rest))
  | node name children rest =>
    sectionTag :: (cstr name ++ (encode F children ++ endTag :: encode F rest))

/-- One section with everything in it. -/
def encodeRoot (F : Format σ) (name : String) (children : Forest σ) : List UInt8 :=
  sectionTag :: (cstr name ++ (encode F children ++ [endTag]))

/-- The leaves among the siblings themselves. -/
def leaves : Forest σ → List (String × σ)
  | nil => []
  | leaf name value rest => (name, value) :: rest.leaves
  | node _ _ rest => rest.leaves

/-- All leaves, sections included, in the order they are written. -/
def allLeaves : Forest σ → List (String × σ)
  | nil => []
  | leaf name value rest => (name, value) :: rest.allLeaves
  | node _ children rest => children.allLeaves ++ rest.allLeaves

/-- The leaves below some section. -/
def nestedLeaves : Forest σ → List (String × σ)
  | nil => []
  | leaf _ _ rest => rest.nestedLeaves
  | node _ children rest => children.allLeaves ++ rest.nestedLeaves

/-- How many sections lie around the innermost entry. -/
def depth : Forest σ → Nat
  | nil => 0
  | leaf _ _ rest => rest.depth
  | node _ children rest => max (children.depth + 1) rest.depth

/-- The number of entries. -/
def count : Forest σ → Nat
  | nil => 0
  | leaf _ _ rest => rest.count + 1
  | node _ children rest => children.count + rest.count + 1

/-- All names and leaves are as they should be. -/
def All (name : String → Prop) (value : σ → Prop) : Forest σ → Prop
  | nil => True
  | leaf n v rest => name n ∧ value v ∧ rest.All name value
  | node n children rest => name n ∧ children.All name value ∧ rest.All name value

theorem length_allLeaves (forest : Forest σ) :
    forest.allLeaves.length = forest.leaves.length + forest.nestedLeaves.length := by
  induction forest with
  | nil => rfl
  | leaf name value rest ih =>
    simp only [allLeaves, leaves, nestedLeaves, List.length_cons]
    omega
  | node name children rest _ ih =>
    simp only [allLeaves, leaves, nestedLeaves, List.length_append]
    omega

theorem allLeaves_of_nested {forest : Forest σ} (h : forest.nestedLeaves = []) :
    forest.allLeaves = forest.leaves := by
  induction forest with
  | nil => rfl
  | leaf name value rest ih => exact congrArg (List.cons (name, value)) (ih h)
  | node name children rest _ ih =>
    obtain ⟨hchildren, hrest⟩ := List.append_eq_nil_iff.mp h
    rw [allLeaves, hchildren, List.nil_append, ih hrest, leaves]

end Forest

end Lib
