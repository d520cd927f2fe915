import Mathlib.Data.String.Basic

/-!
# Text as the source measures it

The string predicates the validators use, with the standard library's meaning:
lengths are counted in UTF-8 bytes, `trim` strips Unicode `White_Space`, and the
ASCII helpers leave every other character alone. They work on the character
list, so that they evaluate.
-/

namespace VaporForge.CloudCore

/-- `str::len`: the number of UTF-8 bytes. -/
def byteLen (s : String) : Nat := s.utf8ByteSize

/-- The Unicode property `White_Space`, which `char::is_whitespace` tests. -/
def isWhitespace (c : Char) : Bool :=
  (0x09 ≤ c.toNat && c.toNat ≤ 0x0d) || c.toNat == 0x20 || c.toNat == 0x85 ||
    c.toNat == 0xa0 || c.toNat == 0x1680 || (0x2000 ≤ c.toNat && c.toNat ≤ 0x200a) ||
    c.toNat == 0x2028 || c.toNat == 0x2029 || c.toNat == 0x202f || c.toNat == 0x205f ||
    c.toNat == 0x3000

/-- `str::trim`. -/
def trim (s : String) : String :=
  String.ofList
    ((s.toList.dropWhile isWhitespace).reverse.dropWhile isWhitespace).reverse

def containsChar (s : String) (c : Char) : Bool := s.toList.contains c

/-- `u8::is_ascii_hexdigit`, of every character. -/
def allAsciiHexDigits (s : String) : Bool :=
  s.toList.all fun c =>
    ('0' ≤ c && c ≤ '9') || ('a' ≤ c && c ≤ 'f') || ('A' ≤ c && c ≤ 'F')

/-- `str::to_ascii_lowercase`. -/
def toAsciiLowercase (s : String) : String := String.ofList (s.toList.map Char.toLower)

/-- `str::split` at one character. -/
def splitChar (s : String) (c : Char) : List String :=
  (s.toList.splitOn c).map String.ofList

/-- The value of a run of ASCII digits that is not empty. -/
def parseDigits (chars : List Char) : Option Nat :=
  if chars = [] ∨ !chars.all (fun c => '0' ≤ c && c ≤ '9') then none
  else some (chars.foldl (fun n c => 10 * n + (c.toNat - '0'.toNat)) 0)

/-- `str::parse::<u64>`. -/
def parseU64 (s : String) : Option Nat :=
  let digits := match s.toList with
    | '+' :: rest => rest
    | chars => chars
  (parseDigits digits).filter (· < 2 ^ 64)

/-- `str::parse::<u32>`. -/
def parseU32 (s : String) : Option Nat :=
  let digits := match s.toList with
    | '+' :: rest => rest
    | chars => chars
  (parseDigits digits).filter (· < 2 ^ 32)

/-- `str::parse::<i32>`. -/
def parseI32 (s : String) : Option Int :=
  match s.toList with
  | '-' :: rest => ((parseDigits rest).filter (· ≤ 2 ^ 31)).map fun n => -(n : Int)
  | '+' :: rest => ((parseDigits rest).filter (· < 2 ^ 31)).map (↑)
  | chars => ((parseDigits chars).filter (· < 2 ^ 31)).map (↑)

end VaporForge.CloudCore
