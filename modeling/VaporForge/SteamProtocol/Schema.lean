import Mathlib.Data.List.Sort
import Mathlib.Data.Prod.Lex
import VaporForge.CloudCore.Sync
import VaporForge.CloudCore.Text
import VaporForge.Lib.Assoc
import VaporForge.Lib.Effect
import VaporForge.Lib.KeyValues

/-!
# The binary schema parser

`AchievementSchemaParser` of `steam-protocol/src/lib.rs`: a recursive descent over a byte
slice, with a limit on the nesting depth and one on the number of entries. The parser is
one mutable cursor, and what it has moved stays moved when it fails, so it is an `Effect`.

Besides the errors of the source a run can stop in two ways that it must not have: a
*panic* (a slice out of range, an `expect` that fails), and the recursion bound of this
model. `deepest` is a ghost, the depth of the innermost section that was entered. A slice is
shorter than `2 ^ 63` bytes and no length here exceeds `2 ^ 17`, so the position does not
overflow.

A `HashMap` is an association list without repeated keys; where the source iterates over
one, the order is an `Arrangement`.
-/

namespace VaporForge.SteamProtocol

open VaporForge.CloudCore
open Lib

def maxDepth : Nat := 32
def maxEntries : Nat := 100000

inductive AchievementSchemaError where
  | truncated
  | invalidUtf8
  | unsupportedType (kind : UInt8)
  | limitExceeded
  | missingRoot
  deriving DecidableEq, Repr

inductive Stop where
  | failed (error : AchievementSchemaError)
  | panic
  | outOfFuel
  deriving DecidableEq, Repr

/-! ## Values -/

inductive AchievementSchemaValue where
  | object (fields : List (String × AchievementSchemaValue))
  | string (text : String)
  | int (value : Int)
  | other

abbrev SchemaFields := List (String × AchievementSchemaValue)

/-- `HashMap::get`. -/
def getField (fields : SchemaFields) (key : String) : Option AchievementSchemaValue :=
  (fields.find? fun field => field.1 = key).map Prod.snd

/-- `HashMap::insert`. -/
def insertField (fields : SchemaFields) (key : String) (value : AchievementSchemaValue) :
    SchemaFields :=
  (key, value) :: fields.filter fun field => field.1 ≠ key

namespace AchievementSchemaValue

def object? : AchievementSchemaValue → Option SchemaFields
  | .object fields => some fields
  | _ => none

def string? : AchievementSchemaValue → Option String
  | .string text => some text
  | _ => none

def int? : AchievementSchemaValue → Option Int
  | .int value => some value
  | _ => none

end AchievementSchemaValue

/-! ## The cursor -/

structure Parser where
  bytes : Bytes
  position : Nat
  entries : Nat
  deepest : Nat
  deriving DecidableEq, Repr

abbrev Parse (α : Type) := Effect Parser Stop α

namespace Parser

def new (bytes : Bytes) : Parser := ⟨bytes, 0, 0, 0⟩

/-- What is left to read. -/
def rest (p : Parser) : Bytes := p.bytes.drop p.position

def skip (p : Parser) (length : Nat) : Parser := { p with position := p.position + length }

end Parser

def fail {α : Type} (error : AchievementSchemaError) : Parse α := Effect.raise (.failed error)

def byte : Parse UInt8 := fun p =>
  match p.bytes[p.position]? with
  | some value => (.ok value, p.skip 1)
  | none => (.error (.failed .truncated), p)

def take (length : Nat) : Parse Bytes := fun p =>
  if p.position + length ≤ p.bytes.length then (.ok (p.rest.take length), p.skip length)
  else (.error (.failed .truncated), p)

/-- `try_into().expect(..)`, to an array of `length` bytes. -/
def exactly (length : Nat) (bytes : Bytes) : Parse Bytes :=
  if bytes.length = length then pure bytes else Effect.raise .panic

def cstring : Parse String := fun p =>
  if p.bytes.length < p.position then (.error (.failed .truncated), p)
  else
    match p.rest.findIdx? (· == 0) with
    | none => (.error (.failed .truncated), p)
    | some length =>
      -- the slice `rest[..length]`
      if p.rest.length < length then (.error .panic, p)
      else
        match decodeText (p.rest.take length) with
        | none => (.error (.failed .invalidUtf8), p)
        | some text => (.ok text, p.skip (length + 1))

/-! ## Entries -/

/-- One more entry. -/
def countEntry : Parse Unit := fun p =>
  let p := { p with entries := p.entries + 1 }
  if p.entries > maxEntries then (.error (.failed .limitExceeded), p) else (.ok (), p)

/-- The value of an entry that is not a section. -/
def scalar (kind : UInt8) : Parse AchievementSchemaValue :=
  if kind = 1 then do
    let text ← cstring
    pure (.string text)
  else if kind = 2 then do
    let bytes ← take 4
    let bytes ← exactly 4 bytes
    pure (.int (BitVec.ofNat 32 (ofLeBytes bytes)).toInt)
  else if kind = 3 ∨ kind = 4 ∨ kind = 6 then do
    let _ ← take 4
    pure .other
  else if kind = 5 then do
    let bytes ← take 2
    let bytes ← exactly 2 bytes
    let _ ← take (ofLeBytes bytes * 2)
    pure .other
  else if kind = 7 then do
    let bytes ← take 8
    let bytes ← exactly 8 bytes
    pure (.int (BitVec.ofNat 64 (ofLeBytes bytes)).toInt)
  else fail (.unsupportedType kind)

/-- The value of an entry, where `nested` reads a section. -/
def entryValue (kind : UInt8) (nested : Parse SchemaFields) : Parse AchievementSchemaValue :=
  if kind = 0 then do
    let fields ← nested
    pure (.object fields)
  else scalar kind

/-- The depth check with which `object` begins. -/
def enter (depth : Nat) : Parse Unit := fun p =>
  if depth > maxDepth then (.error (.failed .limitExceeded), p)
  else (.ok (), { p with deepest := max p.deepest depth })

/-- The loop of `object`, and the calls of `object` in it. -/
def objectLoop : Nat → Nat → SchemaFields → Parse SchemaFields
  | 0, _, _ => Effect.raise .outOfFuel
  | fuel + 1, depth, result => do
    let kind ← byte
    if kind = 8 then pure result
    else
      countEntry
      let key ← cstring
      let value ← entryValue kind do
        enter (depth + 1)
        objectLoop fuel (depth + 1) []
      objectLoop fuel depth (insertField result key value)

def object (fuel depth : Nat) : Parse SchemaFields := do
  enter depth
  objectLoop fuel depth []

def rootObject (fuel : Nat) : Parse SchemaFields := do
  let kind ← byte
  if kind ≠ 0 then fail .missingRoot
  else
    let _ ← cstring
    object fuel 0

/-- `parse_achievement_schema_root`, with the cursor it leaves behind. -/
def runSchemaParser (bytes : Bytes) : Except Stop SchemaFields × Parser :=
  rootObject (bytes.length + 1) (.new bytes)

def parseAchievementSchemaRoot (bytes : Bytes) : Except Stop SchemaFields :=
  (runSchemaParser bytes).1

/-! ## Mappings -/

/-- Wire-level bit of an achievement. -/
structure AchievementBitMapping where
  statId : Nat
  achievementBit : Nat
  key : String
  deriving DecidableEq, Repr

/-- Wire-level id of an ordinary stat. -/
structure StatMapping where
  statId : Nat
  key : String
  valueType : Option Int
  deriving DecidableEq, Repr

/-- The orders in which the hash maps of one schema are iterated: the stats and, by the key
of their stat, the bits of `parse_achievement_bit_mappings`, and the stats of
`parse_stat_mappings`. -/
structure SchemaOrder where
  stats : Arrangement (String × AchievementSchemaValue)
  bits : String → Arrangement (String × AchievementSchemaValue)
  plain : Arrangement (String × AchievementSchemaValue)

def schemaStats (root : SchemaFields) : Except Stop SchemaFields :=
  match (getField root "stats").bind (·.object?) with
  | some stats => .ok stats
  | none => .error (.failed .missingRoot)

/-- A `name` that is not blank. -/
def schemaName (fields : SchemaFields) : Option String :=
  ((getField fields "name").bind (·.string?)).filter fun key => trim key ≠ ""

def statBits (stat : AchievementSchemaValue) : Option SchemaFields :=
  (stat.object?.bind (getField · "bits")).bind (·.object?)

/-- The body of the inner loop of `parse_achievement_bit_mappings`. -/
def bitMapping (statId : Nat) (field : String × AchievementSchemaValue) :
    Option AchievementBitMapping :=
  (parseU32 field.1).bind fun bit =>
    (field.2.object?.bind schemaName).map fun key => ⟨statId, bit, key⟩

/-- The body of its outer loop. -/
def statBitMappings (O : SchemaOrder) (field : String × AchievementSchemaValue) :
    List AchievementBitMapping :=
  match parseU32 field.1, statBits field.2 with
  | some statId, some bits => ((O.bits field.1).arrange bits).filterMap (bitMapping statId)
  | _, _ => []

/-- The sort key of the mappings. -/
def AchievementBitMapping.order (mapping : AchievementBitMapping) : ℕ ×ₗ ℕ :=
  toLex (mapping.statId, mapping.achievementBit)

def parseAchievementBitMappings (O : SchemaOrder) (bytes : Bytes) :
    Except Stop (List AchievementBitMapping) := do
  let root ← parseAchievementSchemaRoot bytes
  let stats ← schemaStats root
  return ((O.stats.arrange stats).flatMap (statBitMappings O)).insertionSort
    fun a b => a.order ≤ b.order

/-- The body of the loop of `parse_stat_mappings`. -/
def statMapping (field : String × AchievementSchemaValue) : Option StatMapping :=
  (parseU32 field.1).bind fun statId =>
    field.2.object?.bind fun stat =>
      if (getField stat "bits").isSome then none
      else (schemaName stat).map fun key =>
        ⟨statId, key, ((getField stat "type").bind (·.int?)).or
          ((getField stat "display").bind (·.int?))⟩

def parseStatMappings (O : SchemaOrder) (bytes : Bytes) : Except Stop (List StatMapping) := do
  let root ← parseAchievementSchemaRoot bytes
  let stats ← schemaStats root
  return ((O.plain.arrange stats).filterMap statMapping).insertionSort
    fun a b => a.statId ≤ b.statId

end VaporForge.SteamProtocol
