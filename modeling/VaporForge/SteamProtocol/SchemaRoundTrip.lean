import VaporForge.SteamProtocol.Schema

/-!
# The schema parser inverts the encoding

> A tree within the limits, written as binary KeyValues and followed by anything, is read
> back; no strict prefix of it is accepted; and on any bytes at all the parser ends, inside
> its input and within its depth limit (`schema_parser_inverts`).

Reading back is an induction over the tree (`objectLoop_forest`). Prefixes are excluded by
locality: a run that succeeds reads no further than its cursor, so more bytes behind it
change nothing (`objectLoop_stable`), and the whole encoding moves the cursor to its very
end. The last part is a triple for the loop whose precondition is that the recursion bound
exceeds what is left to read (`objectLoop_safe`).
-/

namespace VaporForge.SteamProtocol

open VaporForge.CloudCore
open Lib

/-! ## Trees -/

/-- The leaves the parser knows. -/
inductive KvValue where
  | text (value : String)
  | int32 (bits : BitVec 32)
  | float32 (bits : BitVec 32)
  | pointer (bits : BitVec 32)
  | wideText (units : List (BitVec 16))
  | color (bits : BitVec 32)
  | uint64 (bits : BitVec 64)
  deriving DecidableEq, Repr

namespace KvValue

def tag : KvValue → UInt8
  | text _ => 1
  | int32 _ => 2
  | float32 _ => 3
  | pointer _ => 4
  | wideText _ => 5
  | color _ => 6
  | uint64 _ => 7

def payload : KvValue → Bytes
  | text value => cstr value
  | int32 bits => leBytes 4 bits.toNat
  | float32 bits => leBytes 4 bits.toNat
  | pointer bits => leBytes 4 bits.toNat
  | wideText units => leBytes 2 units.length ++ units.flatMap fun unit => leBytes 2 unit.toNat
  | color bits => leBytes 4 bits.toNat
  | uint64 bits => leBytes 8 bits.toNat

/-- What can be written: texts end at a zero byte, a wide text has a 16-bit length. -/
def Writable : KvValue → Prop
  | text value => NulFree value
  | wideText units => units.length < 2 ^ 16
  | _ => True

/-- What is kept of a leaf; 64 bits are read as a signed number. -/
def schema : KvValue → AchievementSchemaValue
  | text value => .string value
  | int32 bits => .int bits.toInt
  | uint64 bits => .int bits.toInt
  | _ => .other

def format : Format KvValue := ⟨tag, payload⟩

end KvValue

/-- The fields of a list of siblings, on top of those before them. -/
def fieldsOf : Forest KvValue → SchemaFields → SchemaFields
  | .nil, result => result
  | .leaf name value rest, result => fieldsOf rest (insertField result name value.schema)
  | .node name children rest, result =>
    fieldsOf rest (insertField result name (.object (fieldsOf children [])))

/-- The last of the siblings with a name. -/
def lastNamed (key : String) : Forest KvValue → Option AchievementSchemaValue
  | .nil => none
  | .leaf name value rest => (lastNamed key rest).or (if name = key then some value.schema else none)
  | .node name children rest =>
    (lastNamed key rest).or (if name = key then some (.object (fieldsOf children [])) else none)

theorem getField_insertField (fields : SchemaFields) (key key' : String)
    (value : AchievementSchemaValue) :
    getField (insertField fields key value) key' =
      if key = key' then some value else getField fields key' := by
  unfold getField insertField
  rw [List.find?_cons]
  by_cases hkey : key = key'
  · simp [hkey]
  · have hsame : (fun field : String × AchievementSchemaValue =>
        decide (decide (field.1 ≠ key) = true ∧ decide (field.1 = key') = true)) =
          fun field => decide (field.1 = key') := by
      funext field
      by_cases hfield : field.1 = key'
      · simp [hfield, Ne.symm hkey]
      · simp [hfield]
    rw [if_neg hkey, decide_eq_false hkey, List.find?_filter, hsame]

/-- Later siblings replace earlier ones. -/
theorem getField_fieldsOf (forest : Forest KvValue) (result : SchemaFields) (key : String) :
    getField (fieldsOf forest result) key = (lastNamed key forest).or (getField result key) := by
  induction forest generalizing result with
  | nil => rfl
  | leaf name value rest ih =>
    rw [fieldsOf, ih, getField_insertField, lastNamed, Option.or_assoc]
    split <;> rfl
  | node name children rest _ ih =>
    rw [fieldsOf, ih, getField_insertField, lastNamed, Option.or_assoc]
    split <;> rfl

/-! ## Reading what was written -/

section Read

variable {p : Parser} {tail : Bytes}

variable {front : Bytes} {n fuel : Nat} {name : String} {p' : Parser} {nested : Parse SchemaFields}

theorem rest_skip (h : p.rest = front ++ tail) :
    (p.skip front.length).rest = tail := drop_add h

variable {b : UInt8} {depth : Nat} {result : SchemaFields}

theorem rest_skip_one (h : p.rest = b :: tail) : (p.skip 1).rest = tail := drop_succ h

theorem skip_skip (p : Parser) (m n : Nat) : (p.skip m).skip n = p.skip (m + n) := by
  unfold Parser.skip
  rw [Nat.add_assoc]

theorem byte_of_rest (h : p.rest = b :: tail) : byte p = (.ok b, p.skip 1) := by
  have hget : p.bytes[p.position]? = some b := by
    rw [List.getElem?_eq_getElem (lt_of_drop h)]
    exact congrArg some (get_of_drop h)
  unfold byte
  rw [hget]

theorem take_of_rest (hin : p.position ≤ p.bytes.length) (h : p.rest = front ++ tail) :
    take front.length p = (.ok front, p.skip front.length) := by
  have hlength : p.bytes.length - p.position = front.length + tail.length := by
    rw [← List.length_append, ← h, Parser.rest, List.length_drop]
  unfold take
  rw [if_pos (by omega), h, List.take_left]

theorem cstring_of_rest {text : String} (hnul : NulFree text) (h : p.rest = cstr text ++ tail) :
    cstring p = (.ok text, p.skip (cstr text).length) := by
  have hcstr : (cstr text).length = (textBytes text).length + 1 := by
    rw [cstr, List.length_append, List.length_singleton]
  have hlength : p.bytes.length - p.position = (cstr text).length + tail.length := by
    rw [← List.length_append, ← h, Parser.rest, List.length_drop]
  unfold cstring
  rw [if_neg (by omega), h, findIdx?_cstr hnul]
  dsimp only
  rw [if_neg (by rw [List.length_append]; omega), take_cstr, decodeText_textBytes, hcstr]

theorem le_skip (hin : p.position ≤ p.bytes.length) (h : p.rest = front ++ tail) :
    (p.skip front.length).position ≤ (p.skip front.length).bytes.length := by
  have hlength : p.bytes.length - p.position = front.length + tail.length := by
    rw [← List.length_append, ← h, Parser.rest, List.length_drop]
  show p.position + front.length ≤ p.bytes.length
  omega

/-- A number of a fixed width is read as its bytes. -/
theorem takeExactly_of_rest {α : Type} {width : Nat} (k : Bytes → Parse α)
    (hin : p.position ≤ p.bytes.length) (h : p.rest = leBytes width n ++ tail) :
    (do let bytes ← take width; let bytes ← exactly width bytes; k bytes) p =
      k (leBytes width n) (p.skip width) := by
  have htake := take_of_rest hin h
  rw [length_leBytes] at htake
  have hexact : exactly width (leBytes width n) (p.skip width) =
      (.ok (leBytes width n), p.skip width) := by
    unfold exactly
    rw [if_pos (length_leBytes width n)]
    rfl
  rw [Effect.bind_of_ok htake, Effect.bind_of_ok hexact]

/-- A 32-bit value that is not kept. -/
theorem skipFour_of_rest (hin : p.position ≤ p.bytes.length) (h : p.rest = leBytes 4 n ++ tail) :
    (do let _ ← take 4; pure AchievementSchemaValue.other : Parse _) p =
      (.ok .other, p.skip (leBytes 4 n).length) := by
  rw [length_leBytes]
  have htake := take_of_rest hin h
  rw [length_leBytes] at htake
  rw [Effect.bind_of_ok htake]
  rfl

theorem scalar_of_rest {value : KvValue} (hwritable : value.Writable)
    (hin : p.position ≤ p.bytes.length) (h : p.rest = value.payload ++ tail) :
    scalar value.tag p = (.ok value.schema, p.skip value.payload.length) := by
  cases value with
  | text value =>
    show (do let text ← cstring; pure (AchievementSchemaValue.string text) : Parse _) p = _
    rw [Effect.bind_of_ok (cstring_of_rest hwritable h)]
    rfl
  | int32 bits =>
    rw [KvValue.payload, length_leBytes]
    refine (takeExactly_of_rest _ hin h).trans ?_
    rw [ofNat_ofLeBytes 4 bits rfl]
    rfl
  | float32 bits => exact skipFour_of_rest hin h
  | pointer bits => exact skipFour_of_rest hin h
  | color bits => exact skipFour_of_rest hin h
  | wideText units =>
    have hbody : (units.flatMap fun unit => leBytes 2 unit.toNat).length = units.length * 2 := by
      rw [List.length_flatMap, List.map_congr_left fun unit _ => length_leBytes 2 unit.toNat]
      simp
    have hrest : p.rest = leBytes 2 units.length ++
        ((units.flatMap fun unit => leBytes 2 unit.toNat) ++ tail) := by
      rw [h, KvValue.payload, List.append_assoc]
    have hnext := rest_skip hrest
    have hinNext := le_skip hin hrest
    rw [length_leBytes] at hnext hinNext
    have htake := take_of_rest hinNext hnext
    have hlength : units.length % 256 ^ 2 = units.length := Nat.mod_eq_of_lt hwritable
    refine (takeExactly_of_rest _ hin hrest).trans ?_
    rw [ofLeBytes_leBytes, hlength, ← hbody, Effect.bind_of_ok htake, skip_skip,
      KvValue.payload, List.length_append, length_leBytes]
    rfl
  | uint64 bits =>
    rw [KvValue.payload, length_leBytes]
    refine (takeExactly_of_rest _ hin h).trans ?_
    rw [ofNat_ofLeBytes 8 bits rfl]
    rfl

/-! ## Reading a tree back -/

theorem countEntry_of_lt (h : p.entries < maxEntries) :
    countEntry p = (.ok (), { p with entries := p.entries + 1 }) := by
  unfold countEntry
  exact if_neg (Nat.not_lt.mpr h)

theorem enter_of_le (h : depth ≤ maxDepth) :
    enter depth p = (.ok (), { p with deepest := max p.deepest depth }) := by
  unfold enter
  exact if_neg (Nat.not_lt.mpr h)

/-- The tag of a leaf is neither that of a section nor the end. -/
theorem KvValue.tag_ne (value : KvValue) : value.tag ≠ 0 ∧ value.tag ≠ 8 := by
  cases value <;> simp [tag]

theorem objectLoop_end (h : p.rest = Forest.endTag :: tail) :
    objectLoop (fuel + 1) depth result p = (.ok result, p.skip 1) := by
  rw [objectLoop, Effect.bind_of_ok (byte_of_rest h), if_pos (show Forest.endTag = 8 from rfl)]
  rfl

/-- The tag and the name of an entry; what is left is its value and the entries after it. -/
theorem objectLoop_entry {kind : UInt8} (hkind : kind ≠ 8) (hentries : p.entries < maxEntries)
    (hnul : NulFree name) (h : p.rest = kind :: (cstr name ++ tail)) :
    objectLoop (fuel + 1) depth result p =
      (do
        let value ← entryValue kind do
          enter (depth + 1)
          objectLoop fuel (depth + 1) []
        objectLoop fuel depth (insertField result name value))
        ⟨p.bytes, p.position + 1 + (cstr name).length, p.entries + 1, p.deepest⟩ := by
  have hname := rest_skip_one h
  rw [objectLoop, Effect.bind_of_ok (byte_of_rest h), if_neg hkind,
    Effect.bind_of_ok (countEntry_of_lt (p := p.skip 1) hentries)]
  exact Effect.bind_of_ok (cstring_of_rest (p := ⟨p.bytes, p.position + 1, p.entries + 1,
    p.deepest⟩) hnul hname)

end Read

/-- The cursor after a number of bytes and entries; how deep it went is left open. -/
structure Parser.Moved (p p' : Parser) (length entries : Nat) : Prop where
  bytes : p'.bytes = p.bytes
  position : p'.position = p.position + length
  entries : p'.entries = p.entries + entries

theorem Parser.Moved.rest {p : Parser} {tail : Bytes} {entries : Nat}
    (h : p.Moved p' front.length entries) (hrest : p.rest = front ++ tail) : p'.rest = tail := by
  rw [← rest_skip hrest]
  unfold Parser.rest
  rw [h.bytes, h.position]
  rfl

theorem Parser.Moved.le {p : Parser} {tail : Bytes} {entries : Nat}
    (h : p.Moved p' front.length entries) (hin : p.position ≤ p.bytes.length)
    (hrest : p.rest = front ++ tail) : p'.position ≤ p'.bytes.length := by
  rw [h.bytes, h.position]
  exact le_skip hin hrest

theorem Parser.Moved.trans {p p'' : Parser} {m k l : Nat} (h : p.Moved p' m k)
    (h' : p'.Moved p'' n l) : p.Moved p'' (m + n) (k + l) := by
  refine ⟨h'.bytes.trans h.bytes, ?_, ?_⟩
  · rw [h'.position, h.position, Nat.add_assoc]
  · rw [h'.entries, h.entries, Nat.add_assoc]

/-- The loop reads all siblings and the end after them. -/
theorem objectLoop_forest (forest : Forest KvValue) :
    ∀ (fuel depth : Nat) (result : SchemaFields) {p : Parser} {tail : Bytes},
      p.position ≤ p.bytes.length →
      p.rest = forest.encode KvValue.format ++ Forest.endTag :: tail →
      (forest.encode KvValue.format).length < fuel →
      depth + forest.depth ≤ maxDepth →
      p.entries + forest.count ≤ maxEntries →
      forest.All NulFree KvValue.Writable →
      ∃ p', objectLoop fuel depth result p = (.ok (fieldsOf forest result), p') ∧
        p.Moved p' ((forest.encode KvValue.format).length + 1) forest.count := by
  induction forest with
  | nil =>
    intro fuel depth result p tail hin hrest hfuel hdepth hentries hall
    obtain ⟨fuel, rfl⟩ := Nat.exists_eq_succ_of_ne_zero (Nat.ne_of_gt hfuel)
    exact ⟨p.skip 1, objectLoop_end hrest, rfl, rfl, rfl⟩
  | leaf name value rest ih =>
    intro fuel depth result p tail hin hrest hfuel hdepth hentries hall
    obtain ⟨hnul, hwritable, hall⟩ := hall
    obtain ⟨fuel, rfl⟩ := Nat.exists_eq_succ_of_ne_zero (Nat.ne_zero_of_lt hfuel)
    -- the head of the entry, its value, the rest
    have hsplit : (Forest.leaf name value rest).encode KvValue.format =
        (value.tag :: cstr name) ++ (value.payload ++ rest.encode KvValue.format) := rfl
    have hlength : ((Forest.leaf name value rest).encode KvValue.format).length =
        1 + (cstr name).length + (value.payload.length +
          (rest.encode KvValue.format).length) := by
      rw [hsplit, List.length_append, List.length_append, List.length_cons, Nat.add_comm 1]
    rw [hsplit, List.append_assoc, List.append_assoc] at hrest
    let head : Parser := ⟨p.bytes, p.position + 1 + (cstr name).length, p.entries + 1, p.deepest⟩
    have hhead : p.Moved head (value.tag :: cstr name).length 1 :=
      ⟨rfl, by rw [List.length_cons, Nat.add_comm _ 1, ← Nat.add_assoc], rfl⟩
    have hvalue := hhead.rest hrest
    have hinValue := hhead.le hin hrest
    have hread := scalar_of_rest hwritable hinValue hvalue
    have hafter : head.Moved (head.skip value.payload.length) value.payload.length 0 :=
      ⟨rfl, rfl, rfl⟩
    have hcount : p.entries + (rest.count + 1) ≤ maxEntries := hentries
    obtain ⟨p', hrun, hmoved⟩ := ih fuel depth (insertField result name value.schema)
      (hafter.le hinValue hvalue) (hafter.rest hvalue) (by omega) hdepth
      (show p.entries + 1 + rest.count ≤ maxEntries by omega) hall
    refine ⟨p', ?_, ?_⟩
    · rw [objectLoop_entry value.tag_ne.2 (by omega) hnul hrest, entryValue,
        if_neg value.tag_ne.1, Effect.bind_of_ok hread]
      exact hrun
    · have htotal := (hhead.trans hafter).trans hmoved
      refine ⟨htotal.bytes, htotal.position.trans ?_, htotal.entries.trans ?_⟩
      · rw [hlength, List.length_cons]
        omega
      · rw [Forest.count]
        omega
  | node name children rest ihChildren ih =>
    intro fuel depth result p tail hin hrest hfuel hdepth hentries hall
    obtain ⟨hnul, hallChildren, hall⟩ := hall
    obtain ⟨fuel, rfl⟩ := Nat.exists_eq_succ_of_ne_zero (Nat.ne_zero_of_lt hfuel)
    -- the head of the entry, the section with its end, the rest
    have hsplit : (Forest.node name children rest).encode KvValue.format =
        (Forest.sectionTag :: cstr name) ++
          (children.encode KvValue.format ++ Forest.endTag :: rest.encode KvValue.format) := rfl
    have hlength : ((Forest.node name children rest).encode KvValue.format).length =
        1 + (cstr name).length + ((children.encode KvValue.format).length + 1 +
          (rest.encode KvValue.format).length) := by
      rw [hsplit, List.length_append, List.length_append, List.length_cons, List.length_cons,
        Nat.add_comm 1]
      omega
    have hdeep : max (children.depth + 1) rest.depth ≤ maxDepth - depth := by
      rw [Forest.depth] at hdepth
      omega
    have hcount : p.entries + (children.count + rest.count + 1) ≤ maxEntries := hentries
    rw [hsplit, List.append_assoc, List.append_assoc] at hrest
    let head : Parser := ⟨p.bytes, p.position + 1 + (cstr name).length, p.entries + 1,
      max p.deepest (depth + 1)⟩
    have hhead : p.Moved head (Forest.sectionTag :: cstr name).length 1 :=
      ⟨rfl, by rw [List.length_cons, Nat.add_comm _ 1, ← Nat.add_assoc], rfl⟩
    have hsection := hhead.rest hrest
    have hinSection := hhead.le hin hrest
    obtain ⟨q, hrunSection, hmovedSection⟩ := ihChildren fuel (depth + 1) [] hinSection hsection
      (by omega) (by omega) (show p.entries + 1 + children.count ≤ maxEntries by omega)
      hallChildren
    -- what the section took is its encoding and the end tag
    have hsplitSection : head.rest = (children.encode KvValue.format ++ [Forest.endTag]) ++
        (rest.encode KvValue.format ++ Forest.endTag :: tail) := by
      rw [hsection, List.append_assoc]
      rfl
    have hmovedFront : head.Moved q (children.encode KvValue.format ++ [Forest.endTag]).length
        children.count := by
      rw [List.length_append]
      exact hmovedSection
    obtain ⟨p', hrun, hmoved⟩ := ih fuel depth
      (insertField result name (.object (fieldsOf children []))) (hmovedFront.le hinSection
        hsplitSection) (hmovedFront.rest hsplitSection) (by omega) (by omega)
      (by rw [hmovedFront.entries]; show p.entries + 1 + children.count + rest.count ≤ _; omega) hall
    refine ⟨p', ?_, ?_⟩
    · have henter := enter_of_le (p := ⟨p.bytes, p.position + 1 + (cstr name).length,
        p.entries + 1, p.deepest⟩) (show depth + 1 ≤ maxDepth by omega)
      have hvalue : entryValue Forest.sectionTag (do
          enter (depth + 1)
          objectLoop fuel (depth + 1) []) ⟨p.bytes, p.position + 1 + (cstr name).length,
            p.entries + 1, p.deepest⟩ = (.ok (.object (fieldsOf children [])), q) := by
        rw [entryValue, if_pos (show Forest.sectionTag = 0 from rfl),
          Effect.bind_of_ok ((Effect.bind_of_ok henter).trans hrunSection)]
        rfl
      rw [objectLoop_entry (by decide) (by omega) hnul hrest, Effect.bind_of_ok hvalue]
      exact hrun
    · have htotal := (hhead.trans hmovedFront).trans hmoved
      refine ⟨htotal.bytes, htotal.position.trans ?_, htotal.entries.trans ?_⟩
      · rw [hlength, List.length_cons, List.length_append, List.length_singleton]
        omega
      · rw [Forest.count]
        omega

/-- A whole encoding, with anything behind it, moves the cursor to its end. -/
theorem runSchemaParser_encodeRoot {forest : Forest KvValue} (tail : Bytes) (hname : NulFree name)
    (hall : forest.All NulFree KvValue.Writable) (hdepth : forest.depth ≤ maxDepth)
    (hcount : forest.count ≤ maxEntries) :
    ∃ p', runSchemaParser (forest.encodeRoot KvValue.format name ++ tail) =
        (.ok (fieldsOf forest []), p') ∧
      p'.position = (forest.encodeRoot KvValue.format name).length := by
  have hsplit : forest.encodeRoot KvValue.format name ++ tail = (Forest.sectionTag :: cstr name) ++
      (forest.encode KvValue.format ++ Forest.endTag :: tail) := by
    rw [Forest.encodeRoot]
    simp only [List.append_assoc, List.cons_append, List.nil_append]
  generalize hwhole : forest.encodeRoot KvValue.format name ++ tail = whole at hsplit ⊢
  have hlength : whole.length = 1 + (cstr name).length + ((forest.encode KvValue.format).length +
      (tail.length + 1)) := by
    rw [hsplit, List.length_append, List.length_append, List.length_cons, List.length_cons,
      Nat.add_comm 1]
  have hstart : (Parser.new whole).rest = Forest.sectionTag :: (cstr name ++
      (forest.encode KvValue.format ++ Forest.endTag :: tail)) := hsplit
  let head : Parser := ⟨whole, 0 + 1 + (cstr name).length, 0, max 0 0⟩
  have hhead : (Parser.new whole).Moved head (Forest.sectionTag :: cstr name).length 0 :=
    ⟨rfl, by rw [List.length_cons, Nat.add_comm _ 1, ← Nat.add_assoc]; rfl, rfl⟩
  obtain ⟨p', hrun, hmoved⟩ := objectLoop_forest forest (whole.length + 1) 0 []
    (hhead.le (Nat.zero_le _) hsplit) (hhead.rest hsplit) (by omega)
    (by rw [Nat.zero_add]; exact hdepth) (by show 0 + forest.count ≤ _; omega) hall
  refine ⟨p', ?_, ?_⟩
  · have hcstring := cstring_of_rest (p := (Parser.new whole).skip 1) hname (rest_skip_one hstart)
    rw [runSchemaParser, rootObject, Effect.bind_of_ok (byte_of_rest hstart),
      if_neg (show ¬Forest.sectionTag ≠ 0 from fun h => h rfl), Effect.bind_of_ok hcstring, object,
      Effect.bind_of_ok (enter_of_le (Nat.zero_le _))]
    exact hrun
  · rw [hmoved.position, Forest.encodeRoot, List.length_cons, List.length_append,
      List.length_append, List.length_singleton]
    show 0 + 1 + (cstr name).length + _ = _
    omega

/-! ## A run reads no further than its cursor -/

/-- More bytes behind the input. -/
def Parser.extend (more : Bytes) (p : Parser) : Parser := { p with bytes := p.bytes ++ more }

section Extend

variable {more : Bytes}

theorem rest_extend {p : Parser} (h : p.position ≤ p.bytes.length) :
    (p.extend more).rest = p.rest ++ more := List.drop_append_of_le_length h

theorem byte_tracks : Effect.Tracks (Parser.extend more) byte byte := by
  intro p b p' hrun
  unfold byte at hrun
  split at hrun
  next value hget =>
    cases hrun
    have hlt : p.position < p.bytes.length := (List.getElem?_eq_some_iff.mp hget).1
    have hmore : (p.extend more).bytes[(p.extend more).position]? = some b :=
      (List.getElem?_append_left hlt).trans hget
    unfold byte
    rw [hmore]
    rfl
  next => cases hrun

theorem take_tracks (length : Nat) :
    Effect.Tracks (Parser.extend more) (take length) (take length) := by
  intro p front p' hrun
  unfold take at hrun
  split at hrun
  next hle =>
    cases hrun
    have hlong : length ≤ p.rest.length := by
      rw [Parser.rest, List.length_drop]
      omega
    have hle' : (p.extend more).position + length ≤ (p.extend more).bytes.length := by
      show p.position + length ≤ (p.bytes ++ more).length
      rw [List.length_append]
      omega
    unfold take
    rw [if_pos hle', rest_extend (by omega), List.take_append_of_le_length hlong]
    rfl
  next => cases hrun

theorem cstring_tracks : Effect.Tracks (Parser.extend more) cstring cstring := by
  intro p text p' hrun
  unfold cstring at hrun
  split at hrun
  next => cases hrun
  next hin =>
    split at hrun
    next => cases hrun
    next length hfind =>
      split at hrun
      next => cases hrun
      next hlong =>
        split at hrun
        next => cases hrun
        next decoded hdecode =>
          cases hrun
          have hin' : ¬(p.extend more).bytes.length < (p.extend more).position := by
            show ¬(p.bytes ++ more).length < p.position
            rw [List.length_append]
            omega
          have hlong' : ¬(p.rest ++ more).length < length := by
            rw [List.length_append]
            omega
          unfold cstring
          rw [if_neg hin', rest_extend (by omega), List.findIdx?_append, hfind]
          dsimp only [Option.some_or]
          rw [if_neg hlong', List.take_append_of_le_length (by omega), hdecode]
          rfl

theorem exactly_tracks (length : Nat) (bytes : Bytes) :
    Effect.Tracks (Parser.extend more) (exactly length bytes) (exactly length bytes) := by
  unfold exactly
  split
  next => exact .pure
  next => exact .raise

theorem countEntry_tracks : Effect.Tracks (Parser.extend more) countEntry countEntry := by
  intro p a p' hrun
  unfold countEntry at hrun ⊢
  dsimp only at hrun
  split at hrun
  next => cases hrun
  next hle =>
    cases hrun
    exact if_neg hle

theorem enter_tracks (depth : Nat) :
    Effect.Tracks (Parser.extend more) (enter depth) (enter depth) := by
  intro p a p' hrun
  unfold enter at hrun ⊢
  split at hrun
  next => cases hrun
  next hle =>
    cases hrun
    exact if_neg hle

theorem scalar_tracks (kind : UInt8) :
    Effect.Tracks (Parser.extend more) (scalar kind) (scalar kind) := by
  unfold scalar
  split
  next => exact cstring_tracks.bind fun _ => .pure
  split
  next => exact (take_tracks 4).bind fun _ => (exactly_tracks _ _).bind fun _ => .pure
  split
  next => exact (take_tracks 4).bind fun _ => .pure
  split
  next =>
    exact (take_tracks 2).bind fun _ => (exactly_tracks _ _).bind fun _ =>
      (take_tracks _).bind fun _ => .pure
  split
  next => exact (take_tracks 8).bind fun _ => (exactly_tracks _ _).bind fun _ => .pure
  next => exact .raise

theorem entryValue_tracks (kind : UInt8) {nested' : Parse SchemaFields}
    (h : Effect.Tracks (Parser.extend more) nested nested') :
    Effect.Tracks (Parser.extend more) (entryValue kind nested) (entryValue kind nested') := by
  unfold entryValue
  split
  next => exact h.bind fun _ => .pure
  next => exact scalar_tracks kind

variable {fuel' : Nat}

theorem objectLoop_tracks (hle : fuel ≤ fuel') (depth : Nat) (result : SchemaFields) :
    Effect.Tracks (Parser.extend more) (objectLoop fuel depth result)
      (objectLoop fuel' depth result) := by
  induction fuel generalizing fuel' depth result with
  | zero => exact .raise
  | succ fuel ih =>
    obtain ⟨fuel', rfl⟩ := Nat.exists_eq_succ_of_ne_zero (Nat.ne_zero_of_lt hle)
    have hle := Nat.le_of_succ_le_succ hle
    rw [objectLoop, objectLoop]
    refine byte_tracks.bind fun kind => ?_
    split
    next => exact .pure
    next =>
      refine countEntry_tracks.bind fun _ => cstring_tracks.bind fun key => ?_
      refine .bind (entryValue_tracks kind ?_) fun value => ih hle depth _
      exact (enter_tracks _).bind fun _ => ih hle _ _

theorem rootObject_tracks (hle : fuel ≤ fuel') :
    Effect.Tracks (Parser.extend more) (rootObject fuel) (rootObject fuel') := by
  refine byte_tracks.bind fun kind => ?_
  split
  next => exact .raise
  next =>
    exact cstring_tracks.bind fun _ => (enter_tracks 0).bind fun _ => objectLoop_tracks hle 0 []

end Extend

/-! ## Every run ends inside its input -/

/-- The cursor is inside the input, past `low`, and has not been too deep. -/
structure Parser.Within (bytes : Bytes) (low : Nat) (p : Parser) : Prop where
  bytes_eq : p.bytes = bytes
  low_le : low ≤ p.position
  le_length : p.position ≤ bytes.length
  depth_le : p.deepest ≤ maxDepth

/-- An error of the source, not a panic and not the recursion bound. -/
structure Failed (bytes : Bytes) (stop : Stop) (p : Parser) : Prop where
  error : ∃ error, stop = .failed error
  within : p.Within bytes 0

section Safe

variable {bytes : Bytes} {low : Nat} {p : Parser}

theorem Parser.Within.mono {low' : Nat} (h : p.Within bytes low) (hle : low' ≤ low) :
    p.Within bytes low' := ⟨h.bytes_eq, hle.trans h.low_le, h.le_length, h.depth_le⟩

theorem Parser.Within.failed (h : p.Within bytes low) (error : AchievementSchemaError) :
    Failed bytes (.failed error) p := ⟨⟨error, rfl⟩, h.mono (Nat.zero_le low)⟩

theorem Parser.Within.skip (h : p.Within bytes low) {length : Nat}
    (hle : p.position + length ≤ p.bytes.length) : (p.skip length).Within bytes (low + length) :=
  ⟨h.bytes_eq, Nat.add_le_add_right h.low_le length, h.bytes_eq ▸ hle, h.depth_le⟩

theorem byte_safe :
    Effect.Spec (Parser.Within bytes low) byte (fun _ => Parser.Within bytes (low + 1))
      (Failed bytes) := by
  intro p hp r p' hrun
  unfold byte at hrun
  split at hrun
  next value hget =>
    cases hrun
    exact hp.skip (List.getElem?_eq_some_iff.mp hget).1
  next =>
    cases hrun
    exact hp.failed _

theorem take_safe (length : Nat) :
    Effect.Spec (Parser.Within bytes low) (take length)
      (fun front p => front.length = length ∧ p.Within bytes low) (Failed bytes) := by
  intro p hp r p' hrun
  unfold take at hrun
  split at hrun
  next hle =>
    cases hrun
    have hlong : length ≤ p.rest.length := by
      rw [Parser.rest, List.length_drop]
      omega
    exact ⟨List.length_take_of_le hlong, (hp.skip hle).mono (Nat.le_add_right low length)⟩
  next =>
    cases hrun
    exact hp.failed _

theorem exactly_safe (length : Nat) (front : Bytes) :
    Effect.Spec (fun p => front.length = length ∧ p.Within bytes low) (exactly length front)
      (fun _ => Parser.Within bytes low) (Failed bytes) := by
  intro p hp r p' hrun
  unfold exactly at hrun
  rw [if_pos hp.1] at hrun
  cases hrun
  exact hp.2

theorem cstring_safe :
    Effect.Spec (Parser.Within bytes low) cstring (fun _ => Parser.Within bytes low)
      (Failed bytes) := by
  intro p hp r p' hrun
  unfold cstring at hrun
  split at hrun
  next =>
    cases hrun
    exact hp.failed _
  next hin =>
    split at hrun
    next =>
      cases hrun
      exact hp.failed _
    next length hfind =>
      -- the zero byte lies in the rest, so the slice before it does too
      have hlt : length < p.rest.length := (List.findIdx?_eq_some_iff_findIdx_eq.mp hfind).1
      rw [if_neg (Nat.not_lt.mpr hlt.le)] at hrun
      split at hrun
      next =>
        cases hrun
        exact hp.failed _
      next =>
        cases hrun
        rw [Parser.rest, List.length_drop] at hlt
        exact (hp.skip (by omega)).mono (Nat.le_add_right low _)

theorem countEntry_safe :
    Effect.Spec (Parser.Within bytes low) countEntry (fun _ => Parser.Within bytes low)
      (Failed bytes) := by
  intro p hp r p' hrun
  have hcounted : ({ p with entries := p.entries + 1 } : Parser).Within bytes low :=
    ⟨hp.bytes_eq, hp.low_le, hp.le_length, hp.depth_le⟩
  unfold countEntry at hrun
  dsimp only at hrun
  split at hrun
  next =>
    cases hrun
    exact hcounted.failed _
  next =>
    cases hrun
    exact hcounted

theorem enter_safe (depth : Nat) :
    Effect.Spec (Parser.Within bytes low) (enter depth) (fun _ => Parser.Within bytes low)
      (Failed bytes) := by
  intro p hp r p' hrun
  unfold enter at hrun
  split at hrun
  next =>
    cases hrun
    exact hp.failed _
  next hdepth =>
    cases hrun
    exact ⟨hp.bytes_eq, hp.low_le, hp.le_length,
      Nat.max_le.mpr ⟨hp.depth_le, Nat.le_of_not_lt hdepth⟩⟩

theorem pure_safe {α : Type} (a : α) :
    Effect.Spec (Parser.Within bytes low) (pure a : Parse α) (fun _ => Parser.Within bytes low)
      (Failed bytes) := .pure fun _ hp => hp

theorem fail_safe {α : Type} (error : AchievementSchemaError) :
    Effect.Spec (Parser.Within bytes low) (fail error : Parse α)
      (fun _ => Parser.Within bytes low) (Failed bytes) := .raise fun _ hp => hp.failed error

theorem scalar_safe (kind : UInt8) :
    Effect.Spec (Parser.Within bytes low) (scalar kind) (fun _ => Parser.Within bytes low)
      (Failed bytes) := by
  have hskip : ∀ length, Effect.Spec (Parser.Within bytes low)
      (do let _ ← take length; pure AchievementSchemaValue.other : Parse _)
      (fun _ => Parser.Within bytes low) (Failed bytes) := fun length =>
    (take_safe length).bind fun _ => .pure fun _ hp => hp.2
  unfold scalar
  split
  next => exact cstring_safe.bind fun _ => pure_safe _
  split
  next => exact (take_safe 4).bind fun _ => (exactly_safe _ _).bind fun _ => pure_safe _
  split
  next => exact hskip 4
  split
  next => exact (take_safe 2).bind fun _ => (exactly_safe _ _).bind fun _ => hskip _
  split
  next => exact (take_safe 8).bind fun _ => (exactly_safe _ _).bind fun _ => pure_safe _
  next => exact fail_safe _

theorem entryValue_safe (kind : UInt8)
    (h : Effect.Spec (Parser.Within bytes low) nested (fun _ => Parser.Within bytes low) (Failed bytes))
    :
    Effect.Spec (Parser.Within bytes low) (entryValue kind nested)
      (fun _ => Parser.Within bytes low) (Failed bytes) := by
  unfold entryValue
  split
  next => exact h.bind fun _ => pure_safe _
  next => exact scalar_safe kind

/-- Every entry takes a byte, so the recursion bound is not reached where it exceeds what is
left. -/
theorem objectLoop_safe (fuel depth : Nat) (result : SchemaFields)
    (hfuel : bytes.length < low + fuel) :
    Effect.Spec (Parser.Within bytes low) (objectLoop fuel depth result)
      (fun _ => Parser.Within bytes low) (Failed bytes) := by
  induction fuel generalizing low depth result with
  | zero =>
    intro p hp
    have hle : low ≤ bytes.length := hp.low_le.trans hp.le_length
    exact absurd hfuel (Nat.not_lt.mpr hle)
  | succ fuel ih =>
    have hnext : bytes.length < low + 1 + fuel := by
      rw [Nat.add_assoc, Nat.add_comm 1]
      exact hfuel
    have hloop : ∀ depth result, Effect.Spec (Parser.Within bytes (low + 1))
        (objectLoop fuel depth result) (fun _ => Parser.Within bytes (low + 1)) (Failed bytes) :=
      fun depth result => ih depth result hnext
    -- behind the tag everything stays past `low + 1`
    have hbehind : Effect.Spec (Parser.Within bytes low) (objectLoop (fuel + 1) depth result)
        (fun _ => Parser.Within bytes (low + 1)) (Failed bytes) := by
      rw [objectLoop]
      refine byte_safe.bind fun kind => ?_
      split
      next => exact pure_safe _
      next =>
        refine countEntry_safe.bind fun _ => cstring_safe.bind fun key => ?_
        refine .bind (entryValue_safe kind ?_) fun value => hloop depth _
        exact (enter_safe _).bind fun _ => hloop _ _
    exact hbehind.mono (fun _ hp => hp) (fun _ _ hp => hp.mono (Nat.le_succ low)) fun _ _ hp => hp

theorem runSchemaParser_safe (bytes : Bytes) {result : Except Stop SchemaFields} {p : Parser}
    (h : runSchemaParser bytes = (result, p)) :
    p.Within bytes 0 ∧ ∀ stop, result = .error stop → ∃ error, stop = .failed error := by
  have hspec : Effect.Spec (Parser.Within bytes 0) (rootObject (bytes.length + 1))
      (fun _ => Parser.Within bytes 0) (Failed bytes) := by
    refine .bind (byte_safe.mono (fun _ hp => hp) (fun _ _ hp => hp.mono (Nat.zero_le _))
      fun _ _ hp => hp) fun kind => ?_
    split
    next => exact fail_safe _
    next =>
      refine cstring_safe.bind fun _ => (enter_safe 0).bind fun _ => ?_
      exact objectLoop_safe _ 0 [] (by omega)
  have hrun := hspec (.new bytes) ⟨rfl, Nat.le_refl 0, Nat.zero_le _, Nat.zero_le _⟩ result p h
  cases result with
  | ok fields =>
    refine ⟨hrun, ?_⟩
    intro stop heq
    cases heq
  | error stop =>
    refine ⟨hrun.within, ?_⟩
    intro stop' heq
    cases heq
    exact hrun.error

end Safe

/-! ## The payoff -/

/-- A strict prefix of an encoding fails: were it accepted, the whole encoding would be
accepted with the cursor inside the prefix. -/
theorem prefix_rejected {forest : Forest KvValue} {more : Bytes} (hname : NulFree name)
    (hall : forest.All NulFree KvValue.Writable) (hdepth : forest.depth ≤ maxDepth)
    (hcount : forest.count ≤ maxEntries)
    (hfront : forest.encodeRoot KvValue.format name = front ++ more) (hmore : more ≠ []) :
    ∃ error, parseAchievementSchemaRoot front = .error (.failed error) := by
  cases hrun : runSchemaParser front with
  | mk result p =>
    obtain ⟨hwithin, hfailed⟩ := runSchemaParser_safe front hrun
    cases result with
    | error stop =>
      obtain ⟨error, rfl⟩ := hfailed stop rfl
      refine ⟨error, ?_⟩
      rw [parseAchievementSchemaRoot, hrun]
    | ok fields =>
      exfalso
      have hle : front.length + 1 ≤ (front ++ more).length + 1 := by
        rw [List.length_append]
        omega
      have hwhole : runSchemaParser (front ++ more) = (.ok fields, p.extend more) :=
        rootObject_tracks hle _ _ _ hrun
      obtain ⟨p', hencoded, hposition⟩ := runSchemaParser_encodeRoot [] hname hall hdepth hcount
      rw [hfront, List.append_nil, hwhole] at hencoded
      obtain rfl := (Prod.mk.inj hencoded).2
      have hpositive := List.length_pos_iff.mpr hmore
      have hend : p.position = front.length + more.length := by
        rw [← List.length_append, ← hfront]
        exact hposition
      have hinside := hwithin.le_length
      omega

/-- **The parser inverts the encoding.** Trees within the limits are read back, with the last
of several siblings of one name, whatever follows them; their strict prefixes are rejected;
and every run ends with a tree or an error of the source, with its cursor inside the input
and no section below the depth limit. -/
theorem schema_parser_inverts :
    (∀ (name : String) (forest : Forest KvValue), NulFree name →
      forest.All NulFree KvValue.Writable → forest.depth ≤ maxDepth →
      forest.count ≤ maxEntries →
      (∀ tail, parseAchievementSchemaRoot (forest.encodeRoot KvValue.format name ++ tail) =
        .ok (fieldsOf forest [])) ∧
      (∀ key, getField (fieldsOf forest []) key = lastNamed key forest) ∧
      ∀ front more, forest.encodeRoot KvValue.format name = front ++ more → more ≠ [] →
        ∃ error, parseAchievementSchemaRoot front = .error (.failed error)) ∧
    ∀ bytes result p, runSchemaParser bytes = (result, p) →
      (∀ stop, result = .error stop → ∃ error, stop = .failed error) ∧
        p.position ≤ bytes.length ∧ p.deepest ≤ maxDepth := by
  refine ⟨?_, ?_⟩
  · intro name forest hname hall hdepth hcount
    refine ⟨?_, ?_, ?_⟩
    · intro tail
      obtain ⟨p', hrun, _⟩ := runSchemaParser_encodeRoot tail hname hall hdepth hcount
      rw [parseAchievementSchemaRoot, hrun]
    · intro key
      rw [getField_fieldsOf]
      exact Option.or_none
    · intro front more hfront hmore
      exact prefix_rejected hname hall hdepth hcount hfront hmore
  · intro bytes result p hrun
    obtain ⟨hwithin, hfailed⟩ := runSchemaParser_safe bytes hrun
    exact ⟨hfailed, hwithin.le_length, hwithin.depth_le⟩

end VaporForge.SteamProtocol
