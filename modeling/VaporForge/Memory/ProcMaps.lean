import VaporForge.Lib.Utf8
import VaporForge.Patterns.Registry

/-!
# Lines of `/proc/self/maps`

`parse_proc_maps_entry` of `memory/src/proc_maps.rs` splits a line at white space and takes the
sixth word for the path. The kernel writes the path last and as it is, after five columns that
hold no white space:

> Of a line of the kernel the parser reads everything but the end of its path: it keeps the
> path up to the first white space (`parseProcMapsEntry_line`).

It reads nothing of a line whose offset does not fit a `usize`, which can be where an address
has 32 bits: an offset always has 64. `usizeMax` is the largest `usize`.
-/

namespace VaporForge.Memory

open Lib Patterns
open CloudCore (isWhitespace)

/-! ## The parser -/

/-- `MAX_PROC_MAPS_LINE_LEN` -/
def maxProcMapsLineLen : Nat := 4096

/-- `MAX_PROC_MAPS_PATH_LEN` -/
def maxProcMapsPathLen : Nat := 1024

/-- `ModuleRange`; `stop` is its `end`. -/
structure ModuleRange where
  base : Nat
  stop : Nat
  size : Nat
  deriving DecidableEq, Repr

structure ProcMapsEntry where
  range : ModuleRange
  permissions : Text
  fileOffset : Nat
  path : Text
  deriving DecidableEq, Repr

def pushUsizeDigit (usizeMax value : Nat) (c : Char) : Option Nat := do
  let digit ← hexDigit c
  if value * 16 + digit ≤ usizeMax then some (value * 16 + digit) else none

/-- `usize::from_str_radix(text, 16)` -/
def usizeFromHex (usizeMax : Nat) (text : Text) : Option Nat :=
  let digits := match text with
    | '+' :: digits => digits
    | digits => digits
  if digits = [] then none else digits.foldlM (pushUsizeDigit usizeMax) 0

def parseProcMapsEntry (usizeMax : Nat) (line : Text) : Option ProcMapsEntry := do
  guard (byteLen line ≤ maxProcMapsLineLen)
  let parts := splitWhitespace line
  let range ← parts[0]?
  let permissions ← parts[1]?
  guard (byteLen permissions ≤ 16)
  let bounds ← splitOnceAt '-' range
  let start ← usizeFromHex usizeMax bounds.1
  let stop ← usizeFromHex usizeMax bounds.2
  let offset ← parts[2]?
  let fileOffset ← usizeFromHex usizeMax offset
  let _ ← parts[3]?
  let _ ← parts[4]?
  let path := parts[5]?.getD []
  guard (byteLen path ≤ maxProcMapsPathLen)
  return ⟨⟨start, stop, stop - start⟩, permissions, fileOffset, path⟩

/-! ## The kernel's lines -/

/-- What the kernel prints of one mapping. An anonymous mapping has the path `[]`. -/
structure Mapping where
  base : Nat
  stop : Nat
  readable : Bool
  writable : Bool
  executable : Bool
  shared : Bool
  offset : Nat
  major : Nat
  minor : Nat
  inode : Nat
  /-- The blanks before the path, beyond the one that ends the inode. -/
  padding : Nat
  path : Text
  deriving DecidableEq, Repr

/-- A number in hexadecimal, with `width` digits or more. -/
def hexColumn (width n : Nat) : Text :=
  List.replicate (width - (Nat.toDigits 16 n).length) '0' ++ Nat.toDigits 16 n

namespace Mapping

def range (m : Mapping) : ModuleRange := ⟨m.base, m.stop, m.stop - m.base⟩

def permissions (m : Mapping) : Text :=
  [if m.readable then 'r' else '-', if m.writable then 'w' else '-',
    if m.executable then 'x' else '-', if m.shared then 's' else 'p']

def addresses (m : Mapping) : Text := hexColumn 8 m.base ++ '-' :: hexColumn 8 m.stop

def device (m : Mapping) : Text := hexColumn 2 m.major ++ ':' :: hexColumn 2 m.minor

def pathColumn (m : Mapping) : Text :=
  if m.path = [] then [] else List.replicate m.padding ' ' ++ m.path

def line (m : Mapping) : Text :=
  m.addresses ++ ' ' :: (m.permissions ++ ' ' :: (hexColumn 8 m.offset ++ ' ' :: (m.device ++
    ' ' :: (Nat.toDigits 10 m.inode ++ ' ' :: m.pathColumn))))

end Mapping

/-- The first word of a text, or `[]`. -/
def firstWord (text : Text) : Text :=
  (text.dropWhile isWhitespace).takeWhile fun c => !isWhitespace c

/-- What is kept of a line. -/
def Mapping.entry (m : Mapping) : ProcMapsEntry :=
  ⟨m.range, m.permissions, m.offset, firstWord m.path⟩

/-! ## Words -/

/-- A column: not empty, and without white space. -/
def IsWord (text : Text) : Prop := text ≠ [] ∧ ∀ c ∈ text, isWhitespace c = false

variable {text text' : Text} {c : Char} {b : Nat}

theorem IsWord.append (h : IsWord text) (h' : ∀ c ∈ text', isWhitespace c = false) :
    IsWord (text ++ text') := by
  refine ⟨fun hnil => h.1 (List.append_eq_nil_iff.mp hnil).1, fun c hc => ?_⟩
  rcases List.mem_append.mp hc with hc | hc
  · exact h.2 c hc
  · exact h' c hc

theorem wordsFrom_append (h : ∀ c ∈ text, isWhitespace c = false) (rest : Text) :
    ∀ word, wordsFrom word (text ++ rest) = wordsFrom (text.reverse ++ word) rest := by
  induction text with
  | nil => exact fun _ => rfl
  | cons c text ih =>
    intro word
    rw [List.forall_mem_cons] at h
    rw [List.cons_append, wordsFrom, h.1, if_neg Bool.false_ne_true, ih h.2, List.reverse_cons,
      List.append_assoc, List.singleton_append]

theorem splitWhitespace_word (h : IsWord text) (rest : Text) :
    splitWhitespace (text ++ ' ' :: rest) = text :: splitWhitespace rest := by
  have hblank : isWhitespace ' ' = true := rfl
  rw [splitWhitespace, wordsFrom_append h.2, List.append_nil, wordsFrom, if_pos hblank, if_neg,
    List.reverse_reverse, splitWhitespace]
  exact fun hnil => h.1 (List.reverse_eq_nil_iff.mp hnil)

theorem splitWhitespace_blanks (n : Nat) (rest : Text) :
    splitWhitespace (List.replicate n ' ' ++ rest) = splitWhitespace rest := by
  induction n with
  | zero => rfl
  | succ n ih => exact ih

/-- White space at the end makes no word. -/
theorem splitWhitespace_concat (hc : isWhitespace c = true) (text : Text) :
    splitWhitespace (text ++ [c]) = splitWhitespace text := by
  have hwords : ∀ word, wordsFrom word (text ++ [c]) = wordsFrom word text := by
    induction text with
    | nil =>
      intro word
      simp only [List.nil_append, wordsFrom, if_pos hc, if_true]
    | cons d text ih =>
      intro word
      simp only [List.cons_append, wordsFrom, ih]
  exact hwords []

/-- The word that is begun ends with the next white space. -/
theorem head_wordsFrom (text : Text) : ∀ word ≠ [],
    (wordsFrom word text)[0]?.getD [] =
      word.reverse ++ text.takeWhile fun c => !isWhitespace c := by
  induction text with
  | nil =>
    intro word hne
    rw [wordsFrom, if_neg hne, List.takeWhile_nil, List.append_nil]
    rfl
  | cons c text ih =>
    intro word hne
    rw [wordsFrom]
    cases hc : isWhitespace c with
    | true => simp [hne, hc]
    | false => simp [ih (c :: word) (List.cons_ne_nil _ _), hc]

theorem head_splitWhitespace (text : Text) :
    (splitWhitespace text)[0]?.getD [] = firstWord text := by
  induction text with
  | nil => rfl
  | cons c text ih =>
    rw [splitWhitespace, wordsFrom, firstWord, List.dropWhile_cons]
    cases hc : isWhitespace c with
    | true => exact ih
    | false => simp [head_wordsFrom text [c] (List.cons_ne_nil _ _), hc]

theorem byteLen_le_of_sublist (h : text.Sublist text') : byteLen text ≤ byteLen text' := by
  induction h with
  | slnil => exact Nat.le_refl _
  | cons c _ ih =>
    simp only [byteLen, List.map_cons, List.sum_cons] at ih ⊢
    omega
  | cons_cons c _ ih =>
    simp only [byteLen, List.map_cons, List.sum_cons] at ih ⊢
    omega

theorem byteLen_firstWord_le (text : Text) : byteLen (firstWord text) ≤ byteLen text :=
  byteLen_le_of_sublist
    ((List.takeWhile_sublist _).trans (List.dropWhile_suffix _).sublist)

/-! ## Lines -/

/-- A line without the `\r` that may stand before its `\n`; it is given backwards. -/
def chomp : Text → Text
  | '\r' :: front => front.reverse
  | line => line.reverse

theorem linesFrom_line (h : '\n' ∉ text) (rest : Text) :
    ∀ line, linesFrom line (text ++ '\n' :: rest) =
      chomp (text.reverse ++ line) :: linesFrom [] rest := by
  induction text with
  | nil =>
    intro line
    rw [List.nil_append, List.reverse_nil, List.nil_append, linesFrom.eq_def, chomp.eq_def]
    rfl
  | cons c text ih =>
    intro line
    rw [List.mem_cons, not_or] at h
    rw [List.cons_append, linesFrom, ih h.2, List.reverse_cons, List.append_assoc,
      List.singleton_append]
    exact fun hc => h.1 hc.symm

theorem lines_flatMap {α : Type} {items : List α} {line : α → Text}
    (h : ∀ item ∈ items, '\n' ∉ line item) :
    lines (items.flatMap fun item => line item ++ ['\n']) =
      items.map fun item => chomp (line item).reverse := by
  induction items with
  | nil => rfl
  | cons item items ih =>
    rw [List.forall_mem_cons] at h
    rw [List.flatMap_cons, List.append_assoc, List.singleton_append, lines, linesFrom_line h.1,
      List.append_nil, List.map_cons]
    exact congrArg _ (ih h.2)

/-- The words of a line are left, and it gets no longer. -/
theorem chomp_reverse (text : Text) : splitWhitespace (chomp text.reverse) =
    splitWhitespace text ∧ byteLen (chomp text.reverse) ≤ byteLen text := by
  generalize hline : text.reverse = line
  obtain rfl : text = line.reverse := by rw [← hline, List.reverse_reverse]
  rw [chomp.eq_def]
  split
  · next front =>
    rw [List.reverse_cons]
    exact ⟨(splitWhitespace_concat rfl _).symm,
      byteLen_le_of_sublist (List.sublist_append_left _ _)⟩
  · exact ⟨rfl, Nat.le_refl _⟩

/-! ## Numbers -/

theorem mem_toDigits (hb : 1 < b) : ∀ n : Nat, c ∈ Nat.toDigits b n → ∃ d < b, c = d.digitChar := by
  intro n
  induction n using Nat.strong_induction_on with
  | _ n ih =>
    intro hc
    by_cases hn : n < b
    · rw [Nat.toDigits_of_lt_base hn, List.mem_singleton] at hc
      exact ⟨n, hn, hc⟩
    · have hle : b ≤ n := Nat.not_lt.mp hn
      rw [Nat.toDigits_of_base_le hb hle, List.mem_append, List.mem_singleton] at hc
      obtain hc | hc := hc
      · exact ih (n / b) (Nat.div_lt_self (by omega) hb) hc
      · exact ⟨n % b, Nat.mod_lt n (by omega), hc⟩

theorem digitChar_spec : ∀ d < 16, hexDigit d.digitChar = some d ∧
    isWhitespace d.digitChar = false ∧ d.digitChar ≠ '-' ∧ d.digitChar ≠ '+' := by decide

theorem isWord_toDigits (hb : 1 < b) (hle : b ≤ 16) (n : Nat) : IsWord (Nat.toDigits b n) := by
  refine ⟨Nat.toDigits_ne_nil, fun c hc => ?_⟩
  obtain ⟨d, hd, rfl⟩ := mem_toDigits hb n hc
  exact (digitChar_spec d (by omega)).2.1

theorem mem_hexColumn {width n : Nat} (hc : c ∈ hexColumn width n) : ∃ d < 16, c = d.digitChar := by
  rcases List.mem_append.mp hc with hc | hc
  · exact ⟨0, by decide, (List.mem_replicate.mp hc).2⟩
  · exact mem_toDigits (by decide) n hc

theorem isWord_hexColumn (width n : Nat) : IsWord (hexColumn width n) := by
  refine ⟨fun hnil => Nat.toDigits_ne_nil (List.append_eq_nil_iff.mp hnil).2, fun c hc => ?_⟩
  obtain ⟨d, hd, rfl⟩ := mem_hexColumn hc
  exact (digitChar_spec d hd).2.1

theorem pushUsizeDigit_digitChar (usizeMax value : Nat) {d : Nat} (hd : d < 16) :
    pushUsizeDigit usizeMax value d.digitChar =
      if value * 16 + d ≤ usizeMax then some (value * 16 + d) else none := by
  rw [pushUsizeDigit, (digitChar_spec d hd).1]
  rfl

/-- Digit by digit, a number is read unless it does not fit. -/
theorem foldlM_toDigits (usizeMax n : Nat) :
    (Nat.toDigits 16 n).foldlM (pushUsizeDigit usizeMax) 0 =
      if n ≤ usizeMax then some n else none := by
  induction n using Nat.strong_induction_on with
  | _ n ih =>
    by_cases hn : n < 16
    · rw [Nat.toDigits_of_lt_base hn, List.foldlM_cons, pushUsizeDigit_digitChar _ _ hn]
      simp
    · have hmod : n % 16 < 16 := Nat.mod_lt n (by decide)
      rw [Nat.toDigits_of_base_le (by decide) (Nat.not_lt.mp hn), List.foldlM_append,
        ih (n / 16) (by omega)]
      have hn : n / 16 * 16 + n % 16 = n := by omega
      by_cases hfront : n / 16 ≤ usizeMax
      · simp [hfront, pushUsizeDigit_digitChar _ _ hmod, hn]
      · have hover : ¬n ≤ usizeMax := by omega
        simp [hfront, hover]

theorem usizeFromHex_hexColumn (usizeMax width n : Nat) :
    usizeFromHex usizeMax (hexColumn width n) = if n ≤ usizeMax then some n else none := by
  have hzeros : ∀ k : Nat,
      (List.replicate k '0').foldlM (pushUsizeDigit usizeMax) 0 = some 0 := by
    intro k
    induction k with
    | zero => rfl
    | succ k ih => simpa [List.replicate_succ, pushUsizeDigit_digitChar _ _ (show 0 < 16 by decide)]
  rw [usizeFromHex]
  · rw [if_neg (isWord_hexColumn width n).1, hexColumn, List.foldlM_append, hzeros]
    exact foldlM_toDigits usizeMax n
  · intro digits hsign
    obtain ⟨d, hd, heq⟩ := mem_hexColumn (hsign ▸ List.mem_cons_self)
    exact (digitChar_spec d hd).2.2.2 heq.symm

/-! ## A line read back -/

variable {usizeMax : Nat}

theorem splitWhitespace_line (m : Mapping) :
    splitWhitespace m.line = m.addresses :: m.permissions :: hexColumn 8 m.offset :: m.device ::
      Nat.toDigits 10 m.inode :: splitWhitespace m.path := by
  have haddresses : IsWord m.addresses := by
    refine (isWord_hexColumn _ _).append (List.forall_mem_cons.mpr ⟨rfl, ?_⟩)
    exact (isWord_hexColumn _ _).2
  have hpermissions : IsWord m.permissions := by
    refine ⟨List.cons_ne_nil _ _, ?_⟩
    simp only [Mapping.permissions, List.forall_mem_cons]
    exact ⟨by split <;> rfl, by split <;> rfl, by split <;> rfl, by split <;> rfl,
      List.forall_mem_nil _⟩
  have hdevice : IsWord m.device := by
    refine (isWord_hexColumn _ _).append (List.forall_mem_cons.mpr ⟨rfl, ?_⟩)
    exact (isWord_hexColumn _ _).2
  have hpath : splitWhitespace m.pathColumn = splitWhitespace m.path := by
    rw [Mapping.pathColumn]
    split
    · next hnil => rw [hnil]
    · exact splitWhitespace_blanks _ _
  rw [Mapping.line, splitWhitespace_word haddresses, splitWhitespace_word hpermissions,
    splitWhitespace_word (isWord_hexColumn _ _), splitWhitespace_word hdevice,
    splitWhitespace_word (isWord_toDigits (by decide) (by decide) _), hpath]

theorem splitOnceAt_addresses (m : Mapping) :
    splitOnceAt '-' m.addresses = some (hexColumn 8 m.base, hexColumn 8 m.stop) := by
  have hdigits : ∀ c ∈ hexColumn 8 m.base, decide (c ≠ '-') = true := by
    intro c hc
    obtain ⟨d, hd, rfl⟩ := mem_hexColumn hc
    exact decide_eq_true (digitChar_spec d hd).2.2.1
  rw [splitOnceAt, Mapping.addresses, List.dropWhile_append_of_pos hdigits,
    List.takeWhile_append_of_pos hdigits]
  simp

/-- The entry of a line, whatever white space stands at its end. -/
theorem parseProcMapsEntry_line {m : Mapping}
    (hwords : splitWhitespace text = splitWhitespace m.line)
    (hline : byteLen text ≤ maxProcMapsLineLen) (hpath : byteLen m.path ≤ maxProcMapsPathLen)
    (hbase : m.base ≤ usizeMax) (hstop : m.stop ≤ usizeMax) :
    parseProcMapsEntry usizeMax text =
      if m.offset ≤ usizeMax then some m.entry else none := by
  have hpermissions : byteLen m.permissions ≤ 16 := by
    simp only [Mapping.permissions]
    cases m.readable <;> cases m.writable <;> cases m.executable <;> cases m.shared <;> decide
  have hfirst : byteLen (firstWord m.path) ≤ maxProcMapsPathLen :=
    Nat.le_trans (byteLen_firstWord_le _) hpath
  simp only [parseProcMapsEntry, hwords, splitWhitespace_line, List.getElem?_cons_zero,
    List.getElem?_cons_succ, head_splitWhitespace, splitOnceAt_addresses, usizeFromHex_hexColumn,
    hbase, hstop, hline, hpermissions, hfirst, guard, if_true, pure_bind, Option.bind_eq_bind,
    Option.bind_some]
  split
  · rfl
  · rfl

end VaporForge.Memory
