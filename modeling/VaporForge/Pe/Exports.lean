import Mathlib.Data.List.Basic
import VaporForge.Lib.Fallible
import VaporForge.Lib.KeyValues

/-!
# Exports of an executable image

The Proton helper looks an exported function up in an image file (`pe/src/lib.rs`): from the
header to the section table, from there to the export directory and its three tables, and
along the names. Every read is checked against the end of the buffer.

> A lookup is safe, and exact where the tables are well formed, exactly when no address it
> gets to lies in a section whose raw offset takes it past `u32` (`export_lookup_exact_iff`).

Translating an address adds the raw offset of its section without a check, and the offset
comes from the file (`raw_offset_overflows`). The helper is built for 64 bit: every other sum
is one of a `usize` from numbers of 32 bit.
-/

namespace VaporForge.Pe

open Lib

/-- Why a lookup has no result: it returns `None`, or an addition overflows. -/
inductive Stop where
  | missing
  | overflow
  deriving DecidableEq, Repr

section Model
variable (pe : List UInt8)

def readU16 (offset : Nat) : Except Stop Nat :=
  match pe.drop offset with
  | b0 :: b1 :: _ => .ok (b0.toNat + 256 * b1.toNat)
  | _ => .error .missing

def readU32 (offset : Nat) : Except Stop Nat :=
  match pe.drop offset with
  | b0 :: b1 :: b2 :: b3 :: _ =>
    .ok (b0.toNat + 256 * (b1.toNat + 256 * (b2.toNat + 256 * b3.toNat)))
  | _ => .error .missing

/-- `b as char` -/
def charOf (b : UInt8) : Char := Char.ofNat b.toNat

def readCstring (offset : Nat) : List Char :=
  ((pe.drop offset).takeWhile (· ≠ 0)).map charOf

/-- A section, as far as it is read. -/
structure Section where
  virtAddr : Nat
  virtSize : Nat
  rawOffset : Nat

def readSection (sec : Nat) : Except Stop Section := do
  let virtAddr ← readU32 pe (sec + 12)
  let virtSize ← readU32 pe (sec + 8)
  let rawOffset ← readU32 pe (sec + 20)
  return ⟨virtAddr, virtSize, rawOffset⟩

/-- The end of the section is in range, and the address is in the section. -/
def Section.Contains (s : Section) (rva : Nat) : Prop :=
  s.virtAddr + s.virtSize < 2 ^ 32 ∧ s.virtAddr ≤ rva ∧ rva < s.virtAddr + s.virtSize

instance (s : Section) (rva : Nat) : Decidable (s.Contains rva) :=
  inferInstanceAs (Decidable (_ ∧ _ ∧ _))

/-- Where the section has the address in the file. -/
def Section.offset (s : Section) (rva : Nat) : Nat := s.rawOffset + (rva - s.virtAddr)

/-- `raw_offset + (rva - virt_addr)`, in `u32`. -/
def checkedOffset (s : Section) (rva : Nat) : Except Stop Nat :=
  if s.offset rva < 2 ^ 32 then .ok (s.offset rva) else .error .overflow

/-- The loop of `rva_to_offset` over the last `n` sections, the one at `sec` first. -/
def offsetFrom (rva : Nat) : Nat → Nat → Except Stop Nat
  | 0, _ => .error .missing
  | n + 1, sec => do
    let s ← readSection pe sec
    if s.Contains rva then checkedOffset s rva else offsetFrom rva n (sec + 40)

structure Header where
  exportRva : Nat
  exportSize : Nat
  numSections : Nat
  sectionsStart : Nat

/-- `dd_offset`, by the magic number of the optional header. -/
def dataDirectory (optStart magic : Nat) : Except Stop Nat :=
  if magic = 0x10B then .ok (optStart + 96)
  else if magic = 0x20B then .ok (optStart + 112)
  else .error .missing

/-- The first part of `find_export_rva`. The number of sections is read a little later there,
from bytes in front of others that were read. -/
def readHeader : Except Stop Header := do
  let dosELfanew ← readU32 pe 0x3C
  let peSig ← readU32 pe dosELfanew
  if peSig ≠ 0x00004550 then throw .missing
  let coffStart := dosELfanew + 4
  let optionalHdrSize ← readU16 pe (coffStart + 16)
  let optStart := coffStart + 20
  let magic ← readU16 pe optStart
  let ddOffset ← dataDirectory optStart magic
  if ddOffset + 8 > optStart + optionalHdrSize then throw .missing
  let exportRva ← readU32 pe ddOffset
  let exportSize ← readU32 pe (ddOffset + 4)
  let numSections ← readU16 pe (coffStart + 2)
  return ⟨exportRva, exportSize, numSections, optStart + optionalHdrSize⟩

def rvaToOffset (h : Header) (rva : Nat) : Except Stop Nat :=
  offsetFrom pe rva h.numSections h.sectionsStart

/-- The fields of the export directory that are read. -/
structure Directory where
  numNames : Nat
  namesRva : Nat
  ordinalsRva : Nat
  functionsRva : Nat

def readDirectory (dir : Nat) : Except Stop Directory := do
  let numNames ← readU32 pe (dir + 24)
  let namesRva ← readU32 pe (dir + 32)
  let ordinalsRva ← readU32 pe (dir + 36)
  let functionsRva ← readU32 pe (dir + 28)
  return ⟨numNames, namesRva, ordinalsRva, functionsRva⟩

structure Tables where
  numNames : Nat
  namesOff : Nat
  ordinalsOff : Nat
  functionsOff : Nat

def readTables (h : Header) : Except Stop Tables := do
  let dir ← rvaToOffset pe h h.exportRva
  let d ← readDirectory pe dir
  let namesOff ← rvaToOffset pe h d.namesRva
  let ordinalsOff ← rvaToOffset pe h d.ordinalsRva
  let functionsOff ← rvaToOffset pe h d.functionsRva
  return ⟨d.numNames, namesOff, ordinalsOff, functionsOff⟩

/-- The address of the function with the name at `i`. -/
def functionRva (t : Tables) (i : Nat) : Except Stop Nat := do
  let ordinal ← readU16 pe (t.ordinalsOff + i * 2)
  readU32 pe (t.functionsOff + ordinal * 4)

/-- The file offset of the name at `i`. -/
def nameOffset (h : Header) (t : Tables) (i : Nat) : Except Stop Nat := do
  let nameRva ← readU32 pe (t.namesOff + i * 4)
  rvaToOffset pe h nameRva

/-- The loop over the last `n` names, the one at `i` first. -/
def searchNames (h : Header) (t : Tables) (name : List Char) : Nat → Nat → Except Stop Nat
  | 0, _ => .error .missing
  | n + 1, i => do
    let nameOff ← nameOffset pe h t i
    if readCstring pe nameOff = name then functionRva pe t i else searchNames h t name n (i + 1)

def findExportRva (name : List Char) : Except Stop Nat := do
  let h ← readHeader pe
  if h.exportRva = 0 ∨ h.exportSize = 0 then throw .missing
  let t ← readTables pe h
  searchNames pe h t name t.numNames 0

end Model

/-! ## Where it can overflow -/

/-- A step that does not overflow. -/
def Quiet {α : Type} (x : Except Stop α) : Prop := x ≠ .error .overflow

theorem Quiet.bind {α β : Type} {x : Except Stop α} {f : α → Except Stop β} (hx : Quiet x)
    (hf : ∀ a, Quiet (f a)) : Quiet (x >>= f) := by
  intro h
  rcases bind_eq_error.mp h with h | ⟨a, _, h⟩
  · exact hx h
  · exact hf a h

theorem quiet_ok {α : Type} (a : α) : Quiet (.ok a) := fun h => nomatch h

theorem quiet_missing {α : Type} : Quiet (.error .missing : Except Stop α) := fun h => nomatch h

section Quiet
variable (pe : List UInt8)

theorem quiet_readU16 (offset : Nat) : Quiet (readU16 pe offset) := by
  rw [readU16]
  split
  · exact quiet_ok _
  · exact quiet_missing

theorem quiet_readU32 (offset : Nat) : Quiet (readU32 pe offset) := by
  rw [readU32]
  split
  · exact quiet_ok _
  · exact quiet_missing

theorem quiet_readSection (sec : Nat) : Quiet (readSection pe sec) :=
  (quiet_readU32 pe _).bind fun _ => (quiet_readU32 pe _).bind fun _ =>
    (quiet_readU32 pe _).bind fun _ => quiet_ok _

theorem quiet_readDirectory (dir : Nat) : Quiet (readDirectory pe dir) :=
  (quiet_readU32 pe _).bind fun _ => (quiet_readU32 pe _).bind fun _ =>
    (quiet_readU32 pe _).bind fun _ => (quiet_readU32 pe _).bind fun _ => quiet_ok _

theorem quiet_functionRva (t : Tables) (i : Nat) : Quiet (functionRva pe t i) :=
  (quiet_readU16 pe _).bind fun _ => quiet_readU32 pe _

theorem quiet_readHeader : Quiet (readHeader pe) := by
  refine (quiet_readU32 pe _).bind fun lfanew => (quiet_readU32 pe _).bind fun sig => ?_
  split
  · exact quiet_missing
  · refine (quiet_readU16 pe _).bind fun size => (quiet_readU16 pe _).bind fun magic => ?_
    refine Quiet.bind ?_ fun dd => ?_
    · rw [dataDirectory]
      split
      · exact quiet_ok _
      · split
        · exact quiet_ok _
        · exact quiet_missing
    · split
      · exact quiet_missing
      · exact (quiet_readU32 pe _).bind fun _ => (quiet_readU32 pe _).bind fun _ =>
          (quiet_readU16 pe _).bind fun _ => quiet_ok _

end Quiet

/-- The first section with the address, of the last `n` from `sec` on. -/
def FirstFrom (pe : List UInt8) (rva n sec : Nat) (s : Section) : Prop :=
  ∃ i < n, readSection pe (sec + i * 40) = .ok s ∧ s.Contains rva ∧
    ∀ j < i, ∃ other, readSection pe (sec + j * 40) = .ok other ∧ ¬ other.Contains rva

variable {rva offset : Nat}

theorem offsetFrom_of_first {pe : List UInt8} {s : Section} : ∀ n sec : Nat,
    FirstFrom pe rva n sec s → offsetFrom pe rva n sec = checkedOffset s rva
  | 0, _, ⟨_, hi, _⟩ => absurd hi (Nat.not_lt_zero _)
  | n + 1, sec, ⟨i, hi, hread, hin, hbefore⟩ => by
    rw [offsetFrom]
    cases i with
    | zero =>
      rw [Nat.zero_mul, Nat.add_zero] at hread
      rw [hread]
      exact if_pos hin
    | succ i =>
      obtain ⟨other, hother, hout⟩ := hbefore 0 (Nat.succ_pos i)
      rw [Nat.zero_mul, Nat.add_zero] at hother
      rw [hother]
      refine (if_neg hout).trans (offsetFrom_of_first n (sec + 40) ⟨i, by omega, ?_, hin, ?_⟩)
      · rwa [show sec + 40 + i * 40 = sec + (i + 1) * 40 by omega]
      · intro j hj
        rw [show sec + 40 + j * 40 = sec + (j + 1) * 40 by omega]
        exact hbefore (j + 1) (by omega)

theorem offsetFrom_cases (pe : List UInt8) (rva : Nat) : ∀ n sec : Nat,
    offsetFrom pe rva n sec = .error .missing ∨ ∃ s, FirstFrom pe rva n sec s
  | 0, _ => .inl rfl
  | n + 1, sec => by
    rw [offsetFrom]
    cases hread : readSection pe sec with
    | error stop =>
      cases stop with
      | missing => exact .inl rfl
      | overflow => exact absurd hread (quiet_readSection pe sec)
    | ok s =>
      by_cases hin : s.Contains rva
      · refine .inr ⟨s, 0, Nat.succ_pos n, ?_, hin, fun j hj => absurd hj (Nat.not_lt_zero j)⟩
        rwa [Nat.zero_mul, Nat.add_zero]
      · rcases offsetFrom_cases pe rva n (sec + 40) with hnone | ⟨first, i, hi, hfirst, hall⟩
        · exact .inl ((if_neg hin).trans hnone)
        · refine .inr ⟨first, i + 1, by omega, ?_, hall.1, fun j hj => ?_⟩
          · rwa [show sec + (i + 1) * 40 = sec + 40 + i * 40 by omega]
          · cases j with
            | zero => exact ⟨s, by rwa [Nat.zero_mul, Nat.add_zero], hin⟩
            | succ j =>
              rw [show sec + (j + 1) * 40 = sec + 40 + j * 40 by omega]
              exact hall.2 j (by omega)

/-- The address lies in a section of the file that has it at `offset`. -/
def Located (pe : List UInt8) (h : Header) (rva offset : Nat) : Prop :=
  ∃ s, FirstFrom pe rva h.numSections h.sectionsStart s ∧ s.offset rva = offset

theorem rvaToOffset_of_located {pe : List UInt8} {h : Header} (hloc : Located pe h rva offset) :
    rvaToOffset pe h rva = if offset < 2 ^ 32 then .ok offset else .error .overflow := by
  obtain ⟨s, hfirst, rfl⟩ := hloc
  exact offsetFrom_of_first _ _ hfirst

theorem rvaToOffset_overflow_iff {pe : List UInt8} {h : Header} :
    rvaToOffset pe h rva = .error .overflow ↔
      ∃ offset, Located pe h rva offset ∧ 2 ^ 32 ≤ offset := by
  constructor
  · intro hover
    rcases offsetFrom_cases pe rva h.numSections h.sectionsStart with hnone | ⟨s, hfirst⟩
    · exact nomatch hnone.symm.trans hover
    · have hloc : Located pe h rva (s.offset rva) := ⟨s, hfirst, rfl⟩
      rw [rvaToOffset_of_located hloc] at hover
      split at hover
      · exact nomatch hover
      · next hbig => exact ⟨_, hloc, Nat.le_of_not_lt hbig⟩
  · intro hsome
    obtain ⟨offset, hloc, hbig⟩ := hsome
    rw [rvaToOffset_of_located hloc, if_neg (Nat.not_lt_of_le hbig)]

/-- The name at `j` is in the file, and is another one. -/
def OtherName (pe : List UInt8) (h : Header) (t : Tables) (name : List Char) (j : Nat) : Prop :=
  ∃ offset, nameOffset pe h t j = .ok offset ∧ readCstring pe offset ≠ name

/-- The addresses that a lookup gets to. -/
inductive LooksUp (pe : List UInt8) (name : List Char) (h : Header) : Nat → Prop
  | directory : LooksUp pe name h h.exportRva
  | names {dir : Nat} {d : Directory} : rvaToOffset pe h h.exportRva = .ok dir →
      readDirectory pe dir = .ok d → LooksUp pe name h d.namesRva
  | ordinals {dir names : Nat} {d : Directory} : rvaToOffset pe h h.exportRva = .ok dir →
      readDirectory pe dir = .ok d → rvaToOffset pe h d.namesRva = .ok names →
      LooksUp pe name h d.ordinalsRva
  | functions {dir names ordinals : Nat} {d : Directory} :
      rvaToOffset pe h h.exportRva = .ok dir → readDirectory pe dir = .ok d →
      rvaToOffset pe h d.namesRva = .ok names → rvaToOffset pe h d.ordinalsRva = .ok ordinals →
      LooksUp pe name h d.functionsRva
  | name {t : Tables} {rva i : Nat} : readTables pe h = .ok t → i < t.numNames →
      (∀ j < i, OtherName pe h t name j) → readU32 pe (t.namesOff + i * 4) = .ok rva →
      LooksUp pe name h rva

/-- An address that the lookup gets to lies past `u32` in the file. -/
def Overflows (pe : List UInt8) (name : List Char) : Prop :=
  ∃ h rva offset, readHeader pe = .ok h ∧ h.exportRva ≠ 0 ∧ h.exportSize ≠ 0 ∧
    LooksUp pe name h rva ∧ Located pe h rva offset ∧ 2 ^ 32 ≤ offset

section Overflow
variable {pe : List UInt8} {name : List Char} {h : Header} {t : Tables}

theorem searchNames_overflow_iff : ∀ n i : Nat,
    searchNames pe h t name n i = .error .overflow ↔
      ∃ k < n, (∀ j < k, OtherName pe h t name (i + j)) ∧
        nameOffset pe h t (i + k) = .error .overflow
  | 0, i =>
    ⟨fun hover => (nomatch hover), fun hsome => absurd hsome.choose_spec.1 (Nat.not_lt_zero _)⟩
  | n + 1, i => by
    rw [searchNames, bind_eq_error]
    have ih := searchNames_overflow_iff n (i + 1)
    constructor
    · intro hover
      rcases hover with hover | ⟨offset, hoffset, hrest⟩
      · exact ⟨0, Nat.succ_pos n, fun j hj => absurd hj (Nat.not_lt_zero j), hover⟩
      · split at hrest
        · exact absurd hrest (quiet_functionRva pe t i)
        · next hother =>
          obtain ⟨k, hk, hbefore, hover⟩ := ih.mp hrest
          rw [Nat.add_right_comm] at hover
          refine ⟨k + 1, by omega, fun j hj => ?_, hover⟩
          cases j with
          | zero => exact ⟨offset, hoffset, hother⟩
          | succ j =>
            rw [show i + (j + 1) = i + 1 + j by omega]
            exact hbefore j (by omega)
    · intro hsome
      obtain ⟨k, hk, hbefore, hover⟩ := hsome
      cases k with
      | zero => exact .inl hover
      | succ k =>
        obtain ⟨offset, hoffset, hother⟩ := hbefore 0 (Nat.succ_pos k)
        refine .inr ⟨offset, hoffset, (if_neg hother).trans (ih.mpr ⟨k, by omega, ?_, ?_⟩)⟩
        · intro j hj
          rw [show i + 1 + j = i + (j + 1) by omega]
          exact hbefore (j + 1) (by omega)
        · rwa [show i + 1 + k = i + (k + 1) by omega]

theorem nameOffset_overflow_iff {i : Nat} : nameOffset pe h t i = .error .overflow ↔
    ∃ rva, readU32 pe (t.namesOff + i * 4) = .ok rva ∧
      rvaToOffset pe h rva = .error .overflow := by
  rw [nameOffset, bind_eq_error]
  refine ⟨fun hover => ?_, .inr⟩
  rcases hover with hover | hover
  · exact absurd hover (quiet_readU32 pe _)
  · exact hover

/-- A step of `readTables` that overflows was reached. -/
theorem looksUp_of_readTables (hover : readTables pe h = .error .overflow) :
    ∃ rva, LooksUp pe name h rva ∧ rvaToOffset pe h rva = .error .overflow := by
  rw [readTables, bind_eq_error] at hover
  rcases hover with hover | ⟨dir, hdir, hover⟩
  · exact ⟨_, .directory, hover⟩
  rcases bind_eq_error.mp hover with hover | ⟨d, hd, hover⟩
  · exact absurd hover (quiet_readDirectory pe dir)
  rcases bind_eq_error.mp hover with hover | ⟨names, hnames, hover⟩
  · exact ⟨_, .names hdir hd, hover⟩
  rcases bind_eq_error.mp hover with hover | ⟨ordinals, hordinals, hover⟩
  · exact ⟨_, .ordinals hdir hd hnames, hover⟩
  rcases bind_eq_error.mp hover with hover | ⟨functions, -, hover⟩
  · exact ⟨_, .functions hdir hd hnames hordinals, hover⟩
  · exact nomatch hover

theorem findExportRva_eq : findExportRva pe name = (readHeader pe >>= fun h =>
    if h.exportRva = 0 ∨ h.exportSize = 0 then .error .missing
    else readTables pe h >>= fun t => searchNames pe h t name t.numNames 0) := rfl

theorem overflow_of_looksUp (hheader : readHeader pe = .ok h)
    (hexports : ¬ (h.exportRva = 0 ∨ h.exportSize = 0)) (hlooks : LooksUp pe name h rva)
    (hover : rvaToOffset pe h rva = .error .overflow) :
    findExportRva pe name = .error .overflow := by
  rw [findExportRva_eq, bind_eq_error]
  refine .inr ⟨h, hheader, (if_neg hexports).trans (bind_eq_error.mpr ?_)⟩
  cases hlooks with
  | directory => exact .inl (bind_eq_error.mpr (.inl hover))
  | @names dir d hdir hd =>
    refine .inl (bind_eq_error.mpr (.inr ⟨dir, hdir, bind_eq_error.mpr (.inr ⟨d, hd, ?_⟩)⟩))
    exact bind_eq_error.mpr (.inl hover)
  | @ordinals dir names d hdir hd hnames =>
    refine .inl (bind_eq_error.mpr (.inr ⟨dir, hdir, bind_eq_error.mpr (.inr ⟨d, hd, ?_⟩)⟩))
    refine bind_eq_error.mpr (.inr ⟨names, hnames, ?_⟩)
    exact bind_eq_error.mpr (.inl hover)
  | @functions dir names ordinals d hdir hd hnames hordinals =>
    refine .inl (bind_eq_error.mpr (.inr ⟨dir, hdir, bind_eq_error.mpr (.inr ⟨d, hd, ?_⟩)⟩))
    refine bind_eq_error.mpr (.inr ⟨names, hnames, ?_⟩)
    refine bind_eq_error.mpr (.inr ⟨ordinals, hordinals, ?_⟩)
    exact bind_eq_error.mpr (.inl hover)
  | @name t rva i ht hi hbefore hread =>
    refine .inr ⟨t, ht, (searchNames_overflow_iff _ 0).mpr ⟨i, hi, fun j hj => ?_, ?_⟩⟩
    · rw [Nat.zero_add]
      exact hbefore j hj
    · rw [Nat.zero_add]
      exact nameOffset_overflow_iff.mpr ⟨rva, hread, hover⟩

/-- The lookup overflows exactly where an address it gets to does. -/
theorem overflow_iff : findExportRva pe name = .error .overflow ↔ Overflows pe name := by
  constructor
  · intro hover
    rw [findExportRva_eq] at hover
    rcases bind_eq_error.mp hover with hover | ⟨h, hheader, hover⟩
    · exact absurd hover (quiet_readHeader pe)
    split at hover
    · exact nomatch hover
    · next hexports =>
      have hreached : ∃ rva, LooksUp pe name h rva ∧ rvaToOffset pe h rva = .error .overflow := by
        rcases bind_eq_error.mp hover with hover | ⟨t, ht, hover⟩
        · exact looksUp_of_readTables hover
        · obtain ⟨i, hi, hbefore, hover⟩ := (searchNames_overflow_iff _ 0).mp hover
          rw [Nat.zero_add] at hover
          obtain ⟨rva, hread, hover⟩ := nameOffset_overflow_iff.mp hover
          refine ⟨rva, .name ht hi (fun j hj => ?_) hread, hover⟩
          rw [← Nat.zero_add j]
          exact hbefore j hj
      obtain ⟨rva, hlooks, hover⟩ := hreached
      obtain ⟨offset, hloc, hbig⟩ := rvaToOffset_overflow_iff.mp hover
      rw [not_or] at hexports
      exact ⟨h, rva, offset, hheader, hexports.1, hexports.2, hlooks, hloc, hbig⟩
  · intro hsome
    obtain ⟨h, rva, offset, hheader, hrva, hsize, hlooks, hloc, hbig⟩ := hsome
    have hover := rvaToOffset_overflow_iff.mpr ⟨offset, hloc, hbig⟩
    exact overflow_of_looksUp hheader (not_or.mpr ⟨hrva, hsize⟩) hlooks hover

end Overflow

/-! ## Well-formed tables -/

/-- The bytes of an ASCII name. -/
def asciiBytes (name : List Char) : List UInt8 := name.map fun c => UInt8.ofNat c.toNat

/-- A string that ends with a zero byte. -/
def CStringAt (pe : List UInt8) (offset : Nat) (bytes : List UInt8) : Prop :=
  0 ∉ bytes ∧ ∃ rest, pe.drop offset = bytes ++ 0 :: rest

/-- An export: the bytes of its name, and its address. -/
abbrev Export := List UInt8 × Nat

/-- The export with the name at `i`. -/
def ExportAt (pe : List UInt8) (h : Header) (t : Tables) (i : Nat) (entry : Export) : Prop :=
  ∃ rva offset ordinal, readU32 pe (t.namesOff + i * 4) = .ok rva ∧ Located pe h rva offset ∧
    CStringAt pe offset entry.1 ∧ readU16 pe (t.ordinalsOff + i * 2) = .ok ordinal ∧
    readU32 pe (t.functionsOff + ordinal * 4) = .ok entry.2

/-- A well-formed image with these exports. -/
inductive ExportTable (pe : List UInt8) : List Export → Prop
  | absent {h : Header} : readHeader pe = .ok h → h.exportRva = 0 ∨ h.exportSize = 0 →
      ExportTable pe []
  | present {h : Header} {dir : Nat} {d : Directory} {t : Tables} {entries : List Export} :
      readHeader pe = .ok h → ¬ (h.exportRva = 0 ∨ h.exportSize = 0) →
      Located pe h h.exportRva dir → readDirectory pe dir = .ok d →
      Located pe h d.namesRva t.namesOff → Located pe h d.ordinalsRva t.ordinalsOff →
      Located pe h d.functionsRva t.functionsOff → t.numNames = d.numNames →
      entries.length = d.numNames →
      (∀ i entry, entries[i]? = some entry → ExportAt pe h t i entry) → ExportTable pe entries

/-- The address of the first export with the name. -/
def firstExport (entries : List Export) (name : List Char) : Option Nat :=
  (entries.find? (·.1 = asciiBytes name)).map Prod.snd

theorem readCstring_of_cStringAt {pe bytes : List UInt8} (h : CStringAt pe offset bytes) :
    readCstring pe offset = bytes.map charOf := by
  obtain ⟨hnonzero, rest, hdrop⟩ := h
  have hall : ∀ b ∈ bytes, decide (b ≠ 0) = true :=
    fun b hb => decide_eq_true fun hzero => hnonzero (hzero ▸ hb)
  rw [readCstring, hdrop, List.takeWhile_append_of_pos hall]
  rw [List.takeWhile_cons_of_neg (by simp), List.append_nil]

theorem toNat_charOf (b : UInt8) : (charOf b).toNat = b.toNat := by
  have hvalid : b.toNat.isValidChar := .inl (Nat.lt_trans b.toNat_lt (by decide))
  rw [charOf, Char.ofNat, dif_pos hvalid]
  rfl

theorem map_charOf_eq_iff {name : List Char} (hascii : ∀ c ∈ name, c.toNat < 128)
    (bytes : List UInt8) : bytes.map charOf = name ↔ bytes = asciiBytes name := by
  constructor
  · rintro rfl
    have hbyte : ∀ b, UInt8.ofNat (charOf b).toNat = b := by
      intro b
      rw [toNat_charOf, UInt8.ofNat_toNat]
    rw [asciiBytes, List.map_map]
    exact (List.map_id'' hbyte bytes).symm
  · rintro rfl
    rw [asciiBytes, List.map_map]
    refine (List.map_congr_left fun c hc => ?_).trans (List.map_id name)
    have hsmall := hascii c hc
    apply Char.toNat_inj.mp
    rw [Function.comp_apply, toNat_charOf, UInt8.toNat_ofNat', Nat.mod_eq_of_lt (by omega)]
    rfl

section Exact
variable {pe : List UInt8} {name : List Char} {h : Header} {t : Tables}

/-- Without overflow an address is found where it lies. -/
theorem rvaToOffset_ok (hloc : Located pe h rva offset) (hquiet : Quiet (rvaToOffset pe h rva)) :
    rvaToOffset pe h rva = .ok offset := by
  rw [rvaToOffset_of_located hloc] at hquiet ⊢
  split at hquiet
  · next hsmall => rw [if_pos hsmall]
  · exact absurd rfl hquiet

/-- What comes first does not overflow when the whole does not. -/
theorem Quiet.first {α β : Type} {x : Except Stop α} {f : α → Except Stop β}
    (hquiet : Quiet (x >>= f)) : Quiet x :=
  fun hover => hquiet (bind_eq_error.mpr (.inl hover))

theorem searchNames_of_exports (hascii : ∀ c ∈ name, c.toNat < 128) :
    ∀ (entries : List Export) (i : Nat),
      (∀ k entry, entries[k]? = some entry → ExportAt pe h t (i + k) entry) →
      Quiet (searchNames pe h t name entries.length i) →
      (searchNames pe h t name entries.length i).toOption = firstExport entries name
  | [], _, _, _ => rfl
  | entry :: entries, i, hat, hquiet => by
    obtain ⟨rva, offset, ordinal, hread, hloc, hname, hordinal, hfunction⟩ := hat 0 entry rfl
    rw [Nat.add_zero] at hread hordinal
    rw [List.length_cons, searchNames] at hquiet ⊢
    have hoffset : nameOffset pe h t i = .ok offset := by
      have hfirst := hquiet.first
      rw [nameOffset, hread] at hfirst ⊢
      exact rvaToOffset_ok hloc hfirst
    rw [hoffset] at hquiet ⊢
    have hstring := readCstring_of_cStringAt hname
    by_cases hsame : entry.1 = asciiBytes name
    · have heq : readCstring pe offset = name :=
        hstring.trans ((map_charOf_eq_iff hascii _).mpr hsame)
      have hfound : functionRva pe t i = .ok entry.2 :=
        bind_eq_ok.mpr ⟨ordinal, hordinal, hfunction⟩
      rw [firstExport, List.find?_cons_of_pos (by simpa using hsame)]
      exact congrArg Except.toOption ((if_pos heq).trans hfound)
    · have hne : readCstring pe offset ≠ name :=
        fun heq => hsame ((map_charOf_eq_iff hascii _).mp (hstring.symm.trans heq))
      have hrest : Quiet (searchNames pe h t name entries.length (i + 1)) :=
        fun hover => hquiet ((if_neg hne).trans hover)
      rw [firstExport, List.find?_cons_of_neg (by simpa using hsame)]
      refine (congrArg Except.toOption (if_neg hne)).trans ?_
      refine searchNames_of_exports hascii entries (i + 1) (fun k entry hk => ?_) hrest
      rw [show i + 1 + k = i + (k + 1) by omega]
      exact hat (k + 1) entry hk

theorem findExportRva_of_exports (hascii : ∀ c ∈ name, c.toNat < 128) {entries : List Export}
    (hexports : ExportTable pe entries) (hquiet : Quiet (findExportRva pe name)) :
    (findExportRva pe name).toOption = firstExport entries name := by
  rw [findExportRva_eq] at hquiet ⊢
  cases hexports with
  | @absent h hheader hnone =>
    rw [hheader]
    exact congrArg Except.toOption (if_pos hnone)
  | @present h dir d t _ hheader hsome hdir hd hnames hordinals hfunctions hnum hlen hat =>
    rw [hheader] at hquiet ⊢
    have hif : Quiet (readTables pe h >>= fun t => searchNames pe h t name t.numNames 0) :=
      fun hover => hquiet ((if_neg hsome).trans hover)
    -- each table is found, one after the other
    have htables := hif.first
    have hdir' := rvaToOffset_ok hdir htables.first
    rw [readTables, hdir'] at htables
    have htables : Quiet (readDirectory pe dir >>= _) := htables
    rw [hd] at htables
    have htables : Quiet (rvaToOffset pe h d.namesRva >>= _) := htables
    have hnames' := rvaToOffset_ok hnames htables.first
    rw [hnames'] at htables
    have htables : Quiet (rvaToOffset pe h d.ordinalsRva >>= _) := htables
    have hordinals' := rvaToOffset_ok hordinals htables.first
    rw [hordinals'] at htables
    have htables : Quiet (rvaToOffset pe h d.functionsRva >>= _) := htables
    have hfunctions' := rvaToOffset_ok hfunctions htables.first
    have hread : readTables pe h = .ok t := by
      rw [readTables, hdir']
      show (readDirectory pe dir >>= _) = _
      rw [hd]
      show (rvaToOffset pe h d.namesRva >>= _) = _
      rw [hnames']
      show (rvaToOffset pe h d.ordinalsRva >>= _) = _
      rw [hordinals']
      show (rvaToOffset pe h d.functionsRva >>= _) = _
      rw [hfunctions', ← hnum]
      rfl
    refine (congrArg Except.toOption (if_neg hsome)).trans ?_
    rw [hread] at hif ⊢
    have hsearch : Quiet (searchNames pe h t name entries.length 0) := by
      rw [hlen, ← hnum]
      exact hif
    have hresult := searchNames_of_exports hascii entries 0
      (fun k entry hk => by rw [Nat.zero_add]; exact hat k entry hk) hsearch
    rw [hlen, ← hnum] at hresult
    exact hresult

end Exact

/-- A lookup is safe and exact when no address it gets to is past `u32`, and only then. -/
theorem export_lookup_exact_iff (pe : List UInt8) (name : List Char)
    (hascii : ∀ c ∈ name, c.toNat < 128) :
    (findExportRva pe name ≠ .error .overflow ∧
      ∀ entries, ExportTable pe entries →
        (findExportRva pe name).toOption = firstExport entries name) ↔
    ¬ Overflows pe name := by
  constructor
  · intro hsafe hover
    exact hsafe.1 (overflow_iff.mpr hover)
  · intro hnone
    have hquiet : Quiet (findExportRva pe name) := fun hover => hnone (overflow_iff.mp hover)
    exact ⟨hquiet, fun entries hexports => findExportRva_of_exports hascii hexports hquiet⟩

/-- An image with one export `f` in one section, which begins 96 bytes before the export
directory and has this raw offset. The directory is at byte 232. -/
def image (rawOffset : Nat) : List UInt8 :=
  let header := List.replicate 60 0 ++ leBytes 4 64 ++ [0x50, 0x45, 0, 0] ++ leBytes 2 0 ++
    leBytes 2 1 ++ List.replicate 12 0 ++ leBytes 2 104 ++ leBytes 2 0
  let optional := leBytes 2 0x10B ++ List.replicate 94 0 ++ leBytes 4 4096 ++ leBytes 4 52
  let sections := List.replicate 8 0 ++ leBytes 4 200 ++ leBytes 4 4000 ++ leBytes 4 200 ++
    leBytes 4 rawOffset ++ List.replicate 16 0
  let directory := List.replicate 24 0 ++ leBytes 4 1 ++ leBytes 4 4142 ++ leBytes 4 4136 ++
    leBytes 4 4140
  header ++ optional ++ sections ++ directory ++ leBytes 4 4146 ++ leBytes 2 0 ++
    leBytes 4 0x1234 ++ [102, 0]

theorem export_of_image :
    (∀ c ∈ ['f'], c.toNat < 128) ∧ findExportRva (image 136) ['f'] = .ok 0x1234 ∧
    findExportRva (image 136) ['f'] ≠ .error .overflow ∧
    ∀ entries, ExportTable (image 136) entries →
      (findExportRva (image 136) ['f']).toOption = firstExport entries ['f'] := by
  have hascii : ∀ c ∈ ['f'], c.toNat < 128 := by
    intro c hc
    rw [List.mem_singleton.mp hc]
    decide
  have hfound : findExportRva (image 136) ['f'] = .ok 0x1234 := by decide +kernel
  have hnone : ¬ Overflows (image 136) ['f'] := by
    rw [← overflow_iff, hfound]
    exact fun hover => nomatch hover
  exact ⟨hascii, hfound, (export_lookup_exact_iff (image 136) ['f'] hascii).mpr hnone⟩

theorem raw_offset_overflows : findExportRva (image 0xFFFFFFFF) ['f'] = .error .overflow := by
  decide +kernel

end VaporForge.Pe
