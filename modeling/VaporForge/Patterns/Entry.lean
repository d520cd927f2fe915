import Mathlib.Order.Bounds.Basic
import VaporForge.Patterns.Search

/-!
# The entry before a body match

A pattern may match inside a function, right after the registers its entry saves. For such a
pattern `find_entry_pushes` of `patterns/src/lib.rs` walks back over the saves. How many there
are differs between builds, so the walk takes what it finds, at most `ENTRY_PUSH_SCAN` bytes.

Walking back over instructions of one and two bytes is a guess at every step. Here the guess
is always right, because no byte is both a prefix and a push:

> `find_entry_pushes` returns the least offset of the window from which the bytes up to the
> body are pushes, and fails when there is none (`find_entry_pushes_exact`).

`Pushes` reads the bytes forward, as the processor does. The walk is held to it from both
sides: the bytes it crossed are pushes (`walkPushes_pushes`), and it does not stop after an
offset from which the bytes are pushes (`walkPushes_le`).
-/

namespace VaporForge.Patterns

/-- `ENTRY_PUSH_SCAN` -/
def entryPushScan : Nat := 0x20

def isPushOpcode (byte : UInt8) : Bool := decide (0x50 ≤ byte ∧ byte ≤ 0x57)

/-- A REX prefix, which `find_entry_pushes` compares in place. -/
def isRexPrefix (byte : UInt8) : Bool := decide (0x40 ≤ byte ∧ byte ≤ 0x4f)

section Walk
variable (haystack : List UInt8) (bitness limit bodyOffset : Nat)

/-- `one`: a bare push ends at `entry`. -/
def oneBefore (entry : Nat) : Bool :=
  decide (1 ≤ entry ∧ bodyOffset - entry < limit) && (haystack[entry - 1]?).any isPushOpcode

/-- `two`: a prefixed push ends at `entry`. -/
def twoBefore (entry : Nat) : Bool :=
  decide (bitness = 64 ∧ 2 ≤ entry ∧ bodyOffset - entry + 2 ≤ limit) &&
    ((haystack[entry - 2]?).any isRexPrefix && (haystack[entry - 1]?).any isPushOpcode)

/-- The loop of `find_entry_pushes`, from `entry` on. -/
def walkPushes : Nat → Nat
  | 0 => 0
  | 1 => if oneBefore haystack limit bodyOffset 1 then walkPushes 0 else 1
  | entry + 2 =>
    if twoBefore haystack bitness limit bodyOffset (entry + 2) then walkPushes entry
    else if oneBefore haystack limit bodyOffset (entry + 2) then walkPushes (entry + 1)
    else entry + 2

def findEntryPushes : Except PatternError Nat :=
  if bodyOffset > haystack.length then .error .noMatch
  else
    let entry := walkPushes haystack bitness (min entryPushScan bodyOffset) bodyOffset bodyOffset
    if entry = bodyOffset then .error .noMatch else .ok entry

end Walk

/-! ## What is looked for -/

/-- Bytes that are complete register pushes, read from the first byte on. -/
inductive Pushes (bitness : Nat) : List UInt8 → Prop
  | nil : Pushes bitness []
  | push {byte : UInt8} {rest : List UInt8} : isPushOpcode byte → Pushes bitness rest →
      Pushes bitness (byte :: rest)
  | rexPush {rex byte : UInt8} {rest : List UInt8} : bitness = 64 → isRexPrefix rex →
      isPushOpcode byte → Pushes bitness rest → Pushes bitness (rex :: byte :: rest)

/-- The bytes from `first` up to `last`. -/
def slice (haystack : List UInt8) (first last : Nat) : List UInt8 :=
  (haystack.take last).drop first

/-- `offset` lies in the window before the body, and from it on there are pushes only. -/
def EntryOffset (haystack : List UInt8) (bitness bodyOffset offset : Nat) : Prop :=
  bodyOffset ≤ haystack.length ∧ offset < bodyOffset ∧ bodyOffset ≤ offset + entryPushScan ∧
    Pushes bitness (slice haystack offset bodyOffset)

/-! ## Pushes, read from the end -/

variable {l : List UInt8} {byte : UInt8} {first : Nat}

theorem Pushes.append {bitness : Nat} {m : List UInt8} (hl : Pushes bitness l)
    (hm : Pushes bitness m) : Pushes bitness (l ++ m) := by
  induction hl with
  | nil => exact hm
  | push hbyte _ ih => exact .push hbyte ih
  | rexPush h64 hrex hbyte _ ih => exact .rexPush h64 hrex hbyte ih

/-- The last push is a bare one or a prefixed one. -/
theorem Pushes.last {bitness : Nat} (h : Pushes bitness l) :
    l = [] ∨ (∃ front byte, l = front ++ [byte] ∧ isPushOpcode byte ∧ Pushes bitness front) ∨
      ∃ front rex byte, l = front ++ [rex, byte] ∧ bitness = 64 ∧ isRexPrefix rex ∧
        isPushOpcode byte ∧ Pushes bitness front := by
  induction h with
  | nil => exact .inl rfl
  | @push byte rest hbyte _ ih =>
    obtain rfl | ⟨front, last, rfl, hlast, hfront⟩ | ⟨front, rex, last, rfl, h64, hrex, hlast,
      hfront⟩ := ih
    · exact .inr (.inl ⟨[], byte, rfl, hbyte, .nil⟩)
    · exact .inr (.inl ⟨byte :: front, last, rfl, hlast, .push hbyte hfront⟩)
    · exact .inr (.inr ⟨byte :: front, rex, last, rfl, h64, hrex, hlast, .push hbyte hfront⟩)
  | @rexPush first byte rest h64 hfirst hbyte _ ih =>
    obtain rfl | ⟨front, last, rfl, hlast, hfront⟩ | ⟨front, rex, last, rfl, _, hrex, hlast,
      hfront⟩ := ih
    · exact .inr (.inr ⟨[], first, byte, rfl, h64, hfirst, hbyte, .nil⟩)
    · exact .inr (.inl ⟨first :: byte :: front, last, rfl, hlast,
        .rexPush h64 hfirst hbyte hfront⟩)
    · exact .inr (.inr ⟨first :: byte :: front, rex, last, rfl, h64, hrex, hlast,
        .rexPush h64 hfirst hbyte hfront⟩)

theorem not_push_of_rex (h : isRexPrefix byte = true) : isPushOpcode byte = false := by
  simp only [isRexPrefix, decide_eq_true_eq, UInt8.le_iff_toNat_le] at h
  simp only [isPushOpcode, decide_eq_false_iff_not, UInt8.le_iff_toNat_le]
  intro hpush
  have hlow : UInt8.toNat 0x50 = 0x50 := rfl
  have hhigh : UInt8.toNat 0x4f = 0x4f := rfl
  omega

/-! ## Slices -/

@[simp] theorem slice_self (haystack : List UInt8) (offset : Nat) :
    slice haystack offset offset = [] := by
  rw [slice, List.drop_eq_nil_iff, List.length_take]
  exact Nat.min_le_left _ _

theorem slice_succ {haystack : List UInt8} {last : Nat} (hle : first ≤ last)
    (hbyte : haystack[last]? = some byte) :
    slice haystack first (last + 1) = slice haystack first last ++ [byte] := by
  have hlen : last < haystack.length := (List.getElem?_eq_some_iff.mp hbyte).1
  have htake : (haystack.take last).length = last := by
    rw [List.length_take]
    omega
  rw [slice, List.take_add_one, hbyte, Option.toList_some,
    List.drop_append_of_le_length (by omega), slice]

theorem length_slice {haystack : List UInt8} {last : Nat} (first : Nat)
    (hlen : last ≤ haystack.length) : (slice haystack first last).length = last - first := by
  rw [slice, List.length_drop, List.length_take, Nat.min_eq_left hlen]

/-- The last instruction of a nonempty slice of pushes. -/
theorem last_push {haystack : List UInt8} {bitness last : Nat} (hlt : first < last)
    (hlen : last ≤ haystack.length) (h : Pushes bitness (slice haystack first last)) :
    (∃ byte, haystack[last - 1]? = some byte ∧ isPushOpcode byte) ∧
      (Pushes bitness (slice haystack first (last - 1)) ∨
        (bitness = 64 ∧ first + 2 ≤ last ∧
          (∃ rex, haystack[last - 2]? = some rex ∧ isRexPrefix rex) ∧
          Pushes bitness (slice haystack first (last - 2)))) := by
  obtain ⟨n, rfl⟩ : ∃ n, last = n + 1 := ⟨last - 1, by omega⟩
  have hn : haystack[n]? = some haystack[n] := List.getElem?_eq_getElem (by omega)
  have hslice := slice_succ (show first ≤ n by omega) hn
  obtain hnil | ⟨front, byte, heq, hbyte, hfront⟩ | ⟨front, rex, byte, heq, h64, hrex, hbyte,
    hfront⟩ := h.last
  · have hlength := length_slice first hlen
    rw [hnil] at hlength
    simp only [List.length_nil] at hlength
    omega
  · rw [hslice] at heq
    obtain ⟨rfl, hlast⟩ := List.append_inj' heq rfl
    obtain rfl : haystack[n] = byte := by simpa using hlast
    exact ⟨⟨_, hn, hbyte⟩, .inl hfront⟩
  · -- two bytes fit only when the slice has two
    have hlength := length_slice first hlen
    rw [heq, List.length_append] at hlength
    simp only [List.length_cons, List.length_nil] at hlength
    obtain ⟨m, rfl⟩ : ∃ m, n = m + 1 := ⟨n - 1, by omega⟩
    have hm : haystack[m]? = some haystack[m] := List.getElem?_eq_getElem (by omega)
    rw [hslice, slice_succ (show first ≤ m by omega) hm, List.append_assoc] at heq
    obtain ⟨rfl, hlast⟩ := List.append_inj' heq rfl
    simp only [List.cons_append, List.nil_append, List.cons.injEq, and_true] at hlast
    obtain ⟨rfl, rfl⟩ := hlast
    exact ⟨⟨_, hn, hbyte⟩, .inr ⟨h64, by omega, ⟨_, hm, hrex⟩, hfront⟩⟩

/-! ## The walk -/

section Walk
variable {haystack : List UInt8} {bitness limit bodyOffset entry offset : Nat}

theorem oneBefore_iff : oneBefore haystack limit bodyOffset entry = true ↔
    (1 ≤ entry ∧ bodyOffset - entry < limit) ∧
      ∃ byte, haystack[entry - 1]? = some byte ∧ isPushOpcode byte := by
  simp only [oneBefore, Bool.and_eq_true, decide_eq_true_eq, Option.any_eq_true]

theorem twoBefore_iff : twoBefore haystack bitness limit bodyOffset entry = true ↔
    (bitness = 64 ∧ 2 ≤ entry ∧ bodyOffset - entry + 2 ≤ limit) ∧
      (∃ rex, haystack[entry - 2]? = some rex ∧ isRexPrefix rex) ∧
      ∃ byte, haystack[entry - 1]? = some byte ∧ isPushOpcode byte := by
  simp only [twoBefore, Bool.and_eq_true, decide_eq_true_eq, Option.any_eq_true]

theorem walkPushes_le_self (entry : Nat) :
    walkPushes haystack bitness limit bodyOffset entry ≤ entry := by
  fun_induction walkPushes haystack bitness limit bodyOffset entry with
  | case2 _ ih => exact Nat.le_succ_of_le ih
  | _ => omega

/-- What the walk crosses are pushes, and it stays in the window. -/
theorem walkPushes_pushes (entry : Nat) (hbody : entry ≤ bodyOffset)
    (hwindow : bodyOffset ≤ entry + limit) :
    bodyOffset ≤ walkPushes haystack bitness limit bodyOffset entry + limit ∧
      Pushes bitness
        (slice haystack (walkPushes haystack bitness limit bodyOffset entry) entry) := by
  fun_induction walkPushes haystack bitness limit bodyOffset entry with
  | case1 => exact ⟨hwindow, by rw [slice_self]; exact .nil⟩
  | case2 hone ih =>
    obtain ⟨⟨_, hroom⟩, byte, hbyte, hpush⟩ := oneBefore_iff.mp hone
    have hnext : bodyOffset ≤ 0 + limit := by omega
    obtain ⟨hin, hpushes⟩ := ih (Nat.zero_le _) hnext
    refine ⟨hin, ?_⟩
    rw [slice_succ (walkPushes_le_self 0) hbyte]
    exact hpushes.append (.push hpush .nil)
  | case3 => exact ⟨hwindow, by rw [slice_self]; exact .nil⟩
  | case4 entry htwo ih =>
    obtain ⟨⟨h64, _, hroom⟩, ⟨rex, hrex, hisRex⟩, byte, hbyte, hpush⟩ := twoBefore_iff.mp htwo
    obtain ⟨hin, hpushes⟩ := ih (by omega) (by omega)
    have hle : walkPushes haystack bitness limit bodyOffset entry ≤ entry := walkPushes_le_self _
    refine ⟨hin, ?_⟩
    rw [slice_succ (Nat.le_succ_of_le hle) hbyte, slice_succ hle hrex, List.append_assoc]
    exact hpushes.append (.rexPush h64 hisRex hpush .nil)
  | case5 entry htwo hone ih =>
    obtain ⟨⟨_, hroom⟩, byte, hbyte, hpush⟩ := oneBefore_iff.mp hone
    obtain ⟨hin, hpushes⟩ := ih (by omega) (by omega)
    refine ⟨hin, ?_⟩
    rw [slice_succ (walkPushes_le_self (entry + 1)) hbyte]
    exact hpushes.append (.push hpush .nil)
  | case6 => exact ⟨hwindow, by rw [slice_self]; exact .nil⟩

/-- The walk does not stop after an offset from which there are pushes only. -/
theorem walkPushes_le (entry : Nat) (hbody : entry ≤ bodyOffset)
    (hlen : entry ≤ haystack.length) (hoffset : offset ≤ entry)
    (hwindow : bodyOffset ≤ offset + limit) (h : Pushes bitness (slice haystack offset entry)) :
    walkPushes haystack bitness limit bodyOffset entry ≤ offset := by
  -- A push ends at `entry`, so the walk goes on. When it takes two bytes where the decoding
  -- has one, the byte before is a prefix, which ends no push: the decoding starts after it.
  fun_induction walkPushes haystack bitness limit bodyOffset entry with
  | case1 => exact Nat.zero_le _
  | case2 _ ih => exact (walkPushes_le_self 0).trans (Nat.zero_le _)
  | case3 hone =>
    by_contra hlt
    have hzero : offset < 1 := by omega
    obtain ⟨hpush, _⟩ := last_push hzero hlen h
    exact hone (oneBefore_iff.mpr ⟨⟨Nat.le_refl 1, by omega⟩, hpush⟩)
  | case4 entry htwo ih =>
    obtain ⟨_, ⟨rex, hrex, hisRex⟩, _⟩ := twoBefore_iff.mp htwo
    have hle : walkPushes haystack bitness limit bodyOffset entry ≤ entry := walkPushes_le_self _
    by_cases hnear : offset ≤ entry
    · obtain ⟨_, hone | ⟨_, _, _, hrest⟩⟩ := last_push (show offset < entry + 2 by omega) hlen h
      · obtain ⟨hpush, _⟩ := last_push (show offset < entry + 1 by omega) (by omega) hone
        obtain ⟨byte, hbyte, hispush⟩ := hpush
        obtain rfl : rex = byte := Option.some.inj (hrex.symm.trans hbyte)
        rw [not_push_of_rex hisRex] at hispush
        exact nomatch hispush
      · exact ih (by omega) (by omega) hnear hrest
    · omega
  | case5 entry htwo hone ih =>
    by_cases hsame : offset = entry + 2
    · exact (walkPushes_le_self _).trans (by omega)
    · have hlt : offset < entry + 2 := by omega
      obtain ⟨hpush, hrest | ⟨h64, hroom, hrex, _⟩⟩ := last_push hlt hlen h
      · exact ih (by omega) (by omega) (by omega) hrest
      · exact absurd (twoBefore_iff.mpr ⟨⟨h64, by omega, by omega⟩, hrex,
          hpush⟩) htwo
  | case6 entry htwo hone =>
    by_contra hlt
    obtain ⟨hpush, _⟩ := last_push (show offset < entry + 2 by omega) hlen h
    exact hone (oneBefore_iff.mpr ⟨⟨by omega, by omega⟩, hpush⟩)

end Walk

/-! ## Exactness -/

section Exact
variable (haystack : List UInt8) (bitness bodyOffset : Nat)

/-- An offset that is looked for is found, and what is found is the least of them. -/
theorem findEntryPushes_of_entryOffset {offset : Nat}
    (h : EntryOffset haystack bitness bodyOffset offset) :
    ∃ entry ≤ offset, findEntryPushes haystack bitness bodyOffset = .ok entry := by
  obtain ⟨hlen, hlt, hwindow, hpushes⟩ := h
  have hlimit : bodyOffset ≤ offset + min entryPushScan bodyOffset := by omega
  have hle := walkPushes_le _ (Nat.le_refl bodyOffset) hlen hlt.le hlimit hpushes
  refine ⟨_, hle, ?_⟩
  rw [findEntryPushes, if_neg (by omega), if_neg (by omega)]

theorem entryOffset_of_findEntryPushes {entry : Nat}
    (h : findEntryPushes haystack bitness bodyOffset = .ok entry) :
    EntryOffset haystack bitness bodyOffset entry := by
  simp only [findEntryPushes] at h
  split at h
  · exact nomatch h
  · next hlen =>
    split at h
    · exact nomatch h
    · next hmoved =>
      obtain rfl := Except.ok.inj h
      generalize hlimit : min entryPushScan bodyOffset = limit at hmoved ⊢
      have hle : walkPushes haystack bitness limit bodyOffset bodyOffset ≤ bodyOffset :=
        walkPushes_le_self _
      have hwindow : bodyOffset ≤ bodyOffset + limit := Nat.le_add_right _ _
      obtain ⟨hin, hpushes⟩ := walkPushes_pushes _ (Nat.le_refl bodyOffset) hwindow
      exact ⟨by omega, by omega, by omega, hpushes⟩

theorem findEntryPushes_error {error : PatternError}
    (h : findEntryPushes haystack bitness bodyOffset = .error error) : error = .noMatch := by
  simp only [findEntryPushes] at h
  split at h
  · exact (Except.error.inj h).symm
  · split at h
    · exact (Except.error.inj h).symm
    · exact nomatch h

/-- The walk back from the body is exact, for code of either kind. -/
theorem find_entry_pushes_exact :
    (∀ entry, findEntryPushes haystack bitness bodyOffset = .ok entry ↔
      IsLeast {offset | EntryOffset haystack bitness bodyOffset offset} entry) ∧
    (findEntryPushes haystack bitness bodyOffset = .error .noMatch ↔
      ¬∃ offset, EntryOffset haystack bitness bodyOffset offset) := by
  cases hfind : findEntryPushes haystack bitness bodyOffset with
  | ok found =>
    have hfound := entryOffset_of_findEntryPushes _ _ _ hfind
    have hleast : ∀ offset, EntryOffset haystack bitness bodyOffset offset → found ≤ offset := by
      intro offset hoffset
      obtain ⟨entry, hle, hentry⟩ := findEntryPushes_of_entryOffset _ _ _ hoffset
      obtain rfl := Except.ok.inj (hfind.symm.trans hentry)
      exact hle
    have hisLeast : IsLeast {offset | EntryOffset haystack bitness bodyOffset offset} found :=
      ⟨hfound, hleast⟩
    refine ⟨fun entry => ⟨fun h => Except.ok.inj h ▸ hisLeast, fun h => ?_⟩, ?_⟩
    · rw [h.unique hisLeast]
    · exact ⟨fun h => (nomatch h), fun h => absurd ⟨found, hfound⟩ h⟩
  | error error =>
    have hnone : ¬∃ offset, EntryOffset haystack bitness bodyOffset offset := by
      intro hsome
      obtain ⟨offset, hoffset⟩ := hsome
      obtain ⟨entry, _, hentry⟩ := findEntryPushes_of_entryOffset _ _ _ hoffset
      exact nomatch hfind.symm.trans hentry
    refine ⟨fun entry => ⟨fun h => (nomatch h), fun h => absurd ⟨entry, h.1⟩ hnone⟩, ?_⟩
    exact ⟨fun _ => hnone, fun _ => by rw [findEntryPushes_error _ _ _ hfind]⟩

end Exact

end VaporForge.Patterns
