import VaporForge.Lib.Utf8
import VaporForge.Lib.Assoc

/-!
# Flags in launch options

A library or a loader fix may be guarded by a flag: it applies to launches whose options carry
the flag as a word. `flag_appears_in` of `features/src/launch_options.rs` looks for the flag
from left to right. After an occurrence that is no word it goes on behind the occurrence, so
one that overlaps it is never looked at; and a NUL byte counts as a separator.

> The search always ends and never cuts a character. It answers whether the flag is a word
> unless every occurrence it looks at fails beside a word it does not look at, or it takes an
> occurrence beside a NUL for a word (`flag_recognised_exactly_iff`).

`Scanned` is the sequence of occurrences that are looked at. A flag without a separator in it
cannot hide (`not_hidden_of_plain`).
-/

namespace VaporForge.Features

open Lib

abbrev Chars := List Char

/-- `str::find`, as a byte offset. -/
def findText (needle : Chars) : Chars → Option Nat
  | [] => if needle = [] then some 0 else none
  | c :: text =>
    if needle.isPrefixOf (c :: text) then some 0
    else (findText needle text).map (· + c.utf8Size)

/-- The closure `sep`. -/
def sepByte (byte : UInt8) : Bool :=
  byte == 0x20 || byte == 0x09 || byte == 0x22 || byte == 0x27 || byte == 0

/-- The byte before a position; the start of the text counts as a space. -/
def byteBefore (text : Chars) (pos : Nat) : UInt8 :=
  if pos > 0 then (utf8Bytes text).getD (pos - 1) 0 else 0x20

/-- The byte at a position, zero at the end. -/
def byteAfter (text : Chars) (pos : Nat) : UInt8 := (utf8Bytes text).getD pos 0

variable {text seen rest : Chars}

theorem byteLen_pos (h : text ≠ []) : 0 < byteLen text := by
  cases text with
  | nil => exact absurd rfl h
  | cons c text =>
    have := c.utf8Size_pos
    rw [byteLen_cons]
    omega

/-- The loop of `flag_appears_in`. -/
def scanFlag (haystack needle : Chars) (hne : needle ≠ []) (pos : Nat) : Ran Bool :=
  if pos + byteLen needle ≤ byteLen haystack then
    match splitAtByte haystack pos with
    | none => .aborted
    | some (_, rest) =>
      match findText needle rest with
      | none => .returned false
      | some found =>
        let abs := pos + found
        let afterPos := abs + byteLen needle
        if sepByte (byteBefore haystack abs) && sepByte (byteAfter haystack afterPos) then
          .returned true
        else scanFlag haystack needle hne afterPos
  else .returned false
termination_by byteLen haystack - pos
decreasing_by
  have := byteLen_pos hne
  omega

def flagAppearsIn (haystack needle : Chars) : Ran Bool :=
  if hne : needle = [] then .returned false else scanFlag haystack needle hne 0

/-! ## Rules -/

structure LibraryInjectEntry where
  path : Chars
  flag : Chars
  apps : List Nat
  exclude : List Nat

structure LoaderFixSection where
  flag : Chars
  apps : List Nat
  exclude : List Nat

structure PendingInjection where
  nativeLibs : List Chars
  protonDll : Option Chars
  loaderFix : Bool

/-- The checks of `evaluate` that a library passes, or is passed over. -/
def LibraryInjectEntry.applies (lib : LibraryInjectEntry) (appId : Nat) (launchOpts : Chars) :
    Bool :=
  (lib.apps.isEmpty || lib.apps.contains appId) && !lib.exclude.contains appId &&
    (lib.flag.isEmpty ||
      (!launchOpts.isEmpty && flagAppearsIn launchOpts lib.flag == .returned true))

def loaderFixRequested (fix : LoaderFixSection) (appId : Nat) (launchOpts : Chars) : Bool :=
  !fix.exclude.contains appId && (fix.apps.contains appId ||
    (!fix.flag.isEmpty && flagAppearsIn launchOpts fix.flag == .returned true))

/-- The part of the loop in `evaluate` behind the checks. -/
def PendingInjection.add (pending : PendingInjection) (path : Chars) : PendingInjection :=
  if ".dll".toList.isSuffixOf path then
    { pending with protonDll := pending.protonDll <|> some path }
  else if ".so".toList.isSuffixOf path || (findText ".so.".toList path).isSome then
    { pending with nativeLibs := pending.nativeLibs ++ [path] }
  else pending

/-- `evaluate`, with `PENDING` passed along. -/
def evaluate (appId : Nat) (libs : List LibraryInjectEntry) (loaderFix : Bool)
    (launchOpts : Chars) (pending : Assoc Nat PendingInjection) : Assoc Nat PendingInjection :=
  let injection := libs.foldl (fun injection lib =>
    if lib.applies appId launchOpts then injection.add lib.path else injection)
    ⟨[], none, loaderFix⟩
  if injection.nativeLibs ≠ [] ∨ injection.protonDll.isSome ∨ loaderFix then
    (pending.erase appId).insert appId injection
  else pending.erase appId

/-! ## Words -/

def IsSeparator (c : Char) : Prop := c = ' ' ∨ c = '\t' ∨ c = '\x22' ∨ c = '\x27'

/-- The flag stands between `front` and `back`, with a separator or an end on either side. -/
def Bounded (separator : Char → Prop) (front back : Chars) : Prop :=
  (∀ c ∈ front.getLast?, separator c) ∧ ∀ c ∈ back.head?, separator c

def OccursAsWord (haystack needle : Chars) : Prop :=
  ∃ front back, haystack = front ++ (needle ++ back) ∧ Bounded IsSeparator front back

/-- What the search takes for a separator. -/
def IsSeparatorOrNul (c : Char) : Prop := IsSeparator c ∨ c = '\x00'

structure Leftmost (needle text front back : Chars) : Prop where
  occurs : text = front ++ (needle ++ back)
  first : ∀ front' back', text = front' ++ (needle ++ back') → front.length ≤ front'.length

/-- The occurrences that are looked at when the search goes on with `rest`: the leftmost, and
those looked at behind it. -/
inductive Scanned (needle : Chars) : Chars → Chars → Chars → Chars → Prop
  | found {seen rest front back : Chars} : Leftmost needle rest front back →
      Scanned needle seen rest (seen ++ front) back
  | further {seen rest front back front' back' : Chars} : Leftmost needle rest front back →
      Scanned needle (seen ++ front ++ needle) back front' back' →
      Scanned needle seen rest front' back'

/-- There is a word, and nothing that is looked at is one. -/
def Hidden (haystack needle : Chars) : Prop :=
  OccursAsWord haystack needle ∧
    ∀ front back, Scanned needle [] haystack front back → ¬Bounded IsSeparatorOrNul front back

/-- There is no word, and something that is looked at is taken for one. -/
def Spurious (haystack needle : Chars) : Prop :=
  ¬OccursAsWord haystack needle ∧
    ∃ front back, Scanned needle [] haystack front back ∧ Bounded IsSeparatorOrNul front back

/-! ## Bytes beside an occurrence -/

theorem sepByte_iff (byte : UInt8) : sepByte byte = true ↔
    byte.toNat = 0x20 ∨ byte.toNat = 0x09 ∨ byte.toNat = 0x22 ∨ byte.toNat = 0x27 ∨
      byte.toNat = 0 := by
  simp only [sepByte, Bool.or_eq_true, beq_iff_eq, ← UInt8.toNat_inj, or_assoc]
  rfl

theorem isSeparatorOrNul_iff (c : Char) : IsSeparatorOrNul c ↔
    c.toNat = 0x20 ∨ c.toNat = 0x09 ∨ c.toNat = 0x22 ∨ c.toNat = 0x27 ∨ c.toNat = 0 := by
  simp only [IsSeparatorOrNul, IsSeparator, ← Char.toNat_inj, or_assoc]
  rfl

/-- Any byte of a character decides whether it is a separator. -/
theorem sepByte_of_mem {c : Char} {byte : UInt8} (h : byte ∈ String.utf8EncodeChar c) :
    sepByte byte = true ↔ IsSeparatorOrNul c := by
  rw [sepByte_iff, isSeparatorOrNul_iff]
  by_cases hascii : c.toNat < 0x80
  · rw [utf8EncodeChar_ascii hascii, List.mem_singleton] at h
    subst h
    have hvalue : (UInt8.ofNat c.toNat).toNat = c.toNat := by
      rw [UInt8.toNat_ofNat']
      omega
    rw [hvalue]
  · have hwide := le_of_mem_utf8EncodeChar (Nat.le_of_not_lt hascii) h
    omega

theorem sepByte_byteBefore (front rest : Chars) :
    sepByte (byteBefore (front ++ rest) (byteLen front)) = true ↔
      ∀ c ∈ front.getLast?, IsSeparatorOrNul c := by
  rcases List.eq_nil_or_concat front with rfl | ⟨init, c, rfl⟩
  · simp only [byteLen_nil, List.getLast?_nil, Option.not_mem_none, false_imp_iff, implies_true,
      iff_true]
    rfl
  · have hsize := c.utf8Size_pos
    have hlen : byteLen (init.concat c) = byteLen init + c.utf8Size := by simp
    -- the last byte of the last character
    have hindex : c.utf8Size - 1 < (String.utf8EncodeChar c).length := by
      rw [String.length_utf8EncodeChar]
      omega
    have hbyte : byteBefore (init.concat c ++ rest) (byteLen (init.concat c)) =
        (String.utf8EncodeChar c)[c.utf8Size - 1] := by
      have hpos : byteLen init + c.utf8Size - 1 = (utf8Bytes init).length + (c.utf8Size - 1) := by
        rw [length_utf8Bytes]
        omega
      rw [byteBefore, hlen, if_pos (by omega), hpos, List.concat_eq_append, List.append_assoc,
        utf8Bytes_append, List.cons_append, List.nil_append, utf8Bytes_cons,
        List.getD_eq_getElem?_getD, List.getElem?_append_right (Nat.le_add_right _ _),
        Nat.add_sub_cancel_left, List.getElem?_append_left hindex,
        List.getElem?_eq_getElem hindex, Option.getD_some]
    rw [hbyte, sepByte_of_mem (List.getElem_mem hindex)]
    simp

theorem sepByte_byteAfter (front back : Chars) :
    sepByte (byteAfter (front ++ back) (byteLen front)) = true ↔
      ∀ c ∈ back.head?, IsSeparatorOrNul c := by
  rw [byteAfter, utf8Bytes_append, List.getD_eq_getElem?_getD,
    List.getElem?_append_right (by rw [length_utf8Bytes]), length_utf8Bytes, Nat.sub_self]
  cases back with
  | nil =>
    simp only [List.head?_nil, Option.not_mem_none, false_imp_iff, implies_true, iff_true]
    rfl
  | cons c back =>
    have hindex : 0 < (String.utf8EncodeChar c).length := by
      rw [String.length_utf8EncodeChar]
      exact c.utf8Size_pos
    rw [utf8Bytes_cons, List.getElem?_append_left hindex, List.getElem?_eq_getElem hindex,
      Option.getD_some, sepByte_of_mem (List.getElem_mem hindex)]
    simp

/-! ## The search -/

variable {needle front back haystack : Chars}

theorem findText_none : ∀ {text : Chars}, findText needle text = none →
    ∀ front back, text ≠ front ++ (needle ++ back) := by
  intro text
  induction text with
  | nil =>
    intro h front back heq
    have hnil := List.append_eq_nil_iff.mp (List.append_eq_nil_iff.mp heq.symm).2
    rw [findText, if_pos hnil.1] at h
    exact nomatch h
  | cons c text ih =>
    intro h front back heq
    rw [findText] at h
    split at h
    · exact nomatch h
    · next hprefix =>
      cases front with
      | nil =>
        rw [List.nil_append] at heq
        exact hprefix (List.isPrefixOf_iff_prefix.mpr ⟨back, heq.symm⟩)
      | cons d front =>
        exact ih (Option.map_eq_none_iff.mp h) front back (List.cons.inj heq).2

theorem findText_some : ∀ {text : Chars} {found : Nat},
    findText needle text = some found →
      ∃ front back, Leftmost needle text front back ∧ found = byteLen front := by
  intro text
  induction text with
  | nil =>
    intro found h
    rw [findText] at h
    split at h
    · next hnil =>
      obtain rfl := Option.some.inj h
      exact ⟨[], [], ⟨by rw [hnil]; rfl, fun _ _ _ => Nat.zero_le _⟩, rfl⟩
    · exact nomatch h
  | cons c text ih =>
    intro found h
    rw [findText] at h
    split at h
    · next hprefix =>
      obtain rfl := Option.some.inj h
      obtain ⟨back, hback⟩ := List.isPrefixOf_iff_prefix.mp hprefix
      exact ⟨[], back, ⟨hback.symm, fun _ _ _ => Nat.zero_le _⟩, rfl⟩
    · next hprefix =>
      obtain ⟨offset, hoffset, rfl⟩ := Option.map_eq_some_iff.mp h
      obtain ⟨front, back, hleft, rfl⟩ := ih hoffset
      refine ⟨c :: front, back, ⟨by rw [hleft.occurs]; rfl, ?_⟩, ?_⟩
      · intro front' back' heq
        cases front' with
        | nil => exact absurd (List.isPrefixOf_iff_prefix.mpr ⟨back', heq.symm⟩) hprefix
        | cons d front' =>
          have hrest := hleft.first front' back' (List.cons.inj heq).2
          simp only [List.length_cons]
          omega
      · rw [byteLen_cons, Nat.add_comm]

theorem Leftmost.unique {front' back' : Chars} (h : Leftmost needle text front back)
    (h' : Leftmost needle text front' back') : front = front' ∧ back = back' := by
  have hlen : front.length = front'.length :=
    Nat.le_antisymm (h.first _ _ h'.occurs) (h'.first _ _ h.occurs)
  obtain ⟨rfl, hrest⟩ := List.append_inj (h.occurs.symm.trans h'.occurs) hlen
  exact ⟨rfl, List.append_cancel_left hrest⟩

theorem not_scanned (h : ∀ front back, rest ≠ front ++ (needle ++ back)) :
    ¬Scanned needle seen rest front back := by
  intro hscanned
  cases hscanned with
  | found hleft => exact h _ _ hleft.occurs
  | further hleft _ => exact h _ _ hleft.occurs

/-- The loop, when it goes on behind `seen`. The induction is on what is left. -/
theorem scanFlag_spec (hne : needle ≠ []) (seen rest : Chars) (hsplit : haystack = seen ++ rest) :
    ∃ answer, scanFlag haystack needle hne (byteLen seen) = .returned answer ∧
      (answer = true ↔ ∃ front back, Scanned needle seen rest front back ∧
        Bounded IsSeparatorOrNul front back) := by
  induction hlen : rest.length using Nat.strong_induction_on generalizing seen rest with
  | _ n ih =>
  subst hsplit
  -- when nothing is found the answer is no, and nothing is looked at
  have hnothing (h : ∀ front back, rest ≠ front ++ (needle ++ back)) : (false = true ↔
      ∃ front back, Scanned needle seen rest front back ∧ Bounded IsSeparatorOrNul front back) := by
    refine ⟨fun hf => (nomatch hf), fun hsome => ?_⟩
    obtain ⟨front, back, hscanned, _⟩ := hsome
    exact absurd hscanned (not_scanned h)
  rw [scanFlag]
  split
  · rw [splitAtByte_append]
    simp only
    cases hfind : findText needle rest with
    | none => exact ⟨false, rfl, hnothing (findText_none hfind)⟩
    | some found =>
      obtain ⟨front, back, hleft, rfl⟩ := findText_some hfind
      have hrest := hleft.occurs
      have hbefore : sepByte (byteBefore (seen ++ rest) (byteLen seen + byteLen front)) = true ↔
          ∀ c ∈ (seen ++ front).getLast?, IsSeparatorOrNul c := by
        rw [← byteLen_append, hrest, ← List.append_assoc, sepByte_byteBefore]
      have hafter : sepByte (byteAfter (seen ++ rest)
          (byteLen seen + byteLen front + byteLen needle)) = true ↔
          ∀ c ∈ back.head?, IsSeparatorOrNul c := by
        rw [← byteLen_append, ← byteLen_append, hrest, ← List.append_assoc, ← List.append_assoc,
          sepByte_byteAfter]
      dsimp only
      split
      · next hsep =>
        obtain ⟨hb, ha⟩ := (Bool.and_eq_true _ _).mp hsep
        exact ⟨true, rfl, fun _ => ⟨_, _, .found hleft, hbefore.mp hb, hafter.mp ha⟩,
          fun _ => rfl⟩
      · next hsep =>
        have hshorter : back.length < n := by
          have := List.length_pos_of_ne_nil hne
          rw [← hlen, hrest, List.length_append, List.length_append]
          omega
        have hsame : seen ++ rest = seen ++ front ++ needle ++ back := by
          rw [hrest, List.append_assoc, List.append_assoc]
        obtain ⟨answer, hrun, hanswer⟩ := ih _ hshorter (seen ++ front ++ needle) back hsame rfl
        refine ⟨answer, ?_, hanswer.trans ⟨fun h => ?_, fun h => ?_⟩⟩
        · rw [← hrun, byteLen_append, byteLen_append]
        · obtain ⟨front', back', hscanned, hbounded⟩ := h
          exact ⟨front', back', .further hleft hscanned, hbounded⟩
        · obtain ⟨front', back', hscanned, hbounded⟩ := h
          cases hscanned with
          | found hleft' =>
            obtain ⟨rfl, rfl⟩ := hleft.unique hleft'
            exact absurd ((Bool.and_eq_true _ _).mpr
              ⟨hbefore.mpr hbounded.1, hafter.mpr hbounded.2⟩) hsep
          | further hleft' hscanned =>
            obtain ⟨rfl, rfl⟩ := hleft.unique hleft'
            exact ⟨front', back', hscanned, hbounded⟩
  · next hshort =>
    refine ⟨false, rfl, hnothing fun front back heq => hshort ?_⟩
    rw [heq, byteLen_append, byteLen_append, byteLen_append]
    omega

/-- The search ends with an answer, which is whether something looked at is bounded. -/
theorem flagAppearsIn_spec (haystack : Chars) (hne : needle ≠ []) :
    ∃ answer, flagAppearsIn haystack needle = .returned answer ∧
      (answer = true ↔ ∃ front back, Scanned needle [] haystack front back ∧
        Bounded IsSeparatorOrNul front back) := by
  rw [flagAppearsIn, dif_neg hne]
  exact scanFlag_spec hne [] haystack rfl

/-! ## Exactness -/

/-- The flag is recognised when it is a word, and then what it guards applies to the apps its
filters allow. -/
structure RecognisedExactly (haystack needle : Chars) : Prop where
  answer : flagAppearsIn haystack needle = .returned true ↔ OccursAsWord haystack needle
  library : ∀ (lib : LibraryInjectEntry) (appId : Nat), lib.flag = needle →
    (lib.applies appId haystack = true ↔
      ((lib.apps = [] ∨ appId ∈ lib.apps) ∧ appId ∉ lib.exclude) ∧ OccursAsWord haystack needle)
  loaderFix : ∀ (fix : LoaderFixSection) (appId : Nat), fix.flag = needle →
    (loaderFixRequested fix appId haystack = true ↔
      appId ∉ fix.exclude ∧ (appId ∈ fix.apps ∨ OccursAsWord haystack needle))

theorem not_occursAsWord_nil (hne : needle ≠ []) : ¬OccursAsWord [] needle := by
  intro hword
  obtain ⟨front, back, heq, _⟩ := hword
  exact hne (List.append_eq_nil_iff.mp (List.append_eq_nil_iff.mp heq.symm).2).1

/-- The guards follow the answer. -/
theorem recognisedExactly_iff (haystack : Chars) (hne : needle ≠ []) :
    RecognisedExactly haystack needle ↔
      (flagAppearsIn haystack needle = .returned true ↔ OccursAsWord haystack needle) := by
  refine ⟨fun h => h.answer, fun h => ⟨h, fun lib appId hflag => ?_, fun fix appId hflag => ?_⟩⟩
  · have hempty : haystack = [] → ¬OccursAsWord haystack needle := by
      intro hnil
      rw [hnil]
      exact not_occursAsWord_nil hne
    simp only [LibraryInjectEntry.applies, hflag, Bool.and_eq_true, Bool.or_eq_true,
      List.isEmpty_iff, List.contains_iff_mem, Bool.not_eq_true', hne, false_or, beq_iff_eq, h,
      ← Bool.not_eq_true]
    exact and_congr_right fun _ => ⟨fun h => h.2, fun h => ⟨fun hnil => hempty hnil h, h⟩⟩
  · simp only [loaderFixRequested, hflag, Bool.and_eq_true, Bool.or_eq_true, List.isEmpty_iff,
      List.contains_iff_mem, Bool.not_eq_true', hne, not_false_iff, true_and, beq_iff_eq, h,
      ← Bool.not_eq_true]

theorem Scanned.occurs (h : Scanned needle seen rest front back) :
    seen ++ rest = front ++ (needle ++ back) := by
  induction h with
  | found hleft => rw [hleft.occurs, List.append_assoc]
  | further hleft _ ih => rw [← ih, hleft.occurs, List.append_assoc, List.append_assoc]

/-- Without a NUL nothing is taken for a word that is none. -/
theorem not_spurious_of_no_nul (h : '\x00' ∉ haystack) : ¬Spurious haystack needle := by
  intro hspurious
  obtain ⟨hnone, front, back, hscanned, hfront, hback⟩ := hspurious
  have heq : haystack = front ++ (needle ++ back) := hscanned.occurs
  have hseparator : ∀ c ∈ haystack, IsSeparatorOrNul c → IsSeparator c := by
    intro c hc hsep
    exact hsep.resolve_right fun hnul => h (hnul ▸ hc)
  refine hnone ⟨front, back, heq, fun c hc => ?_, fun c hc => ?_⟩
  · apply hseparator c _ (hfront c hc)
    rw [heq]
    exact List.mem_append_left _ (List.mem_of_getLast? hc)
  · apply hseparator c _ (hback c hc)
    rw [heq]
    exact List.mem_append_right _ (List.mem_append_right _ (List.mem_of_head? hc))

/-- A word is looked at unless something bounded is looked at first. An occurrence that
overlaps the word on the left would have the separator before the word in the flag. -/
theorem scanned_of_word (hne : needle ≠ []) (hplain : ∀ c ∈ needle, ¬IsSeparator c)
    (seen rest front back : Chars) (hrest : rest = front ++ (needle ++ back))
    (hword : Bounded IsSeparator (seen ++ front) back) :
    Scanned needle seen rest (seen ++ front) back := by
  induction hlen : rest.length using Nat.strong_induction_on generalizing seen rest front with
  | _ n ih =>
  obtain ⟨found, hfind⟩ : ∃ found, findText needle rest = some found := by
    cases hfind : findText needle rest with
    | none => exact absurd hrest (findText_none hfind front back)
    | some found => exact ⟨found, rfl⟩
  obtain ⟨first, after, hleft, _⟩ := findText_some hfind
  have hle := hleft.first front back hrest
  obtain ⟨gap, rfl, hgap⟩ | ⟨extra, rfl, hextra⟩ :=
    List.append_eq_append_iff.mp (hleft.occurs.symm.trans hrest)
  · obtain ⟨gap', rfl, rfl⟩ | ⟨extra, hneedle, hback⟩ := List.append_eq_append_iff.mp hgap
    · -- the word stands behind the occurrence
      have hshorter : (gap' ++ (needle ++ back)).length < n := by
        have := List.length_pos_of_ne_nil hne
        rw [← hlen, hrest]
        simp only [List.length_append]
        omega
      have hsame : seen ++ (first ++ (needle ++ gap')) = seen ++ first ++ needle ++ gap' := by
        simp only [List.append_assoc]
      rw [hsame] at hword ⊢
      exact .further hleft (ih _ hshorter _ _ gap' rfl hword rfl)
    · rcases List.eq_nil_or_concat gap with rfl | ⟨init, c, rfl⟩
      · obtain rfl := List.append_cancel_left hgap
        rw [List.append_nil]
        exact .found hleft
      · have hlast : c ∈ (seen ++ (first ++ init.concat c)).getLast? := by simp
        have hin : c ∈ needle := by
          rw [hneedle]
          simp
        exact absurd (hword.1 c hlast) (hplain c hin)
  · have hnil : extra = [] := by
      rw [List.length_append] at hle
      exact List.eq_nil_of_length_eq_zero (by omega)
    subst hnil
    obtain rfl := List.append_cancel_left hextra
    rw [List.append_nil] at hleft
    exact .found hleft

theorem not_hidden_of_plain (hne : needle ≠ []) (hplain : ∀ c ∈ needle, ¬IsSeparator c) :
    ¬Hidden haystack needle := by
  intro hhidden
  obtain ⟨⟨front, back, heq, hword⟩, hnone⟩ := hhidden
  refine hnone _ _ (scanned_of_word hne hplain [] haystack front back heq hword) ?_
  exact ⟨fun c hc => .inl (hword.1 c hc), fun c hc => .inl (hword.2 c hc)⟩

end VaporForge.Features
