import Mathlib.Data.List.Basic
import Mathlib.Data.List.Induction
import Mathlib.Data.Set.List

/-!
# Pattern search finds every offset

`Pattern` of `patterns/src/lib.rs` is a byte pattern with wildcards that is searched for in
the code of a module. The search does not try every offset. It picks the longest run of
literal bytes in the pattern, lets a substring searcher find that run, and tries the
pattern only where the run occurs. The payoff is that this loses nothing:

> `find_all` returns the offsets at which the pattern matches, ascending and each once;
> `find_all_bounded` returns them unless there are more than it may return; `find_unique`
> returns the only one (`search_exact`).

The substring searcher is third-party code. It is a `Finder`, of which only is known that
it answers with the leftmost occurrence. Slices are no longer than `isize::MAX`, which
`Haystack` carries, so that the limit `usize::MAX` of `find_all` is never reached.

The loop is proved against `before k`, the matching offsets smaller than `k`: when the
search goes on from `search_from`, the matches found are `before (search_from - anchor)`
(`searchLoop_eq`). An occurrence of the run that is passed over would have been found by
the searcher, and a match without the run does not exist (`anchor_of_matchesAt`).
-/

namespace VaporForge.Patterns

inductive PatternToken where
  | byte (value : UInt8)
  | wildcard
deriving DecidableEq, Repr

inductive PatternError where
  | empty
  | invalidToken (hex : List Char)
  | noMatch
  | ambiguous (found : Nat)
  | tooManyMatches (limit : Nat)
deriving DecidableEq, Repr

/-- A parsed pattern. `Pattern::parse` is the only way to get one and refuses an empty one. -/
structure Pattern where
  tokens : List PatternToken
  nonempty : tokens ≠ []
deriving DecidableEq, Repr

/-- A byte slice. No slice is longer than `isize::MAX`. -/
structure Haystack (isizeMax : Nat) where
  bytes : List UInt8
  fits : bytes.length ≤ isizeMax

def usizeMax (isizeMax : Nat) : Nat := 2 * isizeMax + 1

/-! ## Parsing -/

def hexDigit (c : Char) : Option Nat :=
  if '0' ≤ c ∧ c ≤ '9' then some (c.toNat - '0'.toNat)
  else if 'a' ≤ c ∧ c ≤ 'f' then some (c.toNat - 'a'.toNat + 10)
  else if 'A' ≤ c ∧ c ≤ 'F' then some (c.toNat - 'A'.toNat + 10)
  else none

/-- One digit of `u8::from_str_radix`, which stops when the value leaves `u8`. -/
def pushHexDigit (value : Nat) (c : Char) : Option Nat := do
  let digit ← hexDigit c
  if value * 16 + digit < 256 then some (value * 16 + digit) else none

/-- `u8::from_str_radix(text, 16)`: a sign `+` is allowed, a text without a digit is not. -/
def u8FromHex : List Char → Option UInt8
  | [] => none
  | ['+'] => none
  | '+' :: digits => (digits.foldlM pushHexDigit 0).map UInt8.ofNat
  | digits => (digits.foldlM pushHexDigit 0).map UInt8.ofNat

def parseToken (raw : List Char) : Except PatternError PatternToken :=
  if raw = ['?'] ∨ raw = ['?', '?'] then .ok .wildcard
  else match u8FromHex raw with
    | some value => .ok (.byte value)
    | none => .error (.invalidToken raw)

/-- `Pattern::parse` of the words that `split_whitespace` yields. -/
def Pattern.parse (words : List (List Char)) : Except PatternError Pattern :=
  match words.mapM parseToken with
  | .error e => .error e
  | .ok [] => .error .empty
  | .ok (token :: tokens) => .ok ⟨token :: tokens, List.cons_ne_nil token tokens⟩

/-! ## Matching at one offset -/

def PatternToken.accepts : PatternToken → UInt8 → Bool
  | .byte expected, actual => expected == actual
  | .wildcard, _ => true

def Pattern.matchesAt (p : Pattern) (haystack : List UInt8) (offset : Nat) : Bool :=
  if offset + p.tokens.length ≤ haystack.length then
    (p.tokens.zip ((haystack.drop offset).take p.tokens.length)).all fun e => e.1.accepts e.2
  else false

/-- What it means to match: the pattern fits and each of its bytes stands where it says. -/
def Pattern.Matches (p : Pattern) (haystack : List UInt8) (offset : Nat) : Prop :=
  offset + p.tokens.length ≤ haystack.length ∧
    ∀ (i : Nat) (b : UInt8), p.tokens[i]? = some (.byte b) → haystack[offset + i]? = some b

/-! ## The longest literal run -/

/-- The variables of the loop in `longest_literal_run`. -/
structure LiteralRun where
  bestStart : Nat
  bestLen : Nat
  currentStart : Nat
  currentLen : Nat

def LiteralRun.init : LiteralRun := ⟨0, 0, 0, 0⟩

/-- A byte prolongs the current run, which becomes the best one when it is longer. -/
def LiteralRun.byte (run : LiteralRun) (idx : Nat) : LiteralRun :=
  let currentStart := if run.currentLen = 0 then idx else run.currentStart
  let currentLen := run.currentLen + 1
  if run.bestLen < currentLen then ⟨currentStart, currentLen, currentStart, currentLen⟩
  else ⟨run.bestStart, run.bestLen, currentStart, currentLen⟩

def LiteralRun.step (run : LiteralRun) (e : PatternToken × Nat) : LiteralRun :=
  match e.1 with
  | .byte _ => run.byte e.2
  | .wildcard => { run with currentLen := 0 }

def literalRun (tokens : List PatternToken) : LiteralRun :=
  tokens.zipIdx.foldl LiteralRun.step LiteralRun.init

def PatternToken.literal : PatternToken → Option UInt8
  | .byte value => some value
  | .wildcard => none

/-- Where the run starts and its bytes. The source's `unreachable!` for a wildcard inside the
run is passed over here; by `literalRun_inv` there is none. -/
def Pattern.longestLiteralRun (p : Pattern) : Option (Nat × List UInt8) :=
  let run := literalRun p.tokens
  if run.bestLen = 0 then none
  else some (run.bestStart,
    ((p.tokens.drop run.bestStart).take run.bestLen).filterMap PatternToken.literal)

/-! ## The search -/

/-- The substring searcher: the leftmost occurrence, if there is one. -/
structure Finder where
  find : List UInt8 → List UInt8 → Option Nat
  found : ∀ {needle haystack : List UInt8} {i : Nat}, find needle haystack = some i →
    needle <+: haystack.drop i ∧ ∀ j, j < i → ¬needle <+: haystack.drop j
  missing : ∀ {needle haystack : List UInt8}, find needle haystack = none →
    ∀ i, i ≤ haystack.length → ¬needle <+: haystack.drop i

/-- The `while let` loop of `find_matches`. Its fuel bounds the values that `search_from`
can still take. -/
def Pattern.searchLoop (finder : Finder) (p : Pattern) (anchorIndex : Nat)
    (anchorBytes haystack : List UInt8) (limit maxMatches : Nat) :
    Nat → Nat → List Nat → List Nat × Bool
  | 0, _, found => (found, false)
  | fuel + 1, searchFrom, found =>
    match finder.find anchorBytes (haystack.drop searchFrom) with
    | none => (found, false)
    | some relative =>
      let anchorOffset := searchFrom + relative
      if anchorIndex ≤ anchorOffset ∧ anchorOffset - anchorIndex ≤ limit ∧
          p.matchesAt haystack (anchorOffset - anchorIndex) = true then
        if found.length = maxMatches then (found, true)
        else p.searchLoop finder anchorIndex anchorBytes haystack limit maxMatches fuel
          (anchorOffset + 1) (found ++ [anchorOffset - anchorIndex])
      else p.searchLoop finder anchorIndex anchorBytes haystack limit maxMatches fuel
        (anchorOffset + 1) found

def Pattern.findMatches (finder : Finder) (p : Pattern) (haystack : List UInt8)
    (maxMatches : Nat) : List Nat × Bool :=
  if haystack.length < p.tokens.length then ([], false)
  else
    let limit := haystack.length - p.tokens.length
    match p.longestLiteralRun with
    | none => (List.range (min (limit + 1) maxMatches), decide (maxMatches < limit + 1))
    | some (anchorIndex, anchorBytes) =>
      p.searchLoop finder anchorIndex anchorBytes haystack limit maxMatches
        (haystack.length + 1) 0 []

section Calls

variable {isizeMax : Nat} (finder : Finder) (p : Pattern) (haystack : Haystack isizeMax)

def Pattern.findAll : List Nat :=
  (p.findMatches finder haystack.bytes (usizeMax isizeMax)).1

def Pattern.findAllBounded (maxMatches : Nat) : Except PatternError (List Nat) :=
  let (found, truncated) := p.findMatches finder haystack.bytes maxMatches
  if truncated then .error (.tooManyMatches maxMatches) else .ok found

def Pattern.findUnique : Except PatternError Nat :=
  match p.findMatches finder haystack.bytes 2 with
  | ([], _) => .error .noMatch
  | ([offset], _) => .ok offset
  | (_, true) => .error (.ambiguous 2)
  | (found, false) => .error (.ambiguous found.length)

end Calls

/-! ## Matching, byte by byte -/

theorem PatternToken.accepts_iff {token : PatternToken} {actual : UInt8} :
    token.accepts actual = true ↔ ∀ b, token = .byte b → actual = b := by
  cases token with
  | byte expected =>
    rw [PatternToken.accepts, beq_iff_eq]
    exact ⟨fun h b hb => h ▸ (PatternToken.byte.inj hb), fun h => (h expected rfl).symm⟩
  | wildcard => simp [PatternToken.accepts]

theorem zip_all_accepts (tokens : List PatternToken) (window : List UInt8)
    (hlen : tokens.length = window.length) :
    (tokens.zip window).all (fun e => e.1.accepts e.2) = true ↔
      ∀ (i : Nat) (b : UInt8), tokens[i]? = some (.byte b) → window[i]? = some b := by
  rw [List.all_eq_true]
  constructor
  · intro h i b hi
    obtain ⟨hlt, hget⟩ := List.getElem?_eq_some_iff.mp hi
    have hmem : (tokens[i], window[i]) ∈ tokens.zip window := by
      rw [← List.getElem_zip (h := by simp; omega)]
      exact List.getElem_mem _
    have hb := PatternToken.accepts_iff.mp (h _ hmem) b hget
    rw [List.getElem?_eq_getElem (by omega)]
    exact congrArg some hb
  · intro h e he
    obtain ⟨i, hi, rfl⟩ := List.getElem_of_mem he
    have hlt : i < tokens.length := by simp at hi; omega
    rw [List.getElem_zip]
    apply PatternToken.accepts_iff.mpr
    intro b hb
    have hget := h i b (by rw [List.getElem?_eq_getElem hlt]; exact congrArg some hb)
    rw [List.getElem?_eq_getElem (by omega)] at hget
    exact Option.some.inj hget

theorem Pattern.matchesAt_iff {p : Pattern} {haystack : List UInt8} {offset : Nat} :
    p.matchesAt haystack offset = true ↔ p.Matches haystack offset := by
  unfold Pattern.matchesAt Pattern.Matches
  split
  · rename_i hfits
    rw [zip_all_accepts _ _ (by simp; omega)]
    have hwindow : ∀ (i : Nat) (b : UInt8), p.tokens[i]? = some (.byte b) →
        ((haystack.drop offset).take p.tokens.length)[i]? = haystack[offset + i]? := by
      intro i b hi
      have hlt : i < p.tokens.length := (List.getElem?_eq_some_iff.mp hi).1
      rw [List.getElem?_take_of_lt hlt, List.getElem?_drop]
    exact ⟨fun h => ⟨hfits, fun i b hi => hwindow i b hi ▸ h i b hi⟩,
      fun h i b hi => (hwindow i b hi).trans (h.2 i b hi)⟩
  · rename_i hfits
    simp [hfits]

/-! ## The run is literal -/

/-- The tokens from `start` on, `len` of them, are bytes. -/
def Literal (tokens : List PatternToken) (start len : Nat) : Prop :=
  ∀ i, start ≤ i → i < start + len → ∃ b, tokens[i]? = some (.byte b)

variable {tokens : List PatternToken} {start len k : Nat}

theorem Literal.concat (h : Literal tokens start len) (token : PatternToken) :
    Literal (tokens ++ [token]) start len := by
  intro i hstart hend
  obtain ⟨b, hb⟩ := h i hstart hend
  have hlt := (List.getElem?_eq_some_iff.mp hb).1
  exact ⟨b, by rw [List.getElem?_append_left hlt, hb]⟩

theorem Literal.concat_byte (h : Literal tokens start len) (hend : start + len = tokens.length)
    (b : UInt8) : Literal (tokens ++ [.byte b]) start (len + 1) := by
  intro i hstart hi
  rcases Nat.lt_or_ge i tokens.length with hlt | hge
  · exact h.concat _ i hstart (by omega)
  · exact ⟨b, by simp [show i = tokens.length by omega]⟩

/-- What is known of the loop's variables after `tokens`. -/
structure LiteralRun.Inv (run : LiteralRun) (tokens : List PatternToken) : Prop where
  best : Literal tokens run.bestStart run.bestLen
  current : Literal tokens run.currentStart run.currentLen
  atEnd : 0 < run.currentLen → run.currentStart + run.currentLen = tokens.length
  longest : run.currentLen ≤ run.bestLen
  none : run.bestLen = 0 → ∀ t ∈ tokens, t = .wildcard
  inside : run.bestStart + run.bestLen ≤ tokens.length

theorem literalRun_concat (tokens : List PatternToken) (token : PatternToken) :
    literalRun (tokens ++ [token]) = (literalRun tokens).step (token, tokens.length) := by
  simp [literalRun, List.zipIdx_append]

theorem LiteralRun.Inv.byte {run : LiteralRun} (h : run.Inv tokens) (b : UInt8) :
    (run.byte tokens.length).Inv (tokens ++ [.byte b]) := by
  -- the run that the byte ends, whether it starts with it or not
  have hcurrent : Literal (tokens ++ [.byte b])
      (if run.currentLen = 0 then tokens.length else run.currentStart) (run.currentLen + 1) := by
    split
    · rename_i hzero
      intro i hstart hi
      exact ⟨b, by simp [show i = tokens.length by omega]⟩
    · rename_i hpos
      exact h.current.concat_byte (h.atEnd (by omega)) b
  have hatEnd : (if run.currentLen = 0 then tokens.length else run.currentStart) +
      (run.currentLen + 1) = (tokens ++ [PatternToken.byte b]).length := by
    rw [List.length_append, List.length_singleton]
    split
    · omega
    · have := h.atEnd (by omega)
      omega
  have hlongest := h.longest
  unfold LiteralRun.byte
  dsimp only
  split
  · exact ⟨hcurrent, hcurrent, fun _ => hatEnd, Nat.le_refl _,
      fun hzero => absurd hzero (Nat.succ_ne_zero _), Nat.le_of_eq hatEnd⟩
  · refine ⟨h.best.concat _, hcurrent, fun _ => hatEnd, by dsimp only; omega,
      fun hzero => ?_, ?_⟩
    · dsimp only at hzero
      omega
    · have := h.inside
      simp only [List.length_append, List.length_singleton]
      omega

theorem literalRun_inv (tokens : List PatternToken) : (literalRun tokens).Inv tokens := by
  induction tokens using List.reverseRecOn with
  | nil =>
    refine ⟨?_, ?_, by simp [literalRun, LiteralRun.init], Nat.le_refl _, by simp, by
      simp [literalRun, LiteralRun.init]⟩ <;>
    · intro i h1 h2
      simp [literalRun, LiteralRun.init] at h1 h2
  | append_singleton tokens token ih =>
    rw [literalRun_concat]
    cases token with
    | byte b => exact ih.byte b
    | wildcard =>
      refine ⟨ih.best.concat _, fun i h1 h2 => ?_, fun hpos => ?_, Nat.zero_le _, ?_, ?_⟩
      · exact absurd h2 (Nat.not_lt.mpr h1)
      · exact absurd hpos (Nat.lt_irrefl 0)
      · intro hzero t ht
        rcases List.mem_append.mp ht with ht | ht
        · exact ih.none hzero t ht
        · exact List.mem_singleton.mp ht
      · have := ih.inside
        simp only [List.length_append, LiteralRun.step]
        omega

/-- A literal stretch is the bytes it is made of. -/
theorem Literal.exists_bytes (h : Literal tokens start len) :
    ∃ bytes : List UInt8, (tokens.drop start).take len = bytes.map .byte := by
  have hall : ∀ t ∈ (tokens.drop start).take len, ∃ b, PatternToken.byte b = t := by
    intro t ht
    obtain ⟨i, hi, rfl⟩ := List.getElem_of_mem ht
    rw [List.length_take, List.length_drop] at hi
    obtain ⟨b, hb⟩ := h (start + i) (by omega) (by omega)
    refine ⟨b, ?_⟩
    rw [List.getElem_take, List.getElem_drop]
    exact (List.getElem?_eq_some_iff.mp hb).2.symm
  have hrange : (tokens.drop start).take len ∈ Set.range (List.map PatternToken.byte) := by
    rw [Set.range_list_map]
    exact hall
  obtain ⟨bytes, hbytes⟩ := hrange
  exact ⟨bytes, hbytes.symm⟩

theorem filterMap_literal (bytes : List UInt8) :
    (bytes.map PatternToken.byte).filterMap PatternToken.literal = bytes := by
  rw [List.filterMap_map]
  exact List.filterMap_some

/-- The run lies inside the pattern, and its bytes are the tokens there. -/
theorem Pattern.longestLiteralRun_some {p : Pattern} {anchorIndex : Nat}
    {anchorBytes : List UInt8} (h : p.longestLiteralRun = some (anchorIndex, anchorBytes)) :
    anchorIndex ≤ p.tokens.length ∧
      ∀ i, i < anchorBytes.length →
        p.tokens[anchorIndex + i]? = (anchorBytes[i]?).map PatternToken.byte := by
  have hinv := literalRun_inv p.tokens
  unfold Pattern.longestLiteralRun at h
  dsimp only at h
  split at h
  · cases h
  · obtain ⟨bytes, hbytes⟩ := hinv.best.exists_bytes
    rw [hbytes, filterMap_literal] at h
    obtain ⟨rfl, rfl⟩ := Prod.mk.inj (Option.some.inj h)
    have hinside := hinv.inside
    refine ⟨by omega, fun i hi => ?_⟩
    have hlen : bytes.length = (literalRun p.tokens).bestLen := by
      rw [← List.length_map (f := PatternToken.byte), ← hbytes, List.length_take,
        List.length_drop]
      omega
    rw [← List.getElem?_map, ← hbytes, List.getElem?_take_of_lt (hlen ▸ hi),
      List.getElem?_drop]

/-- Without a run every token is a wildcard. -/
theorem Pattern.longestLiteralRun_none {p : Pattern} (h : p.longestLiteralRun = none) :
    ∀ t ∈ p.tokens, t = .wildcard := by
  unfold Pattern.longestLiteralRun at h
  dsimp only at h
  split at h
  · exact (literalRun_inv p.tokens).none ‹_›
  · cases h

/-- The anchor stands at its place in every match. -/
theorem Pattern.anchor_of_matchesAt {p : Pattern} {anchorIndex : Nat}
    {anchorBytes haystack : List UInt8} {offset : Nat}
    (hrun : p.longestLiteralRun = some (anchorIndex, anchorBytes))
    (h : p.matchesAt haystack offset = true) :
    anchorBytes <+: haystack.drop (offset + anchorIndex) := by
  obtain ⟨_, hmatch⟩ := Pattern.matchesAt_iff.mp h
  obtain ⟨_, htokens⟩ := Pattern.longestLiteralRun_some hrun
  rw [List.prefix_iff_getElem?]
  intro i hi
  have htoken := htokens i hi
  rw [List.getElem?_eq_getElem hi] at htoken
  have hbyte := hmatch (anchorIndex + i) anchorBytes[i] htoken
  rw [List.getElem?_drop, Nat.add_assoc]
  exact hbyte

/-! ## The offsets that match -/

/-- The matching offsets smaller than `k`. -/
def Pattern.before (p : Pattern) (haystack : List UInt8) (k : Nat) : List Nat :=
  (List.range k).filter (p.matchesAt haystack)

/-- Every offset that matches. -/
def Pattern.offsets (p : Pattern) (haystack : List UInt8) : List Nat :=
  p.before haystack (haystack.length + 1)

section Before

variable {p : Pattern} {haystack : List UInt8}

theorem Pattern.before_succ_of_match (h : p.matchesAt haystack k = true) :
    p.before haystack (k + 1) = p.before haystack k ++ [k] := by
  simp [Pattern.before, List.range_succ, h]

theorem Pattern.before_succ_of_not (h : ¬p.matchesAt haystack k = true) :
    p.before haystack (k + 1) = p.before haystack k := by
  simp [Pattern.before, List.range_succ, h]

/-- Nothing matches between the two bounds. -/
theorem Pattern.before_eq_of_gap {k' : Nat} (hle : k ≤ k')
    (hgap : ∀ o, k ≤ o → o < k' → ¬p.matchesAt haystack o = true) :
    p.before haystack k' = p.before haystack k := by
  induction k', hle using Nat.le_induction with
  | base => rfl
  | succ k' hle ih =>
    rw [Pattern.before_succ_of_not (hgap k' hle (Nat.lt_succ_self _))]
    exact ih fun o hk ho => hgap o hk (Nat.lt_succ_of_lt ho)

theorem Pattern.before_prefix {k' : Nat} (hle : k ≤ k') :
    p.before haystack k <+: p.before haystack k' := by
  obtain ⟨m, rfl⟩ := Nat.exists_eq_add_of_le hle
  unfold Pattern.before
  rw [List.range_add, List.filter_append]
  exact List.prefix_append _ _

theorem Pattern.mem_offsets {o : Nat} :
    o ∈ p.offsets haystack ↔ p.Matches haystack o := by
  unfold Pattern.offsets Pattern.before
  rw [List.mem_filter, List.mem_range, Pattern.matchesAt_iff]
  refine ⟨fun h => h.2, fun h => ⟨?_, h⟩⟩
  have := h.1
  omega

theorem Pattern.offsets_pairwise : (p.offsets haystack).Pairwise (· < ·) :=
  List.pairwise_lt_range.filter _

/-- A pattern is not empty, so there are no more matches than bytes. -/
theorem Pattern.length_offsets_le : (p.offsets haystack).length ≤ haystack.length := by
  have hpos : 0 < p.tokens.length := List.length_pos_iff.mpr p.nonempty
  have hlast : ¬p.matchesAt haystack haystack.length = true := by
    rw [Pattern.matchesAt_iff]
    intro h
    have := h.1
    omega
  unfold Pattern.offsets
  rw [Pattern.before_succ_of_not hlast]
  calc (p.before haystack haystack.length).length
      ≤ (List.range haystack.length).length := List.length_filter_le _ _
    _ = haystack.length := List.length_range

end Before

/-! ## The loop -/

/-- What the search returns: as many matches as it may, and whether there are more. -/
def Pattern.truncated (p : Pattern) (haystack : List UInt8) (maxMatches : Nat) :
    List Nat × Bool :=
  ((p.offsets haystack).take maxMatches, decide (maxMatches < (p.offsets haystack).length))

section Loop

variable {p : Pattern} {haystack anchorBytes : List UInt8} {anchorIndex maxMatches : Nat}

/-- All matches are found. -/
theorem Pattern.truncated_of_all {found : List Nat} (hall : p.offsets haystack = found)
    (hlen : found.length ≤ maxMatches) : p.truncated haystack maxMatches = (found, false) := by
  unfold Pattern.truncated
  rw [hall, List.take_of_length_le hlen, decide_eq_false (by omega)]

/-- As many matches are found as may be returned, and one more is seen. -/
theorem Pattern.truncated_of_more (hmatch : p.matchesAt haystack k = true)
    (hlen : (p.before haystack k).length = maxMatches) :
    p.truncated haystack maxMatches = (p.before haystack k, true) := by
  have hk : k + 1 ≤ haystack.length + 1 := by
    have := (Pattern.matchesAt_iff.mp hmatch).1
    omega
  have hfront : p.before haystack k ++ [k] <+: p.offsets haystack :=
    Pattern.before_succ_of_match hmatch ▸ Pattern.before_prefix hk
  obtain ⟨rest, hrest⟩ := hfront
  unfold Pattern.truncated
  rw [← hrest, List.append_assoc, ← hlen, List.take_left, decide_eq_true]
  simp only [List.length_append, List.length_singleton]
  omega

/-- Nothing matches past the end. -/
theorem Pattern.before_of_length_lt (h : haystack.length < k) :
    p.before haystack k = p.offsets haystack := by
  refine Pattern.before_eq_of_gap h fun o ho _ hmatch => ?_
  have := (Pattern.matchesAt_iff.mp hmatch).1
  omega

/-- Where the anchor does not occur from `searchFrom` on, every match has been passed. -/
theorem Pattern.offsets_eq_before
    (hrun : p.longestLiteralRun = some (anchorIndex, anchorBytes)) {searchFrom : Nat}
    (hnone : ∀ j, searchFrom ≤ j → j ≤ haystack.length → ¬anchorBytes <+: haystack.drop j) :
    p.offsets haystack = p.before haystack (searchFrom - anchorIndex) := by
  have hinside := (Pattern.longestLiteralRun_some hrun).1
  rw [← Pattern.before_of_length_lt
    (show haystack.length < max (haystack.length + 1) (searchFrom - anchorIndex) by omega)]
  refine Pattern.before_eq_of_gap (Nat.le_max_right _ _) fun o hfrom _ hmatch => ?_
  have hfits := (Pattern.matchesAt_iff.mp hmatch).1
  exact hnone (o + anchorIndex) (by omega) (by omega) (Pattern.anchor_of_matchesAt hrun hmatch)

/-- The matches before the next occurrence of the anchor are those found already. -/
theorem Pattern.before_next_anchor
    (hrun : p.longestLiteralRun = some (anchorIndex, anchorBytes)) {searchFrom relative : Nat}
    (hleft : ∀ j, j < relative → ¬anchorBytes <+: (haystack.drop searchFrom).drop j) :
    p.before haystack (searchFrom + relative - anchorIndex) =
      p.before haystack (searchFrom - anchorIndex) := by
  refine Pattern.before_eq_of_gap (by omega) fun o hfrom hto hmatch => ?_
  have hanchor := Pattern.anchor_of_matchesAt hrun hmatch
  refine hleft (o + anchorIndex - searchFrom) (by omega) ?_
  rwa [List.drop_drop, show searchFrom + (o + anchorIndex - searchFrom) = o + anchorIndex by omega]

/-- The loop, from any point on. The invariant is that `found` holds the matches whose anchor
lies before `searchFrom`. -/
theorem Pattern.searchLoop_eq (finder : Finder)
    (hrun : p.longestLiteralRun = some (anchorIndex, anchorBytes)) (fuel : Nat) :
    ∀ searchFrom, haystack.length < searchFrom + fuel →
      (p.before haystack (searchFrom - anchorIndex)).length ≤ maxMatches →
      p.searchLoop finder anchorIndex anchorBytes haystack
        (haystack.length - p.tokens.length) maxMatches fuel searchFrom
        (p.before haystack (searchFrom - anchorIndex)) = p.truncated haystack maxMatches := by
  induction fuel with
  | zero =>
    intro searchFrom hfuel hlen
    refine (Pattern.truncated_of_all (Pattern.offsets_eq_before hrun fun j hj hj' => ?_) hlen).symm
    omega
  | succ fuel ih =>
    intro searchFrom hfuel hlen
    unfold Pattern.searchLoop
    cases hfind : finder.find anchorBytes (haystack.drop searchFrom) with
    | none =>
      refine (Pattern.truncated_of_all (Pattern.offsets_eq_before hrun fun j hj hj' => ?_)
        hlen).symm
      have hmissing := finder.missing hfind (j - searchFrom) (by rw [List.length_drop]; omega)
      rwa [List.drop_drop, show searchFrom + (j - searchFrom) = j by omega] at hmissing
    | some relative =>
      have hleft := (finder.found hfind).2
      rw [← Pattern.before_next_anchor hrun hleft] at hlen ⊢
      dsimp only
      split
      · -- the pattern matches at the candidate
        rename_i hcandidate
        obtain ⟨hanchor, _, hmatch⟩ := hcandidate
        have hsucc := Pattern.before_succ_of_match hmatch
        rw [show searchFrom + relative - anchorIndex + 1 =
          searchFrom + relative + 1 - anchorIndex by omega] at hsucc
        split
        · rename_i hfull
          exact (Pattern.truncated_of_more hmatch hfull).symm
        · rename_i hroom
          rw [← hsucc]
          refine ih _ (by omega) ?_
          rw [hsucc, List.length_append, List.length_singleton]
          omega
      · rename_i hcandidate
        have hsame : p.before haystack (searchFrom + relative + 1 - anchorIndex) =
            p.before haystack (searchFrom + relative - anchorIndex) := by
          refine Pattern.before_eq_of_gap (by omega) fun o hfrom hto hmatch => hcandidate ?_
          have hfits := (Pattern.matchesAt_iff.mp hmatch).1
          obtain rfl : o = searchFrom + relative - anchorIndex := by omega
          exact ⟨by omega, by omega, hmatch⟩
        rw [← hsame] at hlen ⊢
        exact ih _ (by omega) hlen

end Loop

/-! ## The search is exact -/

/-- A pattern of wildcards matches wherever it fits. -/
theorem Pattern.offsets_of_wildcards {p : Pattern} {haystack : List UInt8}
    (hfits : p.tokens.length ≤ haystack.length) (hwild : ∀ t ∈ p.tokens, t = .wildcard) :
    p.offsets haystack = List.range (haystack.length - p.tokens.length + 1) := by
  have hmatch : ∀ o, p.matchesAt haystack o = true ↔ o + p.tokens.length ≤ haystack.length := by
    intro o
    rw [Pattern.matchesAt_iff]
    refine ⟨fun h => h.1, fun h => ⟨h, fun i b hi => ?_⟩⟩
    cases hwild _ (List.mem_of_getElem? hi)
  have hgap : p.before haystack (haystack.length + 1) =
      p.before haystack (haystack.length - p.tokens.length + 1) := by
    refine Pattern.before_eq_of_gap (by omega) fun o ho _ h => ?_
    have := (hmatch o).mp h
    omega
  unfold Pattern.offsets
  rw [hgap]
  unfold Pattern.before
  rw [List.filter_eq_self]
  intro o ho
  have := List.mem_range.mp ho
  exact (hmatch o).mpr (by omega)

theorem Pattern.findMatches_eq (finder : Finder) (p : Pattern) (haystack : List UInt8)
    (maxMatches : Nat) :
    p.findMatches finder haystack maxMatches = p.truncated haystack maxMatches := by
  unfold Pattern.findMatches
  split
  · rename_i hshort
    refine (Pattern.truncated_of_all ?_ (Nat.zero_le _)).symm
    refine List.eq_nil_iff_forall_not_mem.mpr fun o ho => ?_
    have := (Pattern.mem_offsets.mp ho).1
    omega
  · rename_i hfits
    dsimp only
    cases hrun : p.longestLiteralRun with
    | none =>
      have hall := Pattern.offsets_of_wildcards (Nat.le_of_not_lt hfits)
        (Pattern.longestLiteralRun_none hrun)
      unfold Pattern.truncated
      rw [hall, List.take_range, List.length_range, Nat.min_comm]
    | some run =>
      obtain ⟨anchorIndex, anchorBytes⟩ := run
      have hstart : p.before haystack (0 - anchorIndex) = [] := by simp [Pattern.before]
      have hloop : p.searchLoop finder anchorIndex anchorBytes haystack
          (haystack.length - p.tokens.length) maxMatches (haystack.length + 1) 0
          (p.before haystack (0 - anchorIndex)) = p.truncated haystack maxMatches :=
        Pattern.searchLoop_eq finder hrun _ 0 (by omega) (by rw [hstart]; exact Nat.zero_le _)
      rwa [hstart] at hloop

section Exact

variable {isizeMax : Nat} (finder : Finder) (p : Pattern) (haystack : Haystack isizeMax)

/-- There are never as many matches as `usize::MAX`. -/
theorem Pattern.findAll_eq : p.findAll finder haystack = p.offsets haystack.bytes := by
  have hlen : (p.offsets haystack.bytes).length ≤ haystack.bytes.length :=
    Pattern.length_offsets_le
  have hfits := haystack.fits
  unfold Pattern.findAll
  rw [Pattern.findMatches_eq]
  exact List.take_of_length_le (by unfold usizeMax; omega)

theorem Pattern.findAllBounded_eq (maxMatches : Nat) :
    p.findAllBounded finder haystack maxMatches =
      if (p.offsets haystack.bytes).length ≤ maxMatches then .ok (p.offsets haystack.bytes)
      else .error (.tooManyMatches maxMatches) := by
  unfold Pattern.findAllBounded
  rw [Pattern.findMatches_eq]
  unfold Pattern.truncated
  dsimp only
  split
  · rename_i hmore
    rw [if_neg (by simpa using hmore)]
  · rename_i hall
    have hle : (p.offsets haystack.bytes).length ≤ maxMatches := by simpa using hall
    rw [if_pos hle, List.take_of_length_le hle]

/-- The two matches that are kept show whether there is none, one or more. -/
theorem Pattern.findUnique_eq_ok (o : Nat) :
    p.findUnique finder haystack = .ok o ↔ p.offsets haystack.bytes = [o] := by
  unfold Pattern.findUnique
  rw [Pattern.findMatches_eq]
  unfold Pattern.truncated
  match p.offsets haystack.bytes with
  | [] => exact ⟨fun h => (nomatch h), fun h => (nomatch h)⟩
  | [offset] => simp
  | [a, b] => exact ⟨fun h => (nomatch h), fun h => (nomatch h)⟩
  | a :: b :: c :: rest =>
    rw [decide_eq_true (by simp)]
    exact ⟨fun h => (nomatch h), fun h => (nomatch h)⟩

/-- `find_all` returns the matching offsets in ascending order, `find_all_bounded` returns them
if and only if they are not too many, and `find_unique` returns if and only if there is one. -/
theorem Pattern.search_exact :
    (∀ o, o ∈ p.findAll finder haystack ↔ p.Matches haystack.bytes o) ∧
    (p.findAll finder haystack).Pairwise (· < ·) ∧
    (∀ maxMatches found, p.findAllBounded finder haystack maxMatches = .ok found ↔
      found = p.findAll finder haystack ∧ found.length ≤ maxMatches) ∧
    (∀ o, p.findUnique finder haystack = .ok o ↔ p.findAll finder haystack = [o]) ∧
    ((∃ o, p.findUnique finder haystack = .ok o) ↔ ∃! o, p.Matches haystack.bytes o) := by
  have hunique := Pattern.findUnique_eq_ok finder p haystack
  rw [Pattern.findAll_eq]
  refine ⟨fun o => Pattern.mem_offsets, Pattern.offsets_pairwise, fun maxMatches found => ?_,
    hunique, ?_⟩
  · rw [Pattern.findAllBounded_eq]
    split
    · rename_i hle
      exact ⟨fun h => by cases h; exact ⟨rfl, hle⟩, fun h => by rw [h.1]⟩
    · rename_i hmore
      exact ⟨fun h => (nomatch h), fun h => absurd (h.1 ▸ h.2) hmore⟩
  · constructor
    · intro ⟨o, ho⟩
      have hlist := (hunique o).mp ho
      refine ⟨o, Pattern.mem_offsets.mp (by rw [hlist]; exact List.mem_singleton_self o), ?_⟩
      intro o' ho'
      have hmem := Pattern.mem_offsets.mpr ho'
      rw [hlist] at hmem
      exact List.mem_singleton.mp hmem
    · intro ⟨o, ho, honly⟩
      refine ⟨o, (hunique o).mpr ?_⟩
      have hnodup : (p.offsets haystack.bytes).Nodup :=
        Pattern.offsets_pairwise.imp fun h => Nat.ne_of_lt h
      refine List.perm_singleton.mp ((List.perm_ext_iff_of_nodup hnodup (by simp)).mpr ?_)
      intro o'
      rw [Pattern.mem_offsets, List.mem_singleton]
      exact ⟨honly o', fun h => h ▸ ho⟩

end Exact

/-- A searcher that tries every offset in turn. -/
def scanFinder : Finder where
  find needle haystack :=
    (List.range (haystack.length + 1)).find? fun i => needle.isPrefixOf (haystack.drop i)
  found h := by
    rw [List.find?_range_eq_some] at h
    obtain ⟨hat, _, hbefore⟩ := h
    refine ⟨List.isPrefixOf_iff_prefix.mp hat, fun j hj hocc => ?_⟩
    have := hbefore j hj
    rw [List.isPrefixOf_iff_prefix.mpr hocc] at this
    exact Bool.noConfusion this
  missing h := by
    intro i hi hocc
    rw [List.find?_range_eq_none] at h
    have := h i (by omega)
    rw [List.isPrefixOf_iff_prefix.mpr hocc] at this
    exact Bool.noConfusion this

-- three overlapping matches of `? 01 ?`
example : (⟨[.wildcard, .byte 1, .wildcard], by decide⟩ : Pattern).findAll scanFinder
    (⟨[0, 1, 1, 1, 0], by decide⟩ : Haystack 10) = [0, 1, 2] := by
  decide

end VaporForge.Patterns
