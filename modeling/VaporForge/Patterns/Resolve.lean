import Mathlib.Data.List.Basic
import VaporForge.Lib.Utf8
import VaporForge.Patterns.Entry
import VaporForge.Patterns.Registry

/-!
# Resolving a group of variants

A function of the client is described by several patterns, one for each build that is known
(`patterns/src/scan.rs`). Each variant is searched for, its match is followed to the function
in one of five ways, and all variants that resolve must resolve to the same place.

> What a group resolves to does not depend on the order of its variants, and what is reported
> when it does not resolve is the same too (`group_order_independent`).

Errors are ranked, and of two with one rank and one count the earlier is kept: the error may
then be another one, but its status and its count are not. `Reports` says what is reported in
terms that do not see the order, and the loop meets it (`reports_group`).

The search upwards subtracts the length of the prologue before it adds one. Where the prologue
begins with the buffer this is below zero for a moment, so a build that checks arithmetic ends
there, and one that does not is back at zero; `checks` says which. An offset fits an `i64`, as
no buffer comes near its bounds.
-/

namespace VaporForge.Patterns

open Lib

/-! ## Following a match -/

/-- `PatternError`, as the functions that follow a match return it. -/
inductive FollowError where
  | pattern (error : PatternError)
  | followOutOfBounds
  | followUnsupportedOpcode
  | noCallTarget
  deriving DecidableEq, Repr

def PatternError.toText : PatternError → Text
  | .empty => "pattern is empty".toList
  | .invalidToken hex => "invalid pattern token: ".toList ++ hex
  | .noMatch => "pattern has no match".toList
  | .ambiguous found => s!"pattern is not unique: found {found} matches".toList
  | .tooManyMatches limit => s!"pattern exceeds the {limit}-match scan limit".toList

def FollowError.toText : FollowError → Text
  | .pattern error => error.toText
  | .followOutOfBounds => "relative follow target is out of bounds".toList
  | .followUnsupportedOpcode =>
    "relative follow requires a call/jmp rel32 opcode at the match offset".toList
  | .noCallTarget => "no call target found before RET".toList

section Follow
variable (haystack : List UInt8)

/-- The four bytes from `offset` on as an `i32`. -/
def rel32 (offset : Nat) : Option Int :=
  match haystack.drop offset with
  | b0 :: b1 :: b2 :: b3 :: _ =>
    some (b3.toBitVec ++ b2.toBitVec ++ b1.toBitVec ++ b0.toBitVec).toInt
  | _ => none

def followRelativeCall (matchOffset : Nat) : Except FollowError Int :=
  match haystack[matchOffset]? with
  | none => .error .followOutOfBounds
  | some opcode =>
    if opcode ≠ 0xE8 ∧ opcode ≠ 0xE9 then .error .followUnsupportedOpcode
    else match rel32 haystack (matchOffset + 1) with
      | none => .error .followOutOfBounds
      | some displacement => .ok (matchOffset + 5 + displacement)

/-- The inner loop of `find_prologue_upwards`: the prologue ends at `anchor`, from its byte `j`
on. -/
def prologueEndsAt (anchor : Nat) : Nat → List UInt8 → Ran Bool
  | _, [] => .returned true
  | j, expected :: prologue =>
    if anchor < j then .returned false
    else match haystack[anchor - j]? with
      | none => .aborted
      | some byte =>
        if byte ≠ expected then .returned false else prologueEndsAt anchor (j + 1) prologue

/-- `anchor - prologue.len() + 1` -/
def entryAt (checks : Bool) (anchor len : Nat) : Ran Nat :=
  if anchor < len ∧ checks = true then .aborted else .returned (anchor + 1 - len)

/-- The loop of `find_prologue_upwards` over `tries` anchors, `anchor` first. -/
def searchUpwards (checks : Bool) (prologue : List UInt8) :
    Nat → Nat → Ran (Except FollowError Nat)
  | 0, _ => .returned (.error (.pattern .noMatch))
  | tries + 1, anchor =>
    match prologueEndsAt haystack anchor 0 prologue with
    | .aborted => .aborted
    | .returned true => (entryAt checks anchor prologue.length).map .ok
    | .returned false => searchUpwards checks prologue tries (anchor - 1)

def findPrologueUpwards (checks : Bool) (bodyOffset : Nat) (prologue : List UInt8)
    (maxScan : Nat) : Ran (Except FollowError Nat) :=
  if prologue = [] then .returned (.error (.pattern .empty))
  else searchUpwards haystack checks prologue (min maxScan bodyOffset + 1) bodyOffset

/-- The target of the call at `pos`, if it is in the buffer. -/
def callTarget (pos : Nat) : Option Nat :=
  match rel32 haystack (pos + 1) with
  | none => none
  | some rel =>
    if 0 ≤ pos + 5 + rel ∧ pos + 5 + rel < haystack.length then some (pos + 5 + rel).toNat
    else none

/-- The loop of `follow_last_call_before_ret` from `pos` on, with the bytes left to `end`. -/
def lastCallFrom : Nat → Nat → Option Nat → Option Nat
  | left + 5, pos, last =>
    if haystack[pos]? = some 0xC3 then last
    else if haystack[pos]? = some 0xE8 then
      lastCallFrom left (pos + 5) ((callTarget haystack pos).or last)
    else lastCallFrom (left + 4) (pos + 1) last
  | _, _, last => last

def followLastCallBeforeRet (offset maxScan : Nat) : Except FollowError Nat :=
  match lastCallFrom haystack (min (offset + maxScan) haystack.length - offset) offset none with
  | none => .error .noCallTarget
  | some target => .ok target

/-- `haystack.get(offset..offset + len)` -/
def window (offset len : Nat) : Option (List UInt8) :=
  if offset + len ≤ haystack.length then some ((haystack.drop offset).take len) else none

def isPicPreamble (offset len : Nat) : Bool :=
  match window haystack offset len with
  | none => false
  | some bytes =>
    bytes[0]? = some 0xe8 &&
      match len with
      | 10 => bytes[5]? = some 0x05
      | 11 => bytes[5]? = some 0x81 && bytes[6]?.any ([0xc1, 0xc3, 0xc5, 0xc6, 0xc7].contains ·)
      | _ => false

def findPicEntry (prologueOffset : Nat) : Option Nat :=
  let before := [10, 11].findSome? fun offset =>
    if offset ≤ prologueOffset ∧ isPicPreamble haystack (prologueOffset - offset) offset then
      some (prologueOffset - offset)
    else none
  match before with
  | some candidate => some candidate
  | none =>
    if window haystack prologueOffset 3 = some [0x55, 0x89, 0xe5] then some prologueOffset
    else none

end Follow

/-! ## Resolving -/

/-- `PatternRef`, with what resolving reads. -/
structure PatternRef where
  name : Text
  pattern : Text
  follow : FollowMode
  prologue : Option (List UInt8)
  calleePattern : Option Text
  picEntry : Bool
  deriving DecidableEq, Repr

structure ResolveResult where
  targetOffset : Nat
  matchCount : Nat
  variantIndex : Nat
  deriving DecidableEq, Repr

structure VariantTarget where
  variantIndex : Nat
  targetOffset : Nat
  deriving DecidableEq, Repr

inductive ResolveError where
  | patternParse (error : Text)
  | calleePatternParse (error : Text)
  | noMatch
  | ambiguous (count : Nat)
  | variantConflict (targets : List VariantTarget)
  | follow (error : Text) (count : Nat)
  | missingPrologue
  | calleePatternMismatch (count : Nat)
  | picEntryNotFound
  deriving DecidableEq, Repr

inductive PatternScanStatus where
  | ok
  | miss
  | ambiguous
  | fail
  deriving DecidableEq, Repr

def ResolveError.status : ResolveError → PatternScanStatus
  | .noMatch => .miss
  | .ambiguous _ => .ambiguous
  | _ => .fail

def ResolveError.matchCount : ResolveError → Nat
  | .noMatch => 0
  | .ambiguous count => count
  | .follow _ count => count
  | .calleePatternMismatch count => count
  | .variantConflict targets => targets.length
  | _ => 0

/-- `resolve_error_rank` -/
def ResolveError.rank : ResolveError → Nat
  | .noMatch => 0
  | .ambiguous _ => 1
  | _ => 2

def preferResolveError (previous : Option ResolveError) (current : ResolveError) : ResolveError :=
  match previous with
  | none => current
  | some previous =>
    if current.rank > previous.rank ∨
        current.rank = previous.rank ∧ current.matchCount > previous.matchCount then current
    else previous

/-- `UPWARD_SCAN_BYTES` -/
def upwardScanBytes : Nat := 0x10000

/-- `FOLLOW_CALL_SCAN_BYTES` -/
def followCallScanBytes : Nat := 256

/-- `CandidateCheck` -/
abbrev CandidateCheck := List UInt8 → Text → Nat → Bool

section Resolve
variable {isizeMax : Nat} (checks : Bool) (finder : Finder) (haystack : Haystack isizeMax)
  (bitness : Nat) (accept : Option CandidateCheck)

def selectMatch (entry : PatternRef) (found : List Nat) : Except ResolveError Nat :=
  match found with
  | [] => .error .noMatch
  | [offset] => .ok offset
  | many =>
    let accepted := match accept with
      | none => []
      | some accept => many.filter (accept haystack.bytes entry.name)
    match accepted.head? with
    | none => .error (.ambiguous many.length)
    | some offset => .ok offset

def resolveCallTarget (entry : PatternRef) (found : List Nat) : Except ResolveError Nat :=
  match entry.calleePattern.mapM parsePattern with
  | .error error => .error (.calleePatternParse error.toText)
  | .ok calleePattern =>
    let called := found.findSome? fun offset =>
      match followLastCallBeforeRet haystack.bytes offset followCallScanBytes with
      | .error _ => none
      | .ok target =>
        if calleePattern.all (·.matchesAt haystack.bytes target) then some target else none
    match called with
    | some target => .ok target
    | none =>
      if calleePattern.isSome then .error (.calleePatternMismatch found.length)
      else .error (.follow "no call before RET".toList found.length)

/-- The end of an arm that follows its match. -/
def followed (matchCount : Nat) (result : Except FollowError Nat) : Except ResolveError Nat :=
  result.mapError fun error => .follow error.toText matchCount

/-- The arm of `FollowMode::Relative`. -/
def relativeTarget (matchCount offset : Nat) : Except ResolveError Nat :=
  match followRelativeCall haystack.bytes offset with
  | .error error => .error (.follow error.toText matchCount)
  | .ok target =>
    if target < 0 ∨ target ≥ haystack.bytes.length then
      .error (.follow "relative target is out of bounds".toList matchCount)
    else .ok target.toNat

/-- The arm of `FollowMode::Upward`. -/
def upwardTarget (entry : PatternRef) (matchCount offset : Nat) : Ran (Except ResolveError Nat) :=
  match entry.prologue with
  | none => .returned (.error .missingPrologue)
  | some prologue =>
    (findPrologueUpwards haystack.bytes checks offset prologue upwardScanBytes).map
      (followed matchCount)

/-- The target before the `pic_entry` step. -/
def followTarget (entry : PatternRef) (found : List Nat) : Ran (Except ResolveError Nat) :=
  let selected := selectMatch haystack accept entry found
  match entry.follow with
  | .none => .returned selected
  | .relative => .returned (selected.bind (relativeTarget haystack found.length))
  | .upward =>
    match selected with
    | .error error => .returned (.error error)
    | .ok offset => upwardTarget checks haystack entry found.length offset
  | .call => .returned (resolveCallTarget haystack entry found)
  | .entry =>
    .returned (selected.bind fun offset => followed found.length
      ((findEntryPushes haystack.bytes bitness offset).mapError .pattern))

/-- The end of `resolve_entry`. -/
def withPicEntry (entry : PatternRef) (matchCount : Nat) (target : Except ResolveError Nat) :
    Except ResolveError ResolveResult :=
  target.bind fun target =>
    if entry.picEntry then
      match findPicEntry haystack.bytes target with
      | none => .error .picEntryNotFound
      | some target => .ok ⟨target, matchCount, 0⟩
    else .ok ⟨target, matchCount, 0⟩

def resolveEntry (entry : PatternRef) : Ran (Except ResolveError ResolveResult) :=
  match parsePattern entry.pattern with
  | .error error => .returned (.error (.patternParse error.toText))
  | .ok pattern =>
    let found := pattern.findAll finder haystack
    if found = [] then .returned (.error .noMatch)
    else (followTarget checks haystack bitness accept entry found).map
      (withPicEntry haystack entry found.length)

end Resolve

def uniqueSuccessfulVariant (successes : List ResolveResult) :
    Except ResolveError (Option ResolveResult) :=
  match successes.head? with
  | none => .ok none
  | some first =>
    if successes.all (·.targetOffset = first.targetOffset) then .ok (some first)
    else .error (.variantConflict
      (successes.map fun result => ⟨result.variantIndex, result.targetOffset⟩))

/-- What resolving one variant gives. -/
abbrev Outcome := Ran (Except ResolveError ResolveResult)

/-- The loop of `resolve_entry_group_with`. -/
def resolveVariants (resolve : PatternRef → Outcome) : List PatternRef → Nat →
    Option ResolveError → List ResolveResult → Ran (Option ResolveError × List ResolveResult)
  | [], _, bestError, successes => .returned (bestError, successes)
  | entry :: entries, variantIndex, bestError, successes =>
    match resolve entry with
    | .aborted => .aborted
    | .returned (.ok result) =>
      resolveVariants resolve entries (variantIndex + 1) bestError
        (successes ++ [{ result with variantIndex }])
    | .returned (.error error) =>
      resolveVariants resolve entries (variantIndex + 1)
        (some (preferResolveError bestError error)) successes

/-- The part of `resolve_entry_group_with` after the loop. -/
def groupResult (bestError : Option ResolveError) (successes : List ResolveResult) :
    Except ResolveError ResolveResult :=
  match uniqueSuccessfulVariant successes with
  | .error error => .error error
  | .ok (some result) => .ok result
  | .ok none => .error (bestError.getD .noMatch)

def resolveGroup (resolve : PatternRef → Outcome) (entries : List PatternRef) : Outcome :=
  (resolveVariants resolve entries 0 none []).map fun state => groupResult state.1 state.2

def resolveEntryGroupWith {isizeMax : Nat} (checks : Bool) (finder : Finder)
    (haystack : Haystack isizeMax) (bitness : Nat) (entries : List PatternRef)
    (accept : Option CandidateCheck) : Outcome :=
  resolveGroup (resolveEntry checks finder haystack bitness accept) entries

/-! ## Targets are in the buffer -/

/-- A target in a buffer of `len` bytes, or an error that one variant can give. -/
def Within (len : Nat) : Except ResolveError Nat → Prop
  | .ok target => target < len
  | .error error => ∀ targets, error ≠ .variantConflict targets

/-- A run that gives such a result, or ends the process where arithmetic is checked. -/
def RunsWithin (checks : Bool) (len : Nat) : Ran (Except ResolveError Nat) → Prop
  | .aborted => checks = true
  | .returned result => Within len result

variable {len matchCount target offset : Nat} {errors : List ResolveError}
  {resolve : PatternRef → Outcome} {entries : List PatternRef}
  {result : Except ResolveError ResolveResult}

theorem Within.bind {x : Except ResolveError Nat} {f : Nat → Except ResolveError Nat}
    (hx : Within len x) (hf : ∀ target < len, Within len (f target)) : Within len (x.bind f) := by
  cases x with
  | error error => exact hx
  | ok target => exact hf target hx

theorem within_followed {result : Except FollowError Nat}
    (h : ∀ target, result = .ok target → target < len) :
    Within len (followed matchCount result) := by
  cases result with
  | error error => nofun
  | ok target => exact h target rfl

theorem callTarget_lt {haystack : List UInt8} {pos : Nat}
    (h : callTarget haystack pos = some target) : target < haystack.length := by
  rw [callTarget] at h
  split at h
  · exact nomatch h
  · split at h
    · next hin =>
      obtain rfl := Option.some.inj h
      omega
    · exact nomatch h

theorem lastCallFrom_lt (haystack : List UInt8) (left pos : Nat) (last : Option Nat)
    (hlast : ∀ target, last = some target → target < haystack.length) (target : Nat)
    (h : lastCallFrom haystack left pos last = some target) : target < haystack.length := by
  fun_induction lastCallFrom haystack left pos last with
  | case1 => exact hlast target h
  | case2 left pos last _ _ ih =>
    refine ih (fun t ht => ?_) h
    rcases Option.or_eq_some_iff.mp ht with hcall | ⟨-, hbefore⟩
    · exact callTarget_lt hcall
    · exact hlast t hbefore
  | case3 left pos last _ _ ih => exact ih hlast h
  | case4 => exact hlast target h

variable {maxScan anchor : Nat} {prologue : List UInt8} {errors' : List ResolveError}
  {targets : List Nat}

theorem followLastCallBeforeRet_lt {haystack : List UInt8}
    (h : followLastCallBeforeRet haystack offset maxScan = .ok target) :
    target < haystack.length := by
  rw [followLastCallBeforeRet] at h
  split at h
  · cases h
  · next found hfound =>
    obtain rfl := Except.ok.inj h
    refine lastCallFrom_lt haystack _ _ none ?_ _ hfound
    intro _ hnone
    cases hnone

/-- A search that ends the process only where arithmetic is checked, and stays behind `bound`. -/
def Behind (checks : Bool) (bound : Nat) : Ran (Except FollowError Nat) → Prop
  | .aborted => checks = true
  | .returned (.ok target) => target ≤ bound
  | .returned (.error _) => True

theorem Behind.mono {checks : Bool} {bound bound' : Nat} {result : Ran (Except FollowError Nat)}
    (h : Behind checks bound result) (hle : bound ≤ bound') : Behind checks bound' result := by
  match result with
  | .aborted => exact h
  | .returned (.ok _) => exact Nat.le_trans h hle
  | .returned (.error _) => trivial

/-- Read backwards from `anchor`, the byte `j` is `anchor - j`. -/
theorem drop_reverse_take {haystack : List UInt8} {j : Nat} (h : anchor < haystack.length)
    (hj : j ≤ anchor) :
    ∃ byte, haystack[anchor - j]? = some byte ∧ (haystack.take (anchor + 1)).reverse.drop j =
      byte :: (haystack.take (anchor + 1)).reverse.drop (j + 1) := by
  have hlen : (haystack.take (anchor + 1)).reverse.length = anchor + 1 := by
    rw [List.length_reverse, List.length_take]
    omega
  have hlt : j < (haystack.take (anchor + 1)).reverse.length := by omega
  refine ⟨_, ?_, List.drop_eq_getElem_cons hlt⟩
  rw [← List.getElem?_eq_getElem hlt, List.getElem?_reverse (by simpa using hlt),
    List.length_take, List.getElem?_take_of_lt (by omega)]
  congr 1
  omega

theorem prologueEndsAt_eq {haystack : List UInt8} (h : anchor < haystack.length) :
    ∀ (j : Nat) (prologue : List UInt8),
    prologueEndsAt haystack anchor j prologue =
      .returned (decide (prologue <+: (haystack.take (anchor + 1)).reverse.drop j))
  | _, [] => by simp [prologueEndsAt]
  | j, expected :: prologue => by
    rw [prologueEndsAt]
    split
    · next hj =>
      -- the buffer begins here, with bytes of the prologue left
      have hnil : (haystack.take (anchor + 1)).reverse.drop j = [] := by
        rw [List.drop_eq_nil_iff, List.length_reverse, List.length_take]
        omega
      simp [hnil]
    · next hj =>
      obtain ⟨byte, hbyte, hdrop⟩ := drop_reverse_take h (Nat.not_lt.mp hj)
      rw [hbyte, hdrop]
      dsimp only
      split
      · next hne => simp [List.cons_prefix_cons, Ne.symm hne]
      · next heq =>
        rw [prologueEndsAt_eq h (j + 1) prologue]
        simp [List.cons_prefix_cons, not_not.mp heq]

theorem searchUpwards_behind {haystack : List UInt8} {checks : Bool} (hne : prologue ≠ []) :
    ∀ tries anchor : Nat, anchor < haystack.length →
      Behind checks anchor (searchUpwards haystack checks prologue tries anchor)
  | 0, _, _ => trivial
  | tries + 1, anchor, h => by
    have hlen := List.length_pos_iff.mpr hne
    rw [searchUpwards]
    split
    · next habort =>
      rw [prologueEndsAt_eq h] at habort
      exact nomatch habort
    · rw [entryAt]
      split
      · next hchecks => exact hchecks.2
      · show anchor + 1 - prologue.length ≤ anchor
        omega
    · exact (searchUpwards_behind hne tries (anchor - 1) (by omega)).mono (Nat.sub_le _ _)

theorem findPrologueUpwards_behind {haystack : List UInt8} {checks : Bool} {bodyOffset : Nat}
    (h : bodyOffset < haystack.length) :
    Behind checks bodyOffset
      (findPrologueUpwards haystack checks bodyOffset prologue maxScan) := by
  rw [findPrologueUpwards]
  split
  · trivial
  · next hne => exact searchUpwards_behind hne _ _ h

theorem findPicEntry_le {haystack : List UInt8} {prologueOffset : Nat}
    (h : findPicEntry haystack prologueOffset = some target) : target ≤ prologueOffset := by
  rw [findPicEntry] at h
  split at h
  · next candidate hfound =>
    obtain ⟨offset, -, hsome⟩ := List.exists_of_findSome?_eq_some hfound
    split at hsome
    · obtain rfl := Option.some.inj hsome
      obtain rfl := Option.some.inj h
      exact Nat.sub_le _ _
    · exact nomatch hsome
  · split at h
    · exact Nat.le_of_eq (Option.some.inj h).symm
    · exact nomatch h

section Within
variable {isizeMax : Nat} {checks : Bool} {finder : Finder} {haystack : Haystack isizeMax}
  {bitness : Nat} {accept : Option CandidateCheck} {entry : PatternRef} {found : List Nat}

theorem selectMatch_within (h : ∀ offset ∈ found, offset < len) :
    Within len (selectMatch haystack accept entry found) := by
  unfold selectMatch
  split
  · nofun
  · exact h _ List.mem_cons_self
  · cases accept with
    | none => nofun
    | some accept =>
      dsimp only
      split
      · nofun
      · next offset hhead =>
        have hmem := List.mem_of_mem_head? hhead
        exact h offset (List.mem_of_mem_filter hmem)

theorem resolveCallTarget_within :
    Within haystack.bytes.length (resolveCallTarget haystack entry found) := by
  rw [resolveCallTarget]
  split
  · nofun
  · dsimp only
    split
    · next target hcalled =>
      obtain ⟨offset, -, hsome⟩ := List.exists_of_findSome?_eq_some hcalled
      split at hsome
      · exact nomatch hsome
      · next called hfollow =>
        split at hsome
        · obtain rfl := Option.some.inj hsome
          exact followLastCallBeforeRet_lt hfollow
        · exact nomatch hsome
    · split <;> nofun

theorem relativeTarget_within (matchCount offset : Nat) :
    Within haystack.bytes.length (relativeTarget haystack matchCount offset) := by
  rw [relativeTarget]
  split
  · nofun
  · split
    · nofun
    · show Int.toNat _ < _
      omega

theorem entryPushes_within (h : offset < haystack.bytes.length) :
    Within haystack.bytes.length (followed found.length
      ((findEntryPushes haystack.bytes bitness offset).mapError .pattern)) := by
  refine within_followed fun target htarget => ?_
  cases hfind : findEntryPushes haystack.bytes bitness offset with
  | error error =>
    rw [hfind] at htarget
    exact nomatch htarget
  | ok pushes =>
    rw [hfind] at htarget
    obtain rfl := Except.ok.inj htarget
    have hentry := (entryOffset_of_findEntryPushes _ _ _ hfind).2.1
    omega

theorem upwardTarget_within (h : offset < haystack.bytes.length) :
    RunsWithin checks haystack.bytes.length
      (upwardTarget checks haystack entry matchCount offset) := by
  rw [upwardTarget]
  split
  · nofun
  · next prologue _ =>
    have hbehind : Behind checks offset (findPrologueUpwards haystack.bytes checks offset prologue
      upwardScanBytes) := findPrologueUpwards_behind h
    generalize findPrologueUpwards haystack.bytes checks offset prologue _ = run at hbehind ⊢
    cases run with
    | aborted => exact hbehind
    | returned result =>
      refine within_followed fun target htarget => ?_
      subst htarget
      exact Nat.lt_of_le_of_lt hbehind h

theorem followTarget_within (h : ∀ offset ∈ found, offset < haystack.bytes.length) :
    RunsWithin checks haystack.bytes.length
      (followTarget checks haystack bitness accept entry found) := by
  have hselect : Within _ (selectMatch haystack accept entry found) := selectMatch_within h
  rw [followTarget]
  split
  · exact hselect
  · exact hselect.bind fun offset _ => relativeTarget_within _ offset
  · split
    · next error herror => rwa [herror] at hselect
    · next offset hoffset =>
      rw [hoffset] at hselect
      exact upwardTarget_within hselect
  · exact resolveCallTarget_within
  · exact hselect.bind fun offset hoffset => entryPushes_within hoffset

theorem findAll_lt {pattern : Pattern} (h : offset ∈ pattern.findAll finder haystack) :
    offset < haystack.bytes.length := by
  rw [Pattern.findAll_eq, Pattern.mem_offsets] at h
  have hlen := List.length_pos_iff.mpr pattern.nonempty
  have hend := h.1
  omega

theorem withPicEntry_within {target : Except ResolveError Nat} (h : Within len target) :
    Within len ((withPicEntry haystack entry matchCount target).map (·.targetOffset)) := by
  cases target with
  | error error => exact h
  | ok target =>
    show Within _ (Except.map _ (if entry.picEntry then _ else _))
    split
    · split
      · intro target htarget
        cases htarget
      · next hpic => exact Nat.lt_of_le_of_lt (findPicEntry_le hpic) h
    · exact h

/-- A variant that resolves does so in the buffer, and no variant is in conflict with itself. -/
theorem resolveEntry_within : RunsWithin checks haystack.bytes.length
    ((resolveEntry checks finder haystack bitness accept entry).map
      (·.map (·.targetOffset))) := by
  rw [resolveEntry]
  split
  · nofun
  · next pattern _ =>
    dsimp only
    split
    · nofun
    · have hfollow : RunsWithin checks _ (followTarget checks haystack bitness accept entry
          (pattern.findAll finder haystack)) := followTarget_within fun _ hmem => findAll_lt hmem
      generalize followTarget checks haystack bitness accept entry _ = run at hfollow ⊢
      cases run with
      | aborted => exact hfollow
      | returned target => exact withPicEntry_within hfollow

end Within

/-! ## What a group reports -/

/-- No error of the list has a higher rank, or its rank and a higher count. -/
def IsBest : Option ResolveError → List ResolveError → Prop
  | none, errors => errors = []
  | some best, errors => best ∈ errors ∧ ∀ error ∈ errors,
      error.rank < best.rank ∨ error.rank = best.rank ∧ error.matchCount ≤ best.matchCount

theorem IsBest.prefer {best : Option ResolveError} (h : IsBest best errors) (error : ResolveError) :
    IsBest (some (preferResolveError best error)) (errors ++ [error]) := by
  cases best with
  | none =>
    obtain rfl : errors = [] := h
    refine ⟨List.mem_cons_self, fun other hother => ?_⟩
    rw [List.mem_singleton.mp hother]
    exact .inr ⟨rfl, Nat.le_refl _⟩
  | some best =>
    obtain ⟨hmem, hall⟩ := h
    rw [preferResolveError]
    -- the new error is compared with the best one, which is compared with all others
    constructor
    · split
      · exact List.mem_append_right _ List.mem_cons_self
      · exact List.mem_append_left _ hmem
    · intro other hother
      rcases List.mem_append.mp hother with hold | hnew
      · have := hall other hold
        split <;> omega
      · rw [List.mem_singleton.mp hnew]
        split <;> omega

def okTarget : Outcome → Option Nat
  | .returned (.ok result) => some result.targetOffset
  | _ => none

def errorOf : Outcome → Option ResolveError
  | .returned (.error error) => some error
  | _ => none

theorem resolveVariants_aborted {aborting : PatternRef} (habort : resolve aborting = .aborted) :
    ∀ (entries : List PatternRef) (variantIndex : Nat)
      (bestError : Option ResolveError) (successes : List ResolveResult), aborting ∈ entries →
        resolveVariants resolve entries variantIndex bestError successes = .aborted
  | entry :: entries, variantIndex, bestError, successes, hmem => by
    rw [resolveVariants]
    rcases List.mem_cons.mp hmem with hhead | htail
    · rw [← hhead, habort]
    · split
      · rfl
      · exact resolveVariants_aborted habort entries _ _ _ htail
      · exact resolveVariants_aborted habort entries _ _ _ htail

/-- The loop collects the targets and keeps the best error. -/
theorem resolveVariants_spec : ∀ (entries : List PatternRef)
    (variantIndex : Nat) (bestError : Option ResolveError) (successes : List ResolveResult)
    (errors : List ResolveError), IsBest bestError errors →
      (∀ entry ∈ entries, resolve entry ≠ .aborted) →
      ∃ bestError' added,
        resolveVariants resolve entries variantIndex bestError successes =
          .returned (bestError', successes ++ added) ∧
        added.map ResolveResult.targetOffset = entries.filterMap (okTarget ∘ resolve) ∧
        IsBest bestError' (errors ++ entries.filterMap (errorOf ∘ resolve))
  | [], _, bestError, successes, errors, hbest, _ =>
    ⟨bestError, [], by rw [resolveVariants, List.append_nil], rfl,
      by rwa [List.filterMap_nil, List.append_nil]⟩
  | entry :: entries, variantIndex, bestError, successes, errors, hbest, hruns => by
    have hrest : ∀ entry ∈ entries, resolve entry ≠ .aborted :=
      fun other hmem => hruns other (List.mem_cons_of_mem _ hmem)
    cases hentry : resolve entry with
    | aborted => exact absurd hentry (hruns entry List.mem_cons_self)
    | returned result =>
      cases result with
      | ok result =>
        have hok : (okTarget ∘ resolve) entry = some result.targetOffset :=
          congrArg okTarget hentry
        have herror : (errorOf ∘ resolve) entry = none := congrArg errorOf hentry
        obtain ⟨best, added, hloop, htargets, hbest⟩ := resolveVariants_spec entries
          (variantIndex + 1) bestError (successes ++ [{ result with variantIndex }]) errors
          hbest hrest
        refine ⟨best, { result with variantIndex } :: added, ?_, ?_, ?_⟩
        · rw [resolveVariants, hentry]
          dsimp only
          rw [hloop, List.append_assoc, List.singleton_append]
        · rw [List.map_cons, htargets]
          exact (List.filterMap_cons_some hok).symm
        · rwa [List.filterMap_cons_none herror]
      | error error =>
        have hok : (okTarget ∘ resolve) entry = none := congrArg okTarget hentry
        have herror : (errorOf ∘ resolve) entry = some error := congrArg errorOf hentry
        obtain ⟨best, added, hloop, htargets, hbest⟩ := resolveVariants_spec entries
          (variantIndex + 1) (some (preferResolveError bestError error)) successes
          (errors ++ [error]) (hbest.prefer error) hrest
        refine ⟨best, added, ?_, ?_, ?_⟩
        · rw [resolveVariants, hentry]
          exact hloop
        · rw [htargets]
          exact (List.filterMap_cons_none hok).symm
        · rw [List.filterMap_cons_some herror]
          rwa [List.append_assoc, List.singleton_append] at hbest

/-- What may be reported of variants with these targets and these errors, in any order. -/
inductive Reports (targets : List Nat) (errors : List ResolveError) :
    Except ResolveError ResolveResult → Prop
  | nothing : targets = [] → errors = [] → Reports targets errors (.error .noMatch)
  | failed {best : ResolveError} : targets = [] → IsBest (some best) errors →
      Reports targets errors (.error best)
  | agreed {result : ResolveResult} : result.targetOffset ∈ targets →
      (∀ target ∈ targets, target = result.targetOffset) → Reports targets errors (.ok result)
  | conflict {variants : List VariantTarget} {target target' : Nat} :
      variants.length = targets.length → target ∈ targets → target' ∈ targets →
      target ≠ target' → Reports targets errors (.error (.variantConflict variants))

theorem reports_groupResult {bestError : Option ResolveError} (hbest : IsBest bestError errors)
    (successes : List ResolveResult) :
    Reports (successes.map ResolveResult.targetOffset) errors
      (groupResult bestError successes) := by
  cases successes with
  | nil =>
    cases bestError with
    | none => exact .nothing rfl hbest
    | some best => exact .failed rfl hbest
  | cons first rest =>
    rw [groupResult, uniqueSuccessfulVariant]
    dsimp only [List.head?_cons]
    by_cases hall : (first :: rest).all (·.targetOffset = first.targetOffset) = true
    · rw [if_pos hall]
      refine .agreed List.mem_cons_self fun target hmem => ?_
      obtain ⟨result, hresult, rfl⟩ := List.mem_map.mp hmem
      exact of_decide_eq_true (List.all_eq_true.mp hall result hresult)
    · rw [if_neg hall]
      simp only [List.all_eq_true, decide_eq_true_eq] at hall
      push Not at hall
      obtain ⟨result, hresult, hother⟩ := hall
      refine .conflict (by rw [List.length_map, List.length_map]) ?_ List.mem_cons_self hother
      exact List.mem_map_of_mem hresult

theorem reports_group (hruns : ∀ entry ∈ entries, resolve entry ≠ .aborted) :
    ∃ result, resolveGroup resolve entries = .returned result ∧
      Reports (entries.filterMap (okTarget ∘ resolve)) (entries.filterMap (errorOf ∘ resolve))
        result := by
  obtain ⟨best, added, hloop, htargets, hbest⟩ :=
    @resolveVariants_spec resolve entries 0 none [] [] rfl hruns
  refine ⟨groupResult best added, ?_, ?_⟩
  · rw [resolveGroup, hloop]
    rfl
  · rw [← htargets]
    exact reports_groupResult hbest added

theorem IsBest.perm {best : ResolveError} (h : IsBest (some best) errors)
    (horder : errors.Perm errors') : IsBest (some best) errors' :=
  ⟨horder.mem_iff.mp h.1, fun error hmem => h.2 error (horder.mem_iff.mpr hmem)⟩

theorem Reports.perm {targets' : List Nat} (h : Reports targets errors result)
    (htargets : targets.Perm targets') (herrors : errors.Perm errors') :
    Reports targets' errors' result := by
  cases h with
  | nothing hnone hno =>
    subst hnone hno
    exact .nothing htargets.symm.eq_nil herrors.symm.eq_nil
  | failed hnone hbest =>
    subst hnone
    exact .failed htargets.symm.eq_nil (hbest.perm herrors)
  | agreed hmem hall =>
    exact .agreed (htargets.mem_iff.mp hmem)
      fun target hmem => hall target (htargets.mem_iff.mpr hmem)
  | conflict hlen htarget htarget' hne =>
    exact .conflict (hlen.trans htargets.length_eq) (htargets.mem_iff.mp htarget)
      (htargets.mem_iff.mp htarget') hne

/-- Two results that say the same. -/
def SameReport : Except ResolveError ResolveResult → Except ResolveError ResolveResult → Prop
  | .ok result, .ok result' => result'.targetOffset = result.targetOffset
  | .error error, .error error' =>
    error'.status = error.status ∧ error'.matchCount = error.matchCount
  | _, _ => False

theorem status_of_rank {error error' : ResolveError} (h : error.rank = error'.rank) :
    error.status = error'.status := by
  cases error <;> cases error' <;> first | rfl | exact nomatch h

theorem Reports.same {result' : Except ResolveError ResolveResult}
    (h : Reports targets errors result) (h' : Reports targets errors result') :
    SameReport result result' := by
  cases h with
  | nothing hnone hno =>
    subst hnone hno
    cases h' with
    | nothing => exact ⟨rfl, rfl⟩
    | failed _ hbest => exact nomatch hbest.1
    | agreed hmem => exact nomatch hmem
    | conflict _ hmem => exact nomatch hmem
  | failed hnone hbest =>
    subst hnone
    cases h' with
    | nothing _ hno =>
      subst hno
      exact nomatch hbest.1
    | failed _ hbest' =>
      have hle := hbest.2 _ hbest'.1
      have hge := hbest'.2 _ hbest.1
      exact ⟨status_of_rank (by omega), by omega⟩
    | agreed hmem => exact nomatch hmem
    | conflict _ hmem => exact nomatch hmem
  | agreed hmem hall =>
    cases h' with
    | nothing hnone =>
      subst hnone
      exact nomatch hmem
    | failed hnone =>
      subst hnone
      exact nomatch hmem
    | agreed hmem' => exact hall _ hmem'
    | conflict _ htarget htarget' hne =>
      exact absurd ((hall _ htarget).trans (hall _ htarget').symm) hne
  | conflict hlen htarget htarget' hne =>
    cases h' with
    | nothing hnone =>
      subst hnone
      exact nomatch htarget
    | failed hnone =>
      subst hnone
      exact nomatch htarget
    | agreed _ hall => exact absurd ((hall _ htarget).trans (hall _ htarget').symm) hne
    | conflict hlen' => exact ⟨rfl, hlen'.trans hlen.symm⟩

/-- A group ends the process exactly when one of its variants does. -/
theorem resolveGroup_aborted_iff (resolve : PatternRef → Outcome) (entries : List PatternRef) :
    resolveGroup resolve entries = .aborted ↔ ∃ entry ∈ entries, resolve entry = .aborted := by
  constructor
  · intro habort
    by_contra hruns
    push Not at hruns
    obtain ⟨result, hgroup, -⟩ := reports_group hruns
    exact nomatch habort.symm.trans hgroup
  · intro hsome
    obtain ⟨entry, hmem, hentry⟩ := hsome
    rw [resolveGroup, resolveVariants_aborted hentry entries 0 none [] hmem]
    rfl

theorem reports_of_group (h : resolveGroup resolve entries = .returned result) :
    Reports (entries.filterMap (okTarget ∘ resolve)) (entries.filterMap (errorOf ∘ resolve))
      result := by
  have hruns : ∀ entry ∈ entries, resolve entry ≠ .aborted := by
    intro entry hmem hentry
    have habort := (resolveGroup_aborted_iff resolve entries).mpr ⟨entry, hmem, hentry⟩
    exact nomatch h.symm.trans habort
  obtain ⟨other, hgroup, hreports⟩ := reports_group hruns
  obtain rfl := Ran.returned.inj (h.symm.trans hgroup)
  exact hreports

theorem sameReport_of_perm {entries' : List PatternRef} (horder : entries.Perm entries')
    (h : resolveGroup resolve entries = .returned result) :
    ∃ result', resolveGroup resolve entries' = .returned result' ∧ SameReport result result' := by
  cases hgroup : resolveGroup resolve entries' with
  | aborted =>
    obtain ⟨entry, hmem, hentry⟩ := (resolveGroup_aborted_iff resolve entries').mp hgroup
    have habort := (resolveGroup_aborted_iff resolve entries).mpr
      ⟨entry, horder.mem_iff.mpr hmem, hentry⟩
    exact nomatch h.symm.trans habort
  | returned result' =>
    have hreports := (reports_of_group h).perm (horder.filterMap _) (horder.filterMap _)
    exact ⟨result', rfl, hreports.same (reports_of_group hgroup)⟩

theorem mem_targets :
    target ∈ entries.filterMap (okTarget ∘ resolve) ↔
      ∃ entry ∈ entries, ∃ result, resolve entry = .returned (.ok result) ∧
        result.targetOffset = target := by
  rw [List.mem_filterMap]
  refine exists_congr fun entry => and_congr_right fun _ => ?_
  show okTarget (resolve entry) = some target ↔ _
  cases resolve entry with
  | aborted => exact ⟨fun h => (nomatch h), fun h => nomatch h.choose_spec.1⟩
  | returned outcome =>
    cases outcome with
    | error error => exact ⟨fun h => (nomatch h), fun h => nomatch h.choose_spec.1⟩
    | ok result =>
      refine ⟨fun h => ⟨result, rfl, Option.some.inj h⟩, fun h => ?_⟩
      obtain ⟨other, hsame, htarget⟩ := h
      obtain rfl := Except.ok.inj (Ran.returned.inj hsame)
      exact congrArg some htarget

/-- A conflict is what two variants with different targets give, and nothing else. -/
theorem conflict_iff
    (hself : ∀ entry error, resolve entry = .returned (.error error) → ∀ variants, error ≠ .variantConflict variants)
    (h : resolveGroup resolve entries = .returned result) :
    (∃ variants, result = .error (.variantConflict variants)) ↔
      ∃ target ∈ entries.filterMap (okTarget ∘ resolve),
        ∃ target' ∈ entries.filterMap (okTarget ∘ resolve), target ≠ target' := by
  cases reports_of_group h with
  | nothing hnone _ =>
    rw [hnone]
    exact ⟨fun h => (nomatch h.choose_spec), fun h => nomatch h.choose_spec.1⟩
  | @failed best hnone hbest =>
    rw [hnone]
    refine ⟨fun h => ?_, fun h => nomatch h.choose_spec.1⟩
    obtain ⟨variants, heq⟩ := h
    obtain ⟨entry, -, hentry⟩ := List.mem_filterMap.mp hbest.1
    have hresolve : resolve entry = .returned (.error best) := by
      have herror : errorOf (resolve entry) = some best := hentry
      cases hrun : resolve entry with
      | aborted =>
        rw [hrun] at herror
        exact nomatch herror
      | returned outcome =>
        rw [hrun] at herror
        cases outcome with
        | ok _ => exact nomatch herror
        | error error => rw [Option.some.inj herror]
    exact absurd (Except.error.inj heq) (hself entry best hresolve variants)
  | agreed _ hall =>
    refine ⟨fun h => (nomatch h.choose_spec), fun h => ?_⟩
    obtain ⟨target, hmem, target', hmem', hne⟩ := h
    exact absurd ((hall _ hmem).trans (hall _ hmem').symm) hne
  | @conflict variants target target' _ htarget htarget' hne =>
    exact ⟨fun _ => ⟨target, htarget, target', htarget', hne⟩, fun _ => ⟨variants, rfl⟩⟩

/-! ## The order of the variants -/

section Order
variable {isizeMax : Nat} (checks : Bool) (finder : Finder) (haystack : Haystack isizeMax)
  (bitness : Nat) (accept : Option CandidateCheck)

theorem group_order_independent {entries entries' : List PatternRef}
    (horder : entries.Perm entries') :
    let alone := resolveEntry checks finder haystack bitness accept
    let group := fun entries => resolveEntryGroupWith checks finder haystack bitness entries accept
    (∀ result, group entries = .returned (.ok result) →
      (∃ result', group entries' = .returned (.ok result') ∧
        result'.targetOffset = result.targetOffset) ∧
      result.targetOffset < haystack.bytes.length ∧
      ∀ entry ∈ entries, ∀ own, alone entry = .returned (.ok own) →
        own.targetOffset = result.targetOffset) ∧
    (∀ error, group entries = .returned (.error error) →
      ∃ error', group entries' = .returned (.error error') ∧ error'.status = error.status ∧
        error'.matchCount = error.matchCount) ∧
    (group entries = .aborted → checks = true ∧ group entries' = .aborted) ∧
    (group entries ≠ .aborted →
      ((∃ variants, group entries = .returned (.error (.variantConflict variants))) ↔
        ∃ entry ∈ entries, ∃ entry' ∈ entries, ∃ own own',
          alone entry = .returned (.ok own) ∧ alone entry' = .returned (.ok own') ∧
            own.targetOffset ≠ own'.targetOffset)) := by
  intro alone group
  have hsound : ∀ entry, RunsWithin checks haystack.bytes.length
      ((alone entry).map (·.map (·.targetOffset))) := fun _ => resolveEntry_within
  refine ⟨fun result hgroup => ⟨?_, ?_⟩, fun error hgroup => ?_, fun habort => ⟨?_, ?_⟩,
    fun hruns => ?_⟩
  · obtain ⟨result', hgroup', hsame⟩ := sameReport_of_perm horder hgroup
    cases result' with
    | error error => exact hsame.elim
    | ok result' => exact ⟨result', hgroup', hsame⟩
  · cases reports_of_group hgroup with
    | agreed hmem hall =>
      obtain ⟨entry, _, own, hown, htarget⟩ := mem_targets.mp hmem
      have hwithin := hsound entry
      rw [show alone entry = _ from hown] at hwithin
      refine ⟨htarget ▸ hwithin, fun entry hentry own hown => ?_⟩
      exact hall _ (mem_targets.mpr ⟨entry, hentry, own, hown, rfl⟩)
  · obtain ⟨result', hgroup', hsame⟩ := sameReport_of_perm horder hgroup
    cases result' with
    | ok result' => exact hsame.elim
    | error error' => exact ⟨error', hgroup', hsame⟩
  · obtain ⟨entry, -, hentry⟩ := (resolveGroup_aborted_iff alone entries).mp habort
    have hwithin := hsound entry
    rwa [hentry] at hwithin
  · obtain ⟨entry, hmem, hentry⟩ := (resolveGroup_aborted_iff alone entries).mp habort
    exact (resolveGroup_aborted_iff alone entries').mpr ⟨entry, horder.mem_iff.mp hmem, hentry⟩
  · cases hgroup : group entries with
    | aborted => exact absurd hgroup hruns
    | returned result =>
      have hself : ∀ entry error, alone entry = .returned (.error error) →
          ∀ variants, error ≠ .variantConflict variants := by
        intro entry error hentry
        have hwithin := hsound entry
        rwa [hentry] at hwithin
      have hconflict := conflict_iff hself hgroup
      simp only [mem_targets] at hconflict
      constructor
      · intro hvariants
        obtain ⟨variants, hresult⟩ := hvariants
        obtain ⟨_, ⟨entry, hmem, own, hown, rfl⟩, _, ⟨entry', hmem', own', hown', rfl⟩, hne⟩ :=
          hconflict.mp ⟨variants, Ran.returned.inj hresult⟩
        exact ⟨entry, hmem, entry', hmem', own, own', hown, hown', hne⟩
      · intro hdiffer
        obtain ⟨entry, hmem, entry', hmem', own, own', hown, hown', hne⟩ := hdiffer
        obtain ⟨variants, hresult⟩ := hconflict.mpr
          ⟨_, ⟨entry, hmem, own, hown, rfl⟩, _, ⟨entry', hmem', own', hown', rfl⟩, hne⟩
        exact ⟨variants, congrArg Ran.returned hresult⟩

end Order

/-- A push and the function behind it, found directly and by walking back. -/
def twoVariants : List PatternRef :=
  [⟨['f'], ['5', '5'], .none, none, none, false⟩, ⟨['f'], ['8', '9'], .entry, none, none, false⟩]

theorem two_variants_agree :
    let haystack : Haystack 10 := ⟨[0x55, 0x89, 0xC3], by decide⟩
    let group := fun entries => resolveEntryGroupWith true scanFinder haystack 32 entries none
    twoVariants.Perm twoVariants.reverse ∧ group twoVariants = .returned (.ok ⟨0, 1, 0⟩) ∧
      ∃ result, group twoVariants.reverse = .returned (.ok result) ∧ result.targetOffset = 0 := by
  intro haystack group
  have horder := twoVariants.reverse_perm.symm
  have hgroup : group twoVariants = .returned (.ok ⟨0, 1, 0⟩) := by decide
  exact ⟨horder, hgroup,
    ((group_order_independent true scanFinder haystack 32 none horder).1 _ hgroup).1⟩

end VaporForge.Patterns
