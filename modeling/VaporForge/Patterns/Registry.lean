import VaporForge.Patterns.Search
import VaporForge.CloudCore.Text
import VaporForge.Lib.Assoc

/-!
# The pattern registry

`crates/patterns/src/registry.rs` looks patterns up by name, in a hotfix file if there is
one and in a table that was compiled in. A hotfix is a small TOML dialect with a parser of
its own: a `[hotfix]` block, then sections `[module."name"]` for primary patterns and
`[[module."name".variants]]` for variants of them.

A text is its list of characters. The compiled table is a parameter, as is the order in
which the hash map of a hotfix is walked. Errors carry what their messages print.
-/

namespace VaporForge.Patterns

open CloudCore (isWhitespace parseDigits)

abbrev Text := List Char

/-! ## Types -/

inductive PatternArchitecture where
  | x86
  | x86_64
  deriving DecidableEq, Repr

inductive SteamBinaryFamily where
  | ordinary
  | steamRt
  deriving DecidableEq, Repr

structure PatternTarget where
  architecture : PatternArchitecture
  binaryFamily : SteamBinaryFamily
  deriving DecidableEq, Repr

inductive FollowMode where
  | none
  | relative
  | upward
  | call
  | entry
  deriving DecidableEq, Repr

/-- `PatternDef`, an entry of the compiled table. -/
structure PatternDef where
  name : Text
  pattern : Text
  follow : FollowMode
  prologue : Option (List UInt8)
  calleePattern : Option Text
  picEntry : Bool
  steamrtVariant : Bool
  module : Text
  deriving DecidableEq, Repr

structure RuntimePatternEntry where
  pattern : Text
  follow : FollowMode
  prologue : Option (List UInt8)
  calleePattern : Option Text
  picEntry : Bool
  steamrtVariant : Bool
  module : Text
  deriving DecidableEq, Repr

inductive HotfixError where
  | unsupportedArchitecture (value : Text)
  | unsupportedFamily (value : Text)
  | metadataNotFirst (line : Nat)
  | expectedKeyValue (line : Nat)
  | notAnInteger (line : Nat) (key : Text)
  | zeroRevision (line : Nat)
  | duplicate (line : Nat) (key : Text)
  | unknownKey (line : Nat) (key : Text)
  | notQuoted (line : Nat) (key : Text)
  | noBytes (line : Nat) (key : Text)
  | invalidByte (line : Nat) (token key : Text)
  | notABool (line : Nat) (key : Text)
  | malformedHeader (line : Nat)
  | unsupportedModule (line : Nat) (module : Text)
  | emptyName (line : Nat)
  | missingModule (line : Nat) (name : Text)
  | missingPattern (line : Nat) (name : Text)
  | duplicatePrimary (line : Nat) (name : Text)
  | keyOutsideSection (line : Nat)
  | unknownFollow (line : Nat) (value : Text)
  | steamrtOnPrimary (line : Nat)
  | expectedSection (line : Nat)
  | missingMetadata
  | missingFormat
  | unsupportedFormat (format : Nat)
  | missingArchitecture
  | wrongTarget (architecture : PatternArchitecture) (family : Option SteamBinaryFamily)
      (expected : PatternTarget)
  | noEntries
  | noVariants (name : Text)
  | tooManyVariants (name : Text)
  | tooManySelected
  | notRegistered (name module : Text)
  | variantInOrdinary (name : Text)
  | invalidPattern (name : Text) (error : PatternError)
  | noWildcard (name : Text)
  | moreModules (name : Text)
  | tooManyTokens (name : Text)
  | invalidCallee (name : Text) (error : PatternError)
  | tooManyCalleeTokens (name : Text)
  | longPrologue (name : Text)
  | upwardWithoutPrologue (name : Text)
  deriving DecidableEq, Repr

abbrev Parsed (α : Type) := Except HotfixError α

/-! ## Text -/

/-- `str::lines`: a line ends before `\n` or `\r\n`, and `line` is the start of the current
one, backwards. -/
def linesFrom (line : Text) : Text → List Text
  | [] => if line = [] then [] else [line.reverse]
  | '\n' :: rest =>
    (match line with
      | '\r' :: front => front.reverse
      | line => line.reverse) :: linesFrom [] rest
  | c :: rest => linesFrom (c :: line) rest

def lines (text : Text) : List Text := linesFrom [] text

/-- `str::trim`. -/
def trimText (text : Text) : Text :=
  ((text.dropWhile isWhitespace).reverse.dropWhile isWhitespace).reverse

/-- `str::split_whitespace`; `word` is the start of the current word, backwards. -/
def wordsFrom (word : Text) : Text → List Text
  | [] => if word = [] then [] else [word.reverse]
  | c :: rest =>
    if isWhitespace c then
      if word = [] then wordsFrom [] rest else word.reverse :: wordsFrom [] rest
    else wordsFrom (c :: word) rest

def splitWhitespace (text : Text) : List Text := wordsFrom [] text

/-- `str::split_once`. -/
def splitOnceAt (c : Char) (text : Text) : Option (Text × Text) :=
  match text.dropWhile (· ≠ c) with
  | [] => none
  | _ :: rest => some (text.takeWhile (· ≠ c), rest)

/-- `str::parse` of an unsigned number below `bound`. -/
def parseBelow (bound : Nat) (text : Text) : Option Nat :=
  (parseDigits (match text with
    | '+' :: digits => digits
    | digits => digits)).filter (· < bound)

/-- `str::strip_suffix`. -/
def stripEnd (suffix text : Text) : Option Text :=
  if suffix.isSuffixOf text then some (text.take (text.length - suffix.length)) else none

def stripInlineCommentFrom (inString : Bool) : Text → Text
  | [] => []
  | c :: rest =>
    if c = '"' then c :: stripInlineCommentFrom (!inString) rest
    else if c = '#' ∧ inString = false then []
    else c :: stripInlineCommentFrom inString rest

def stripInlineComment (line : Text) : Text := stripInlineCommentFrom false line

def parseQuotedString (value : Text) (line : Nat) (key : Text) : Parsed Text :=
  if value.head? ≠ some '"' ∨ value.getLast? ≠ some '"' ∨ value.length < 2 then
    throw (.notQuoted line key)
  else pure (value.drop 1).dropLast

def parseHexByte (line : Nat) (key token : Text) : Parsed UInt8 :=
  if token.length ≠ 2 then throw (.invalidByte line token key)
  else match u8FromHex token with
    | some byte => pure byte
    | none => throw (.invalidByte line token key)

def parseHexBytes (value : Text) (line : Nat) (key : Text) : Parsed (List UInt8) :=
  if trimText value = [] then throw (.noBytes line key)
  else (splitWhitespace value).mapM (parseHexByte line key)

def parseBool (value : Text) (line : Nat) (key : Text) : Parsed Bool :=
  if value = "true".toList then pure true
  else if value = "false".toList then pure false
  else throw (.notABool line key)

/-! ## The `[hotfix]` block -/

def PatternArchitecture.parse (value : Text) : Parsed PatternArchitecture :=
  if value = "x86".toList then pure .x86
  else if value = "x86_64".toList then pure .x86_64
  else throw (.unsupportedArchitecture value)

def SteamBinaryFamily.parse (value : Text) : Parsed SteamBinaryFamily :=
  if value = "ordinary".toList then pure .ordinary
  else if value = "steamrt".toList then pure .steamRt
  else throw (.unsupportedFamily value)

structure HotfixEnvelope where
  format : Option Nat
  revision : Option Nat
  architecture : Option PatternArchitecture
  binaryFamily : Option SteamBinaryFamily
  deriving DecidableEq, Repr

def HotfixEnvelope.default : HotfixEnvelope := ⟨none, none, none, none⟩

/-- `Option::replace`, which refuses a second value. -/
def setOnce {α : Type} (line : Nat) (key : Text) (old : Option α) (value : α) :
    Parsed (Option α) :=
  if old.isSome then throw (.duplicate line key) else pure (some value)

/-- One key of the block. -/
def HotfixEnvelope.set (envelope : HotfixEnvelope) (line : Nat) (key value : Text) :
    Parsed HotfixEnvelope :=
  if key = "format".toList then
    match parseBelow 0x100000000 value with
    | none => throw (.notAnInteger line key)
    | some parsed => do pure { envelope with format := ← setOnce line key envelope.format parsed }
  else if key = "revision".toList then
    match parseBelow 0x10000000000000000 value with
    | none => throw (.notAnInteger line key)
    | some 0 => throw (.zeroRevision line)
    | some parsed => do
      pure { envelope with revision := ← setOnce line key envelope.revision parsed }
  else if key = "architecture".toList then do
    let parsed ← PatternArchitecture.parse (← parseQuotedString value line key)
    pure { envelope with architecture := ← setOnce line key envelope.architecture parsed }
  else if key = "binary_family".toList then do
    let parsed ← SteamBinaryFamily.parse (← parseQuotedString value line key)
    pure { envelope with binaryFamily := ← setOnce line key envelope.binaryFamily parsed }
  else throw (.unknownKey line key)

structure SplitState where
  envelope : Option HotfixEnvelope
  inMetadata : Bool
  patternsStarted : Bool
  patterns : Text
  deriving DecidableEq, Repr

def SplitState.init : SplitState := ⟨none, false, false, []⟩

/-- A line that is not a header: a key of the block, or a line of the patterns. -/
def SplitState.body (state : SplitState) (line : Nat) (original stripped : Text) :
    Parsed SplitState :=
  match state.envelope.filter fun _ => state.inMetadata with
  | some envelope =>
    if stripped = [] ∨ stripped.head? = some '#' then
      pure { state with patterns := state.patterns ++ ['\n'] }
    else
      match splitOnceAt '=' stripped with
      | none => throw (.expectedKeyValue line)
      | some (key, value) => do
        let envelope ← envelope.set line (trimText key) (trimText value)
        pure { state with envelope := some envelope, patterns := state.patterns ++ ['\n'] }
  | none => pure { state with patterns := state.patterns ++ original ++ ['\n'] }

def SplitState.line (state : SplitState) (numbered : Text × Nat) : Parsed SplitState :=
  let stripped := trimText (stripInlineComment numbered.1)
  if stripped.head? = some '[' then
    if stripped = "[hotfix]".toList then
      if state.envelope.isSome ∨ state.patternsStarted then
        throw (.metadataNotFirst (numbered.2 + 1))
      else
        pure { state with
          envelope := some .default
          inMetadata := true
          patterns := state.patterns ++ ['\n'] }
    else
      { state with inMetadata := false, patternsStarted := true }.body (numbered.2 + 1) numbered.1
        stripped
  else state.body (numbered.2 + 1) numbered.1 stripped

def splitHotfix (text : Text) : Parsed (Option HotfixEnvelope × Text) := do
  let state ← (lines text).zipIdx.foldlM SplitState.line .init
  pure (state.envelope, state.patterns)

/-! ## The sections -/

/-- The module, the name, and whether the section is a variant. -/
def parseSectionHeader (text : Text) (line : Nat) : Parsed (Text × Text × Bool) :=
  let isVariant := "[[".toList.isPrefixOf text
  let close := if isVariant then "]]".toList else "]".toList
  if ¬ close.isSuffixOf text then throw (.malformedHeader line)
  else
    let inner := (text.drop close.length).take (text.length - 2 * close.length)
    if isVariant ∧ ¬ ".variants".toList.isSuffixOf inner then throw (.malformedHeader line)
    else
      match splitOnceAt '.' ((stripEnd ".variants".toList inner).getD inner) with
      | none => throw (.malformedHeader line)
      | some (module, quotedName) =>
        if module ≠ "steamclient".toList ∧ module ≠ "steamui".toList then
          throw (.unsupportedModule line module)
        else do
          let name ← parseQuotedString (trimText quotedName) line "section name".toList
          if name = [] then throw (.emptyName line)
          else pure (module, name, isVariant)

/-- The section that is being read. -/
structure CurrentSection where
  name : Option Text
  module : Option Text
  isVariant : Bool
  steamrt : Option Bool
  startLine : Nat
  pattern : Option Text
  follow : Option FollowMode
  prologue : Option (List UInt8)
  calleePattern : Option Text
  picEntry : Option Bool
  deriving DecidableEq, Repr

def CurrentSection.none : CurrentSection :=
  ⟨.none, .none, false, .none, 0, .none, .none, .none, .none, .none⟩

structure ParseState where
  result : List (Text × RuntimePatternEntry)
  defaults : Lib.Assoc (Text × Text) RuntimePatternEntry
  current : CurrentSection

def ParseState.init : ParseState := ⟨[], ∅, .none⟩

/-- The entry of a section, with what a variant inherits from its primary pattern. -/
def CurrentSection.entry (current : CurrentSection) (module pattern : Text)
    (inherited : Option RuntimePatternEntry) : RuntimePatternEntry where
  pattern := pattern
  follow := current.follow.getD ((inherited.map (·.follow)).getD .none)
  prologue := current.prologue.or (inherited.bind (·.prologue))
  calleePattern := current.calleePattern.or (inherited.bind (·.calleePattern))
  picEntry := current.picEntry.getD (inherited.any (·.picEntry))
  steamrtVariant := current.isVariant && current.steamrt.getD true
  module := module

/-- `flush`: what was read of the current section becomes an entry. -/
def ParseState.flush (state : ParseState) : Parsed ParseState :=
  match state.current.name with
  | none => pure state
  | some name =>
    match state.current.module with
    | none => throw (.missingModule state.current.startLine name)
    | some module =>
      match state.current.pattern with
      | none => throw (.missingPattern state.current.startLine name)
      | some pattern =>
        let inherited := if state.current.isVariant then state.defaults.lookup (module, name)
          else none
        let entry := state.current.entry module pattern inherited
        if state.current.isVariant then
          pure { state with result := state.result ++ [(name, entry)] }
        else if (state.defaults.lookup (module, name)).isSome then
          throw (.duplicatePrimary state.current.startLine name)
        else
          pure { state with
            result := state.result ++ [(name, entry)]
            defaults := state.defaults.insert (module, name) entry }

def FollowMode.parse (value : Text) (line : Nat) : Parsed FollowMode :=
  if value = "none".toList then pure .none
  else if value = "relative".toList then pure .relative
  else if value = "upward".toList then pure .upward
  else if value = "call".toList then pure .call
  else if value = "entry".toList then pure .entry
  else throw (.unknownFollow line value)

/-- One key of a section. -/
def CurrentSection.set (current : CurrentSection) (line : Nat) (key value : Text) :
    Parsed CurrentSection :=
  if key = "pattern".toList then do
    pure { current with pattern := some (← parseQuotedString value line key) }
  else if key = "follow".toList then do
    pure { current with
      follow := some (← FollowMode.parse (← parseQuotedString value line key) line) }
  else if key = "prologue".toList then do
    let bytes ← parseHexBytes (← parseQuotedString value line key) line key
    pure { current with prologue := some bytes }
  else if key = "callee_pattern".toList then do
    pure { current with calleePattern := some (← parseQuotedString value line key) }
  else if key = "pic_entry".toList then do
    pure { current with picEntry := some (← parseBool value line key) }
  else if key = "steamrt".toList then
    if current.isVariant then do
      pure { current with steamrt := some (← parseBool value line key) }
    else throw (.steamrtOnPrimary line)
  else throw (.unknownKey line key)

/-- One line of `parse_toml_entries`. A header flushes the section before it. -/
def ParseState.line (state : ParseState) (numbered : Text × Nat) : Parsed ParseState :=
  let stripped := trimText (stripInlineComment numbered.1)
  let line := numbered.2 + 1
  if stripped = [] ∨ stripped.head? = some '#' then pure state
  else if stripped.head? = some '[' then do
    let (module, name, isVariant) ← parseSectionHeader stripped line
    let state ← state.flush
    pure { state with
      current := { CurrentSection.none with
        name := some name, module := some module, isVariant := isVariant, startLine := line } }
  else
    match splitOnceAt '=' stripped with
    | some (key, value) =>
      if state.current.name.isNone then throw (.keyOutsideSection line)
      else do
        let current ← state.current.set line (trimText key) (trimText value)
        pure { state with current := current }
    | none => throw (.expectedSection line)

def parseTomlEntries (text : Text) : Parsed (List (Text × RuntimePatternEntry)) := do
  let state ← (lines text).zipIdx.foldlM ParseState.line .init
  let state ← state.flush
  pure state.result

/-- The entries of one name stay in the order of the file. -/
def pushEntry (overrides : Lib.Assoc Text (List RuntimePatternEntry))
    (e : Text × RuntimePatternEntry) : Lib.Assoc Text (List RuntimePatternEntry) :=
  overrides.insert e.1 ((overrides.lookup e.1).getD [] ++ [e.2])

def parseTomlOverrides (text : Text) : Parsed (Lib.Assoc Text (List RuntimePatternEntry)) := do
  pure ((← parseTomlEntries text).foldl pushEntry ∅)

structure ParsedHotfix where
  architecture : PatternArchitecture
  binaryFamily : Option SteamBinaryFamily
  revision : Option Nat
  overrides : Lib.Assoc Text (List RuntimePatternEntry)

def hotfixFormat : Nat := 1

def parseHotfix (text : Text) : Parsed ParsedHotfix := do
  let (envelope, patterns) ← splitHotfix text
  match envelope with
  | none => throw .missingMetadata
  | some envelope =>
    match envelope.format with
    | none => throw .missingFormat
    | some format =>
      if format ≠ hotfixFormat then throw (.unsupportedFormat format)
      else
        match envelope.architecture with
        | none => throw .missingArchitecture
        | some architecture => do
          pure ⟨architecture, envelope.binaryFamily, envelope.revision,
            ← parseTomlOverrides patterns⟩

/-! ## Validation -/

def maxHotfixVariantsPerPattern : Nat := 8
def maxHotfixSelectedVariants : Nat := 64
def maxHotfixPatternTokens : Nat := 256
def maxHotfixPrologueBytes : Nat := 64

def parsePattern (text : Text) : Except PatternError Pattern := Pattern.parse (splitWhitespace text)

def validateCallee (name : Text) : Option Text → Parsed Unit
  | none => pure ()
  | some callee =>
    match parsePattern callee with
    | .error error => throw (.invalidCallee name error)
    | .ok callee =>
      if callee.tokens.length > maxHotfixPatternTokens then throw (.tooManyCalleeTokens name)
      else pure ()

/-- The checks of one entry, beside the `first` of its name. -/
def validateEntry (name : Text) (first entry : RuntimePatternEntry) : Parsed Unit :=
  if entry.module ≠ first.module then throw (.moreModules name)
  else
    match parsePattern entry.pattern with
    | .error error => throw (.invalidPattern name error)
    | .ok pattern =>
      if pattern.tokens.length > maxHotfixPatternTokens then throw (.tooManyTokens name)
      else do
        validateCallee name entry.calleePattern
        if entry.prologue.any fun bytes => bytes.length > maxHotfixPrologueBytes then
          throw (.longPrologue name)
        else if entry.follow = .upward ∧ entry.prologue.isNone then
          throw (.upwardWithoutPrologue name)
        else pure ()

/-- The shape of a hotfix that is for ordinary builds alone. -/
def validateShape (declared : Option SteamBinaryFamily) (name : Text)
    (first : RuntimePatternEntry) (entries : List RuntimePatternEntry) : Parsed Unit :=
  if declared ≠ some .ordinary then pure ()
  else if entries.any (·.steamrtVariant) then throw (.variantInOrdinary name)
  else
    match parsePattern first.pattern with
    | .error error => throw (.invalidPattern name error)
    | .ok pattern => if .wildcard ∉ pattern.tokens then throw (.noWildcard name) else pure ()

/-- `entries.iter().filter(|entry| entry.steamrt_variant).count()`. -/
def variantCount (entries : List RuntimePatternEntry) : Nat :=
  entries.countP (·.steamrtVariant)

/-- By how much one name raises the count of selected variants. -/
def countedVariants (target : PatternTarget) (entries : List RuntimePatternEntry) : Nat :=
  if target.binaryFamily = .steamRt ∧ variantCount entries ≠ 0 then variantCount entries else 1

/-- One name of `validate_hotfix_entries`, with the variants that were counted before. -/
def validateName (embedded : List PatternDef) (target : PatternTarget)
    (declared : Option SteamBinaryFamily) (selected : Nat)
    (e : (_ : Text) × List RuntimePatternEntry) : Parsed Nat :=
  match e.2 with
  | [] => throw (.noVariants e.1)
  | first :: _ =>
    if variantCount e.2 > maxHotfixVariantsPerPattern then throw (.tooManyVariants e.1)
    else if selected + countedVariants target e.2 > maxHotfixSelectedVariants then
      throw .tooManySelected
    else if (embedded.find? fun p => p.name == e.1 && p.module == first.module).isNone then
      throw (.notRegistered e.1 first.module)
    else do
      validateShape declared e.1 first e.2
      e.2.forM (validateEntry e.1 first)
      pure (selected + countedVariants target e.2)

/-- `validate_hotfix_entries`, which walks the names in some order. -/
def validateHotfixEntries (embedded : List PatternDef)
    (order : Lib.Arrangement ((_ : Text) × List RuntimePatternEntry))
    (overrides : Lib.Assoc Text (List RuntimePatternEntry)) (target : PatternTarget)
    (declared : Option SteamBinaryFamily) : Parsed Unit :=
  if overrides.entries = [] then throw .noEntries
  else do
    let _ ← (order.arrange overrides.entries).foldlM (validateName embedded target declared) 0
    pure ()

/-! ## Lookup -/

structure PatternRegistry where
  overrides : Lib.Assoc Text (List RuntimePatternEntry)
  target : Option PatternTarget
  hotfixRevision : Option Nat

def PatternRegistry.fromHotfixText (embedded : List PatternDef)
    (order : Lib.Arrangement ((_ : Text) × List RuntimePatternEntry)) (text : Text)
    (expected : PatternTarget) : Parsed PatternRegistry := do
  let parsed ← parseHotfix text
  if parsed.architecture ≠ expected.architecture ∨
      ¬ parsed.binaryFamily.all (· == expected.binaryFamily) then
    throw (.wrongTarget parsed.architecture parsed.binaryFamily expected)
  else do
    validateHotfixEntries embedded order parsed.overrides expected parsed.binaryFamily
    pure ⟨parsed.overrides, some expected, parsed.revision⟩

def selectVariants {α : Type} (entries : List α) (target : Option PatternTarget)
    (isSteamrt : α → Bool) : List α :=
  match target with
  | none => entries
  | some target =>
    if target.binaryFamily = .steamRt ∧ entries.any isSteamrt then entries.filter isSteamrt
    else entries.filter fun entry => !isSteamrt entry

inductive PatternVariantLookup where
  | embedded (p : PatternDef)
  | runtime (p : RuntimePatternEntry)
  deriving DecidableEq, Repr

structure PatternLookup where
  variants : List PatternVariantLookup
  deriving DecidableEq, Repr

/-- What `pattern`, `follow`, `prologue_bytes`, `callee_pattern`, `pic_entry` and `module`
read; `none` where the index is out of range. -/
def PatternLookup.primary (lookup : PatternLookup) : Option PatternVariantLookup :=
  lookup.variants[0]?

def PatternRegistry.get (embedded : List PatternDef) (registry : PatternRegistry) (name : Text) :
    Option PatternLookup :=
  match registry.overrides.lookup name with
  | some entries =>
    some ⟨(selectVariants entries registry.target (·.steamrtVariant)).map .runtime⟩
  | none =>
    let candidates := embedded.filter fun p => p.name == name
    let variants := (selectVariants candidates registry.target (·.steamrtVariant)).map
      PatternVariantLookup.embedded
    if variants = [] then none else some ⟨variants⟩

end VaporForge.Patterns
