import Mathlib.Data.List.DropRight
import VaporForge.CloudCore.Text
import VaporForge.Lib.Document

/-!
# Synchronising the configuration with its template

`config/src/template.rs` rewrites the user's configuration in the shape of a template: the
template is parsed, the user's values are merged into it, and the result is printed. Before
that the commented examples of sections that the user has are taken out of the template's text.

Texts are lists of characters. Parsing and printing are the library's and therefore parameters
(`TomlLibrary`); a document is the tree `Lib.Document`. Where a table stands in the printed text
and which comments surround it does not matter to the tree: `print` takes the two texts that
the layout comes from, and `assign_table_positions` has no counterpart.
-/

namespace VaporForge.Config

open Lib VaporForge.CloudCore

abbrev Text := List Char

/-- `toml_edit`. -/
structure TomlLibrary (V : Type) where
  /-- `DocumentMut::from_str`. -/
  parse : Text → Option (Document V)
  /-- `to_string`, with the layout of the texts of the template and of the user. -/
  print : Text × Text → Document V → Text

/-! ## Lines -/

/-- `split_inclusive('\n')`. -/
def splitInclusive : Text → List Text
  | [] => []
  | c :: rest =>
    if c = '\n' then [c] :: splitInclusive rest
    else match splitInclusive rest with
      | [] => [[c]]
      | line :: lines => (c :: line) :: lines

/-- A line without the characters that end it. -/
def stripNewline (line : Text) : Text :=
  match line.reverse with
  | '\n' :: '\r' :: rest => rest.reverse
  | '\n' :: rest => rest.reverse
  | _ => line

def trimStart (text : Text) : Text := text.dropWhile isWhitespace

def trimText (text : Text) : Text := (trimStart text).rdropWhile isWhitespace

/-- The text before the first place where the pattern stands. -/
def upTo (pattern : Text) : Text → Option Text
  | [] => if pattern = [] then some [] else none
  | c :: rest => if pattern.isPrefixOf (c :: rest) then some [] else (upTo pattern rest).map (c :: ·)

/-- What `trim_start().starts_with('#')` tests. -/
def isCommentLine (line : Text) : Bool := (trimStart line).head? = some '#'

/-! ## Section headers -/

structure CommentedSectionHeader where
  path : List String
  array : Bool
  deriving DecidableEq, Repr

def splitSectionPath (path : Text) : List String :=
  (((path.splitOn '.').map trimText).filter (· ≠ [])).map String.ofList

/-- What both header parsers do with the text from the bracket on. -/
def headerFrom : Text → Option CommentedSectionHeader
  | '[' :: '[' :: rest => (upTo [']', ']'] rest).map fun path => ⟨splitSectionPath path, true⟩
  | '[' :: rest => (upTo [']'] rest).map fun path => ⟨splitSectionPath path, false⟩
  | _ => none

def parseSectionHeader (line : Text) : Option CommentedSectionHeader := headerFrom (trimStart line)

def parseCommentedSectionHeader (line : Text) : Option CommentedSectionHeader :=
  match trimStart line with
  | '#' :: rest => headerFrom (trimStart rest)
  | _ => none

def formatCommentedSectionHeader (header : CommentedSectionHeader) : String :=
  let path := String.intercalate "." header.path
  if header.array then "[[" ++ path ++ "]]" else "[" ++ path ++ "]"

section Tables

variable {V : Type}

/-- The table that a path of tables leads to. -/
def descend : Entries V → List String → Option (Entries V)
  | table, [] => some table
  | table, part :: parents =>
    match entry table part with
    | some (.table _ next) => descend next parents
    | _ => none

def userHasSection (table : Entries V) (header : CommentedSectionHeader) : Bool :=
  match header.path.getLast? with
  | none => false
  | some last =>
    match (descend table header.path.dropLast).bind fun current => entry current last with
    | none => false
    | some (.arrayOfTables _) => header.array
    | some (.inlineTable _) => !header.array
    | some (.table implicit entries) => !header.array && (!implicit || !entries.isEmpty)
    | some (.value _) => false

/-! ## Commented examples -/

def prunePrecedingCommentDescription (output : List Text) : List Text :=
  output.rdropWhile fun line => isCommentLine line && (parseCommentedSectionHeader line).isNone

/-- A line that goes with the header of a commented example. -/
def isExampleLine (next : Text) : Bool :=
  !(trimText next).isEmpty && (parseCommentedSectionHeader next).isNone && isCommentLine next

def shouldPrune (user : Entries V) (line : Text) : Bool :=
  match parseCommentedSectionHeader line with
  | some header => userHasSection user header
  | none => false

def pruneLoop (user : Entries V) (lines output : List Text) : List Text :=
  match lines with
  | [] => output
  | line :: rest =>
    if shouldPrune user line then
      pruneLoop user (rest.dropWhile isExampleLine) (prunePrecedingCommentDescription output)
    else pruneLoop user rest (output ++ [line])
  termination_by lines.length
  decreasing_by
    · exact Nat.lt_succ_of_le (List.length_dropWhile_le _ _)
    · exact Nat.lt_succ_self _

def pruneCommentedSectionExamples (template : Text) (user : Entries V) : Text :=
  (pruneLoop user (splitInclusive template) []).flatten

end Tables

/-- `format_commented_field_example`. -/
def formatCommentedFieldExample (path : List String) (array : Bool) (key : Text) : String :=
  let key := String.ofList ((key.dropWhile (· = '"')).rdropWhile (· = '"'))
  match path.getLast? with
  | none => key
  | some last =>
    let last := if array then last ++ "[]" else last
    String.intercalate "." (path.dropLast ++ [last, key])

/-- The loop of `collect_commented_examples` over the lines, with the section that it is in. -/
def collectExamplesLoop (path : List String) (array : Bool) : List Text → List String
  | [] => []
  | line :: lines =>
    match parseSectionHeader line with
    | some header => collectExamplesLoop header.path header.array lines
    | none =>
      match parseCommentedSectionHeader line with
      | some header =>
        formatCommentedSectionHeader header :: collectExamplesLoop header.path header.array lines
      | none =>
        match trimStart line with
        | '#' :: commented =>
          match (upTo ['='] commented).map trimText with
          | none => collectExamplesLoop path array lines
          | some key =>
            if key = [] ∨ key.head? = some '[' then collectExamplesLoop path array lines
            else formatCommentedFieldExample path array key :: collectExamplesLoop path array lines
        | _ => collectExamplesLoop path array lines

def collectCommentedExamples (text : Text) : List String :=
  collectExamplesLoop [] false ((splitInclusive text).map stripNewline)

def templateExamples : List String :=
  ["apps.shared.include", "apps.shared.exclude", "[debug]", "debug.control_api",
    "[[apps.inject]]", "apps.inject[].id", "apps.inject[].dlc", "apps.inject[].ticket",
    "apps.inject[].purchase_time", "[app_avatar]", "app_avatar.480", "app_avatar.0",
    "[[app_avatar.rules]]", "app_avatar.rules[].flag", "app_avatar.rules[].avatar",
    "app_avatar.rules[].apps", "app_avatar.rules[].exclude", "[steam_id]", "steam_id.480",
    "[[library_inject.libs]]", "library_inject.libs[].path", "library_inject.libs[].flag",
    "library_inject.libs[].apps", "library_inject.libs[].exclude"]

section Merge

variable {V : Type}

/-! ## Merging -/

-- one function for each type that the tree is nested through: entries, an entry, an item
mutual

/-- The loop over the user's entries. -/
def mergeUserValuesIntoTemplate : Entries V → Entries V → Entries V
  | template, [] => template
  | template, e :: user =>
    mergeUserValuesIntoTemplate (setEntry template e.1 (mergeEntry (entry template e.1) e)) user

def mergeEntry : Option (Item V) → String × Item V → Item V
  | template, (_, user) => mergeItem template user

/-- The user's item, unless it is a table and the template has a table to merge it into. -/
def mergeItem : Option (Item V) → Item V → Item V
  | some (.table implicit template), .table _ user =>
    .table implicit (mergeUserValuesIntoTemplate template user)
  | _, user => user

end

theorem mergeEntry_eq (template : Option (Item V)) (e : String × Item V) :
    mergeEntry template e = mergeItem template e.2 := by
  cases e with
  | mk key user => rw [mergeEntry]

theorem merge_nil (template : Entries V) : mergeUserValuesIntoTemplate template [] = template := by
  rw [mergeUserValuesIntoTemplate]

theorem merge_cons (template user : Entries V) (e : String × Item V) :
    mergeUserValuesIntoTemplate template (e :: user) =
      mergeUserValuesIntoTemplate
        (setEntry template e.1 (mergeItem (entry template e.1) e.2)) user := by
  rw [mergeUserValuesIntoTemplate, mergeEntry_eq]

theorem mergeItem_tables (implicit implicit' : Bool) (template user : Entries V) :
    mergeItem (some (.table implicit template)) (.table implicit' user) =
      .table implicit (mergeUserValuesIntoTemplate template user) := by
  rw [mergeItem]

variable {template : Option (Item V)} {user : Item V}

/-- The user's item replaces the template's. -/
theorem mergeItem_of_not_tables (h : ¬ (template.map Item.node = some .table ∧ user.node = .table))
    : mergeItem template user = user := by
  rw [mergeItem]
  intro implicit template' implicit' user' htemplate huser
  rw [htemplate, huser] at h
  exact h ⟨rfl, rfl⟩

/-- Merging keeps keys apart and arrays filled, if it does so for each item. -/
theorem wellFormed_merge_of_items {user : Entries V}
    (hitems : ∀ e ∈ user, ∀ template : Option (Item V),
      (∀ t, template = some t → t.WellFormed) → (mergeItem template e.2).WellFormed)
    {template : Entries V} (h : WellFormedEntries template) :
    WellFormedEntries (mergeUserValuesIntoTemplate template user) := by
  induction user generalizing template with
  | nil =>
    rw [merge_nil]
    exact h
  | cons e user ih =>
    rw [merge_cons]
    have hitem := hitems e List.mem_cons_self (entry template e.1) fun t ht => h.item ht
    exact ih (fun e' he' => hitems e' (List.mem_cons_of_mem e he')) (h.setEntry e.1 hitem)

theorem wellFormed_mergeItem (h : user.WellFormed)
    (htemplate : ∀ t, template = some t → t.WellFormed) : (mergeItem template user).WellFormed := by
  induction h generalizing template with
  | table keys items ih =>
    by_cases htables : template.map Item.node = some .table
    · obtain ⟨t, rfl, ht⟩ := Option.map_eq_some_iff.mp htables
      obtain ⟨implicit, entries, rfl⟩ := node_eq_table_iff.mp ht
      rw [mergeItem_tables]
      have hentries := (htemplate _ rfl).entries
      exact (wellFormed_merge_of_items (fun e he _ => ih e he) hentries).table implicit
    · rw [mergeItem_of_not_tables fun h => htables h.1]
      exact .table keys items
  | value v =>
    have hmerged : mergeItem template (.value v) = .value v :=
      mergeItem_of_not_tables fun h => nomatch h.2
    rw [hmerged]
    exact .value v
  | @inlineTable entries keys items =>
    have hmerged : mergeItem template (.inlineTable entries) = .inlineTable entries :=
      mergeItem_of_not_tables fun h => nomatch h.2
    rw [hmerged]
    exact .inlineTable keys items
  | @arrayOfTables tables nonempty keys items =>
    have hmerged : mergeItem template (.arrayOfTables tables) = .arrayOfTables tables :=
      mergeItem_of_not_tables fun h => nomatch h.2
    rw [hmerged]
    exact .arrayOfTables nonempty keys items

/-- `merge_user_values_into_template`, of documents. -/
def mergeDocuments (template user : Document V) : Document V where
  entries := mergeUserValuesIntoTemplate template.entries user.entries
  wellFormed := wellFormed_merge_of_items
    (fun _ he _ htemplate => wellFormed_mergeItem (user.wellFormed.items _ he) htemplate)
    template.wellFormed

/-! ## The report -/

def joinPath (front key : String) : String := if front.isEmpty then key else front ++ "." ++ key

mutual

def collectValuePaths : Entries V → String → List String
  | [], _ => []
  | e :: table, front => entryPaths e front ++ collectValuePaths table front

def entryPaths : String × Item V → String → List String
  | (key, item), front => itemPaths item (joinPath front key)

def itemPaths : Item V → String → List String
  | .table _ child, path => collectValuePaths child path
  | .arrayOfTables array, path => if array.isEmpty then [] else [path ++ "[]"]
  | _, path => [path]

end

mutual

/-- The fields that the loop over the template's entries pushes. -/
def collectMissingFields : Entries V → Entries V → String → List String
  | [], _, _ => []
  | e :: template, user, front =>
    missingInEntry e (entry user e.1) front ++ collectMissingFields template user front

def missingInEntry : String × Item V → Option (Item V) → String → List String
  | (key, template), user, front => missingInItem template user (joinPath front key)

def missingInItem : Item V → Option (Item V) → String → List String
  | .table _ template, some (.table _ user), path => collectMissingFields template user path
  | .table _ template, _, path => collectValuePaths template path
  | .arrayOfTables _, some (.arrayOfTables _), _ => []
  | .arrayOfTables array, _, path => if array.isEmpty then [] else [path ++ "[]"]
  | _, none, path => [path]
  | _, some _, _ => []

end

def collectAddedTemplateFields (template user : Entries V) : List String :=
  collectMissingFields template user ""

/-! ## The dry run -/

structure TemplateSyncDryRun where
  changed : Bool
  synced : Text
  addedFields : List String
  keptCommentedExamples : List String
  prunedCommentedExamples : List String

/-- `sync_default_template_dry_run`, for a template. `none` is the error for a text that the
library does not parse. -/
def syncDefaultTemplateDryRun (toml : TomlLibrary V) (configTemplate text : Text) :
    Option TemplateSyncDryRun := do
  let document ← toml.parse text
  let templateText := pruneCommentedSectionExamples configTemplate document.entries
  let template ← toml.parse templateText
  let addedFields := collectAddedTemplateFields template.entries document.entries
  let synced := toml.print (templateText, text) (mergeDocuments template document)
  let syncedExamples := collectCommentedExamples synced
  some {
    changed := synced ≠ text
    synced := synced
    addedFields := addedFields
    keptCommentedExamples := templateExamples.filter (· ∈ syncedExamples)
    prunedCommentedExamples := templateExamples.filter (· ∉ syncedExamples) }

end Merge

end VaporForge.Config
