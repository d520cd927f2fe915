import VaporForge.Config.Template

/-!
# What pruning the commented examples removes

> Removing commented examples from the template removes only comment lines, so it changes no
> value.

`prune_commented_section_examples` works on lines and calls a line a comment when its first
character is `#`. `OnlyDrops` says that it removes no other lines. Such a line is a comment of
the document unless a multi-line string is open at its start; `scan` follows the strings of a
document from line to line, and `commentsPlain` says that no string is open at any of these
lines.
-/

namespace VaporForge.Config

open Lib VaporForge.CloudCore

/-! ## Lines of a text -/

/-- The lines of a text, each with the newline that ends it. -/
inductive WellSplit : List Text → Prop where
  | nil : WellSplit []
  | last {line : Text} (nonempty : line ≠ []) (one : '\n' ∉ line) : WellSplit [line]
  | cons {body : Text} {lines : List Text} (one : '\n' ∉ body) (rest : WellSplit lines) :
      WellSplit ((body ++ ['\n']) :: lines)

theorem wellSplit_splitInclusive (text : Text) : WellSplit (splitInclusive text) := by
  induction text with
  | nil => exact .nil
  | cons c rest ih =>
    unfold splitInclusive
    by_cases hc : c = '\n'
    · rw [if_pos hc, hc]
      show WellSplit (([] ++ ['\n']) :: splitInclusive rest)
      exact .cons List.not_mem_nil ih
    · rw [if_neg hc]
      have hone : ∀ line : Text, '\n' ∉ line → '\n' ∉ c :: line := by
        intro line hline hmem
        rcases List.mem_cons.mp hmem with heq | hmem
        · exact hc heq.symm
        · exact hline hmem
      generalize splitInclusive rest = lines at ih
      cases ih with
      | nil => exact .last (List.cons_ne_nil _ _) (hone [] List.not_mem_nil)
      | last nonempty one => exact .last (List.cons_ne_nil _ _) (hone _ one)
      | cons one rest => exact .cons (hone _ one) rest

theorem flatten_splitInclusive (text : Text) : (splitInclusive text).flatten = text := by
  induction text with
  | nil => rfl
  | cons c rest ih =>
    unfold splitInclusive
    split
    · rw [List.flatten_cons, ih]
      rfl
    · cases hlines : splitInclusive rest with
      | nil =>
        rw [hlines] at ih
        rw [← ih]
        rfl
      | cons line lines =>
        rw [hlines] at ih
        rw [← ih]
        rfl

variable {before after : List Text} {body : Text}

/-- Without one of its lines a text has the other lines. -/
theorem WellSplit.drop {line : Text} (h : WellSplit (before ++ line :: after)) :
    WellSplit (before ++ after) := by
  induction before with
  | nil =>
    cases h with
    | last _ _ => exact .nil
    | cons _ rest => exact rest
  | cons first before ih =>
    rw [List.cons_append] at h ⊢
    generalize hlines : before ++ line :: after = lines at h
    cases h with
    | last _ _ => exact absurd hlines (by simp)
    | cons one rest => exact .cons one (ih (hlines ▸ rest))

/-- A line that is not the last. -/
theorem WellSplit.line {line next : Text} (h : WellSplit (before ++ line :: next :: after)) :
    ∃ body, '\n' ∉ body ∧ line = body ++ ['\n'] := by
  induction before with
  | nil =>
    cases h with
    | cons one _ => exact ⟨_, one, rfl⟩
  | cons first before ih =>
    rw [List.cons_append] at h
    generalize hlines : before ++ line :: next :: after = lines at h
    cases h with
    | last _ _ => exact absurd hlines (by simp)
    | cons _ rest => exact ih (hlines ▸ rest)

theorem splitInclusive_line (h : '\n' ∉ body) (rest : Text) :
    splitInclusive (body ++ ['\n'] ++ rest) = (body ++ ['\n']) :: splitInclusive rest := by
  induction body with
  | nil => rfl
  | cons c body ih =>
    rw [List.mem_cons, not_or] at h
    rw [List.cons_append, List.cons_append, splitInclusive, if_neg (Ne.symm h.1), ih h.2]

theorem splitInclusive_last {line : Text} (hne : line ≠ []) (h : '\n' ∉ line) :
    splitInclusive line = [line] := by
  induction line with
  | nil => exact absurd rfl hne
  | cons c line ih =>
    rw [List.mem_cons, not_or] at h
    rw [splitInclusive, if_neg (Ne.symm h.1)]
    cases line with
    | nil => rfl
    | cons c' line => rw [ih (List.cons_ne_nil _ _) h.2]

theorem WellSplit.splitInclusive_flatten {lines : List Text} (h : WellSplit lines) :
    splitInclusive lines.flatten = lines := by
  induction h with
  | nil => rfl
  | cons one _ ih => rw [List.flatten_cons, splitInclusive_line one, ih]
  | last nonempty one => rw [List.flatten_singleton, splitInclusive_last nonempty one]

/-! ## Dropping lines -/

/-- The second list is the first without some lines of the kind. -/
inductive OnlyDrops (kind : Text → Bool) : List Text → List Text → Prop where
  | nil : OnlyDrops kind [] []
  | keep (line : Text) {a b : List Text} (rest : OnlyDrops kind a b) :
      OnlyDrops kind (line :: a) (line :: b)
  | drop {line : Text} {a b : List Text} (h : kind line = true) (rest : OnlyDrops kind a b) :
      OnlyDrops kind (line :: a) b

namespace OnlyDrops

variable {kind : Text → Bool} {a b c d : List Text}

theorem refl (a : List Text) : OnlyDrops kind a a := by
  induction a with
  | nil => exact .nil
  | cons line a ih => exact .keep line ih

theorem append (h : OnlyDrops kind a b) (h' : OnlyDrops kind c d) :
    OnlyDrops kind (a ++ c) (b ++ d) := by
  induction h with
  | nil => exact h'
  | keep line _ ih => exact .keep line ih
  | drop hline _ ih => exact .drop hline ih

theorem trans (h : OnlyDrops kind a b) (h' : OnlyDrops kind b c) : OnlyDrops kind a c := by
  induction h generalizing c with
  | nil => exact h'
  | keep line _ ih =>
    cases h' with
    | keep _ rest => exact .keep line (ih rest)
    | drop hline rest => exact .drop hline (ih rest)
  | drop hline _ ih => exact .drop hline (ih h')

variable {p : Text → Bool}

theorem dropWhile (hp : ∀ line, p line = true → kind line = true) (a : List Text) :
    OnlyDrops kind a (a.dropWhile p) := by
  induction a with
  | nil => exact .nil
  | cons line a ih =>
    rw [List.dropWhile_cons]
    split
    next h => exact .drop (hp line h) ih
    next => exact refl _

theorem rdropWhile (hp : ∀ line, p line = true → kind line = true) (a : List Text) :
    OnlyDrops kind a (a.rdropWhile p) := by
  induction a using List.reverseRecOn with
  | nil => exact .nil
  | append_singleton a line ih =>
    rw [List.rdropWhile_concat]
    split
    next h =>
      have := ih.append (.drop (hp line h) .nil)
      rwa [List.append_nil] at this
    next => exact refl _

end OnlyDrops

theorem isCommentLine_of_header {line : Text} {header : CommentedSectionHeader}
    (h : parseCommentedSectionHeader line = some header) : isCommentLine line = true := by
  unfold parseCommentedSectionHeader at h
  unfold isCommentLine
  split at h
  next rest hline =>
    rw [hline]
    rfl
  next => cases h

section Prune

variable {V : Type}

theorem isCommentLine_of_shouldPrune {user : Entries V} {line : Text}
    (h : shouldPrune user line = true) : isCommentLine line = true := by
  unfold shouldPrune at h
  split at h
  next header hheader => exact isCommentLine_of_header hheader
  next => cases h

/-- The loop, when the output so far came from the lines before. -/
theorem pruneLoop_drops (user : Entries V) (lines : List Text) :
    ∀ {before output : List Text}, OnlyDrops isCommentLine before output →
      OnlyDrops isCommentLine (before ++ lines) (pruneLoop user lines output) := by
  induction hn : lines.length using Nat.strong_induction_on generalizing lines with
  | _ n ih =>
    intro before output h
    subst hn
    rw [pruneLoop.eq_def]
    split
    next =>
      rw [List.append_nil]
      exact h
    next line rest =>
      split
      next hprune =>
        have hexample : ∀ l, isExampleLine l = true → isCommentLine l = true := by
          intro l hl
          exact (Bool.and_eq_true_iff.mp hl).2
        have hdescription : ∀ l, (isCommentLine l && (parseCommentedSectionHeader l).isNone) =
            true → isCommentLine l = true := fun l hl => (Bool.and_eq_true_iff.mp hl).1
        have hbefore : OnlyDrops isCommentLine (before ++ [line])
            (prunePrecedingCommentDescription output) := by
          have := (h.trans (.rdropWhile hdescription output)).append
            (.drop (isCommentLine_of_shouldPrune hprune) .nil)
          rwa [List.append_nil] at this
        have hlt : (rest.dropWhile isExampleLine).length < (line :: rest).length :=
          Nat.lt_succ_of_le (List.length_dropWhile_le _ _)
        have hsame : OnlyDrops isCommentLine (before ++ [line]) (before ++ [line]) := .refl _
        have hrest := hsame.append (.dropWhile hexample rest)
        rw [List.append_assoc] at hrest
        exact hrest.trans (ih _ hlt _ rfl hbefore)
      next =>
        have hkept := h.append (OnlyDrops.refl [line])
        have := ih rest.length (Nat.lt_succ_self _) rest rfl hkept
        rwa [List.append_assoc] at this

theorem prune_drops (template : Text) (user : Entries V) :
    OnlyDrops isCommentLine (splitInclusive template)
      (pruneLoop user (splitInclusive template) []) :=
  pruneLoop_drops user _ .nil

end Prune

/-! ## Strings and comments of a document -/

/-- Where in a document a character stands. -/
inductive Lexing where
  | plain
  | comment
  | basic
  | literal
  | multiBasic
  | multiLiteral
  deriving DecidableEq, Repr

/-- Follows the strings and comments through a line. No token but a multi-line string goes on
behind a newline, and no delimiter stands across one. -/
def scan : Lexing → Text → Lexing
  | s, [] => s
  | .plain, '\x22' :: '\x22' :: '\x22' :: rest => scan .multiBasic rest
  | .plain, '\x22' :: rest => scan .basic rest
  | .plain, '\x27' :: '\x27' :: '\x27' :: rest => scan .multiLiteral rest
  | .plain, '\x27' :: rest => scan .literal rest
  | .plain, '#' :: rest => scan .comment rest
  | .plain, _ :: rest => scan .plain rest
  | .comment, '\n' :: rest => scan .plain rest
  | .comment, _ :: rest => scan .comment rest
  | .basic, '\\' :: _ :: rest => scan .basic rest
  | .basic, '\x22' :: rest => scan .plain rest
  | .basic, '\n' :: rest => scan .plain rest
  | .basic, _ :: rest => scan .basic rest
  | .literal, '\x27' :: rest => scan .plain rest
  | .literal, '\n' :: rest => scan .plain rest
  | .literal, _ :: rest => scan .literal rest
  | .multiBasic, '\\' :: _ :: rest => scan .multiBasic rest
  -- up to two quotes may stand before the three that close the string
  | .multiBasic, '\x22' :: '\x22' :: '\x22' :: '\x22' :: '\x22' :: rest => scan .plain rest
  | .multiBasic, '\x22' :: '\x22' :: '\x22' :: '\x22' :: rest => scan .plain rest
  | .multiBasic, '\x22' :: '\x22' :: '\x22' :: rest => scan .plain rest
  | .multiBasic, _ :: rest => scan .multiBasic rest
  | .multiLiteral, '\x27' :: '\x27' :: '\x27' :: '\x27' :: '\x27' :: rest => scan .plain rest
  | .multiLiteral, '\x27' :: '\x27' :: '\x27' :: '\x27' :: rest => scan .plain rest
  | .multiLiteral, '\x27' :: '\x27' :: '\x27' :: rest => scan .plain rest
  | .multiLiteral, _ :: rest => scan .multiLiteral rest

/-- No string is open at the start of a line that begins with `#`. -/
def commentsPlain : Lexing → List Text → Bool
  | _, [] => true
  | s, line :: lines => (!isCommentLine line || s = .plain) && commentsPlain (scan s line) lines

theorem scan_comment (h : '\n' ∉ body) : scan .comment (body ++ ['\n']) = .plain := by
  induction body with
  | nil => rfl
  | cons c body ih =>
    rw [List.mem_cons, not_or] at h
    rw [List.cons_append, scan]
    · exact ih h.2
    · exact fun heq => h.1 heq.symm

theorem scan_plain_whitespace {c : Char} (h : isWhitespace c = true) (rest : Text) :
    scan .plain (c :: rest) = scan .plain rest := by
  have hne : ∀ c' : Char, isWhitespace c' = false → c ≠ c' := by
    intro c' hc' heq
    rw [heq, hc'] at h
    cases h
  rw [scan]
  · exact fun _ heq => absurd heq (hne _ (by decide))
  · exact hne _ (by decide)
  · exact fun _ heq => absurd heq (hne _ (by decide))
  · exact hne _ (by decide)
  · exact hne _ (by decide)

/-- A comment ends with its line. -/
theorem scan_commentLine (hone : '\n' ∉ body) (h : isCommentLine (body ++ ['\n']) = true) :
    scan .plain (body ++ ['\n']) = .plain := by
  induction body with
  | nil => cases h
  | cons c body ih =>
    rw [List.mem_cons, not_or] at hone
    rw [List.cons_append] at h ⊢
    unfold isCommentLine trimStart at h
    by_cases hc : isWhitespace c = true
    · rw [List.dropWhile_cons_of_pos hc] at h
      rw [scan_plain_whitespace hc]
      exact ih hone.2 h
    · rw [List.dropWhile_cons_of_neg hc] at h
      have hhash : c = '#' := Option.some.inj (of_decide_eq_true h)
      rw [hhash, scan]
      exact scan_comment hone.2

/-! ## Parsing without the comments -/

section Parsing

variable {V : Type}

/-- The text has the values of the document. -/
def Says (toml : TomlLibrary V) (text : Text) (d : Document V) : Prop :=
  ∃ d', toml.parse text = some d' ∧ d'.SameValues d

variable {toml : TomlLibrary V} {d : Document V}

theorem Says.congr {text : Text} {d' : Document V} (h : Says toml text d) (hsame : d.SameValues d') :
    Says toml text d' := by
  obtain ⟨parsed, hparsed, hvalues⟩ := h
  exact ⟨parsed, hparsed, hvalues.trans hsame⟩

/-- The library parses and prints values faithfully, and comments are not values. -/
structure Faithful (toml : TomlLibrary V) : Prop where
  print : ∀ layout text text' d d', toml.parse text = some d → toml.parse text' = some d' →
    Says toml (toml.print layout (mergeDocuments d d')) (mergeDocuments d d')
  comments : ∀ before line after d, WellSplit (before ++ line :: after) →
    isCommentLine line = true → before.foldl scan .plain = .plain →
    toml.parse (before ++ line :: after).flatten = some d →
    Says toml (before ++ after).flatten d

/-- Dropping comment lines behind some lines that stay. -/
theorem Faithful.drops (hfaithful : Faithful toml) {a b : List Text}
    (h : OnlyDrops isCommentLine a b) :
    ∀ before, WellSplit (before ++ a) → commentsPlain (before.foldl scan .plain) a = true →
      ∀ d, Says toml (before ++ a).flatten d → Says toml (before ++ b).flatten d := by
  induction h with
  | nil => exact fun _ _ _ _ hd => hd
  | @keep line a b _ ih =>
    intro before hsplit hplain d hd
    have hplain' := (Bool.and_eq_true_iff.mp hplain).2
    have hmove : ∀ lines : List Text, before ++ line :: lines = (before ++ [line]) ++ lines := by
      simp
    rw [hmove] at hsplit hd ⊢
    refine ih (before ++ [line]) hsplit ?_ d hd
    rw [List.foldl_append]
    exact hplain'
  | @drop line a b hline _ ih =>
    intro before hsplit hplain d hd
    obtain ⟨hfirst, hrest⟩ := Bool.and_eq_true_iff.mp hplain
    have hstate : before.foldl scan .plain = .plain := by
      rw [hline] at hfirst
      exact of_decide_eq_true hfirst
    obtain ⟨parsed, hparsed, hvalues⟩ := hd
    have hwithout := hfaithful.comments before line a parsed hsplit hline hstate hparsed
    refine ih before hsplit.drop ?_ d (hwithout.congr hvalues)
    -- the comment ends with its line, or it is the last line
    cases a with
    | nil => rfl
    | cons next a =>
      obtain ⟨body, hone, rfl⟩ := hsplit.line
      rw [hstate] at hrest ⊢
      rw [scan_commentLine hone hline] at hrest
      exact hrest

/-- The pruned template has the values of the template. -/
theorem Faithful.prune (hfaithful : Faithful toml) {template : Text}
    (hplain : commentsPlain .plain (splitInclusive template) = true) (user : Entries V)
    (hd : toml.parse template = some d) :
    Says toml (pruneCommentedSectionExamples template user) d := by
  have hsays : Says toml ([] ++ splitInclusive template).flatten d := by
    rw [List.nil_append, flatten_splitInclusive]
    exact ⟨d, hd, .refl d⟩
  exact hfaithful.drops (prune_drops template user) [] (wellSplit_splitInclusive template) hplain d
    hsays

end Parsing

end VaporForge.Config
