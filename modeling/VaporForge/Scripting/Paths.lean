import VaporForge.Lib.Assoc

/-!
# The path of a script

Scripts are loaded from configured directories once (`scripting/src/executor.rs`) and then kept
up to date by a watcher (`hooks/src/watcher.rs`). What a script contributes is filed under its
path, and each of the two has its own way to get there from the text in the configuration.

> The two agree on the path of a script exactly when: without a leading `~`, or without a home
> directory, the directory is absolute; with `~/`, no second `~/` follows and what comes out is
> absolute; with any other `~`, home and working directory are the same; or there is no working
> directory, and (for a lone `~`) an empty home (`same_path_iff`).

The initial load leaves a relative directory relative (`relative_directory_differs`), strips
`~/` as often as it is there, and puts home in front of `~name`. The watcher strips it once,
leaves `~name` alone, and puts the working directory in front of what is relative. Texts are
sequences of characters, of which only `/`, `.` and `~` matter here.
-/

namespace VaporForge.Scripting

namespace Paths

open Lib

abbrev PathText := List Char

/-! ## Paths of the standard library -/

/-- `is_absolute` -/
def isAbsolute (path : PathText) : Bool := path.head? = some '/'

/-- How a path begins; a leading `.` is the only one that counts. -/
inductive Start where
  | root
  | current
  | plain
  deriving DecidableEq, Repr

def start (path : PathText) : Start :=
  if isAbsolute path then .root
  else if path.take 2 = ['.'] ∨ path.take 2 = ['.', '/'] then .current
  else .plain

/-- The part between two separators, if it counts. -/
def kept (word : PathText) : List PathText := if word = [] ∨ word = ['.'] then [] else [word]

def namesFrom (word : PathText) : PathText → List PathText
  | [] => kept word
  | c :: rest => if c = '/' then kept word ++ namesFrom [] rest else namesFrom (word ++ [c]) rest

def names (path : PathText) : List PathText := namesFrom [] path

/-- `components`, by which paths are compared. -/
def components (path : PathText) : Start × List PathText := (start path, names path)

/-- `join` -/
def join (base path : PathText) : PathText :=
  if isAbsolute path then path
  else if base = [] ∨ base.getLast? = some '/' then base ++ path
  else base ++ '/' :: path

/-- A working directory, which is absolute. -/
structure WorkingDir where
  text : PathText
  absolute : isAbsolute text = true

/-- The name of a file with the extension `lua`. -/
structure LuaName where
  text : PathText
  noSeparator : '/' ∉ text
  extension : ∃ stem ≠ [], text = stem ++ ['.', 'l', 'u', 'a']

/-! ## The two ways to a script -/

/-- `trim_start_matches("~/")` -/
def trimTildes : PathText → PathText
  | '~' :: '/' :: rest => trimTildes rest
  | path => path

/-- `expand_dir` of the executor. -/
def expandDirLoaded (home : Option PathText) (dir : PathText) : PathText :=
  match dir, home with
  | '~' :: _, some home => join home (trimTildes dir)
  | _, _ => dir

/-- `expand_dir` of the watcher. -/
def expandDirWatched (home : Option PathText) (dir : PathText) : PathText :=
  match dir, home with
  | '~' :: '/' :: rest, some home => join home rest
  | _, _ => dir

def absolutePath (current : Option WorkingDir) (path : PathText) : PathText :=
  if isAbsolute path then path
  else match current with
    | none => path
    | some current => join current.text path

/-- The path a script is filed under when it is loaded: the directory and the name. -/
def loadedPath (home : Option PathText) (dir : PathText) (file : LuaName) : PathText :=
  join (expandDirLoaded home dir) file.text

/-- The path an event of the directory's watch leads to. -/
def watchedPath (home : Option PathText) (current : Option WorkingDir) (dir : PathText)
    (file : LuaName) : PathText :=
  join (absolutePath current (expandDirWatched home dir)) file.text

/-! ## Joining -/

theorem start_eq_root_iff (path : PathText) : start path = .root ↔ isAbsolute path = true := by
  rw [start]
  split
  · next h => exact ⟨fun _ => h, fun _ => rfl⟩
  · next h =>
    refine ⟨fun hroot => ?_, fun habs => absurd habs h⟩
    split at hroot <;> exact nomatch hroot

theorem namesFrom_append (rest : PathText) : ∀ (base word : PathText),
    namesFrom word (base ++ '/' :: rest) = namesFrom word base ++ names rest
  | [], word => by
    rw [List.nil_append, namesFrom.eq_2, if_pos rfl]
    rfl
  | c :: base, word => by
    rw [List.cons_append, namesFrom, namesFrom]
    split
    · rw [namesFrom_append rest base [], List.append_assoc]
    · exact namesFrom_append rest base (word ++ [c])

@[simp] theorem names_nil : names [] = [] := rfl

theorem names_append_slash (base : PathText) : names (base ++ ['/']) = names base := by
  show namesFrom [] (base ++ '/' :: []) = _
  rw [namesFrom_append, names_nil, List.append_nil]
  rfl

variable {base path : PathText}

theorem names_join (hpath : isAbsolute path = false) :
    names (join base path) = names base ++ names path := by
  rw [join, hpath, if_neg Bool.false_ne_true]
  split
  · next hend =>
    rcases hend with rfl | hend
    · rfl
    · -- the separator that is there does what another one would
      obtain ⟨front, rfl⟩ := List.getLast?_eq_some_iff.mp hend
      rw [names_append_slash, List.append_assoc]
      exact namesFrom_append path front []
  · exact namesFrom_append path base []

theorem isAbsolute_join (hpath : isAbsolute path = false) :
    isAbsolute (join base path) = isAbsolute base := by
  rw [join, hpath, if_neg Bool.false_ne_true]
  cases base with
  | nil => exact hpath
  | cons c base => split <;> rfl

theorem start_append (hne : base ≠ []) (rest : PathText) :
    start (base ++ '/' :: rest) = start base := by
  cases base with
  | nil => exact absurd rfl hne
  | cons c base =>
    cases base with
    | nil => simp [start, isAbsolute]
    | cons d base => rfl

theorem start_join (hpath : isAbsolute path = false) (hplain : start path = .plain) :
    start (join base path) = start base := by
  rw [join, hpath, if_neg Bool.false_ne_true]
  split
  · next hend =>
    rcases hend with rfl | hend
    · exact hplain
    · obtain ⟨front, rfl⟩ := List.getLast?_eq_some_iff.mp hend
      rw [List.append_assoc]
      cases front with
      | nil => rfl
      | cons c front =>
        have hne : c :: front ≠ [] := List.cons_ne_nil c front
        exact (start_append hne path).trans (start_append hne []).symm
  · next hbase => exact start_append (fun hnil => hbase (.inl hnil)) path

/-- A word without a separator is one name. -/
theorem namesFrom_word : ∀ (text word : PathText), '/' ∉ text →
    namesFrom word text = kept (word ++ text)
  | [], word, _ => by rw [namesFrom, List.append_nil]
  | c :: text, word, hno => by
    rw [List.mem_cons, not_or] at hno
    rw [namesFrom, if_neg fun hc => hno.1 hc.symm, namesFrom_word text _ hno.2]
    rw [List.append_assoc, List.singleton_append]

theorem LuaName.isAbsolute_eq_false (file : LuaName) : isAbsolute file.text = false := by
  rw [← Bool.not_eq_true, isAbsolute, decide_eq_true_eq]
  exact fun h => file.noSeparator (List.mem_of_mem_head? h)

theorem LuaName.four_lt (file : LuaName) : 4 < file.text.length := by
  obtain ⟨stem, hne, heq⟩ := file.extension
  have := List.length_pos_iff.mpr hne
  rw [heq, List.length_append]
  exact Nat.lt_add_of_pos_left this

theorem LuaName.names_eq (file : LuaName) : names file.text = [file.text] := by
  have hlen := file.four_lt
  rw [names, namesFrom_word _ _ file.noSeparator, List.nil_append, kept, if_neg]
  intro hshort
  rcases hshort with hshort | hshort
  · rw [hshort] at hlen
    exact absurd hlen (by decide)
  · rw [hshort] at hlen
    exact absurd hlen (by decide)

theorem LuaName.start_eq (file : LuaName) : start file.text = .plain := by
  have hlen := file.four_lt
  rw [start, file.isAbsolute_eq_false, if_neg Bool.false_ne_true, if_neg]
  intro hdot
  rcases hdot with hdot | hdot
  · have := congrArg List.length hdot
    rw [List.length_take, List.length_singleton] at this
    omega
  · have hmem : '/' ∈ file.text.take 2 := by
      rw [hdot]
      decide
    exact file.noSeparator (List.mem_of_mem_take hmem)

theorem components_file (base : PathText) (file : LuaName) :
    components (join base file.text) = (start base, names base ++ [file.text]) := by
  rw [components, start_join file.isAbsolute_eq_false file.start_eq,
    names_join file.isAbsolute_eq_false, file.names_eq]

/-- Two files of one name are the same when their directories are. -/
theorem components_file_eq_iff (base base' : PathText) (file : LuaName) :
    components (join base file.text) = components (join base' file.text) ↔
      components base = components base' := by
  rw [components_file, components_file, components, components, Prod.mk.injEq, Prod.mk.injEq,
    List.append_left_inj]

/-! ## Where they agree -/

/-- Nothing is put in front of an absolute path, or when there is nothing to put there. -/
theorem components_absolutePath_iff (current : Option WorkingDir) (path : PathText) :
    components path = components (absolutePath current path) ↔
      isAbsolute path = true ∨ current = none := by
  unfold absolutePath
  split
  · next h => exact ⟨fun _ => .inl h, fun _ => rfl⟩
  · next h =>
    cases current with
    | none => exact ⟨fun _ => .inr rfl, fun _ => rfl⟩
    | some current =>
      refine ⟨fun heq => ?_, fun hor => ?_⟩
      · -- the working directory makes it begin at the root
        have hroot : start (join current.text path) = .root := by
          rw [start_eq_root_iff, isAbsolute_join (Bool.not_eq_true _ ▸ h)]
          exact current.absolute
        have hstart : start path = start (join current.text path) := congrArg Prod.fst heq
        rw [← hstart] at hroot
        exact .inl ((start_eq_root_iff path).mp hroot)
      · rcases hor with hor | hor
        · exact absurd hor h
        · exact nomatch hor

theorem names_tilde (rest : PathText) : names ('~' :: '/' :: rest) = ['~'] :: names rest := rfl

theorem length_names_trimTildes (path : PathText) :
    (names (trimTildes path)).length ≤ (names path).length := by
  fun_induction trimTildes path with
  | case1 rest ih =>
    rw [names_tilde, List.length_cons]
    exact Nat.le_succ_of_le ih
  | case2 => exact Nat.le_refl _

theorem length_names_join_le (base path : PathText) :
    (names (join base path)).length ≤ (names base).length + (names path).length := by
  cases hpath : isAbsolute path with
  | true =>
    rw [join, if_pos hpath]
    exact Nat.le_add_left _ _
  | false => rw [names_join hpath, List.length_append]

theorem length_names_absolutePath (current : Option WorkingDir) (path : PathText) :
    (names path).length ≤ (names (absolutePath current path)).length := by
  unfold absolutePath
  split
  · exact Nat.le_refl _
  · next h =>
    cases current with
    | none => exact Nat.le_refl _
    | some current =>
      rw [names_join (Bool.not_eq_true _ ▸ h), List.length_append]
      exact Nat.le_add_left _ _

/-- A second tilde stays in the watcher's path and not in the other. -/
theorem second_tilde_differs (home rest : PathText) (current : Option WorkingDir) :
    components (join home (trimTildes rest)) ≠
      components (absolutePath current (join home ('~' :: '/' :: rest))) := by
  intro heq
  have hnames := congrArg (fun c : Start × List PathText => c.2.length) heq
  have hloaded := length_names_join_le home (trimTildes rest)
  have htrim := length_names_trimTildes rest
  have hwatched := length_names_absolutePath current (join home ('~' :: '/' :: rest))
  rw [names_join rfl, List.length_append, names_tilde, List.length_cons] at hwatched
  dsimp only [components] at hnames
  omega

/-- The texts for which both ways lead to the same directory. -/
def Agrees (home : Option PathText) (current : Option WorkingDir) (dir : PathText) : Prop :=
  match dir, home with
  | '~' :: '/' :: '~' :: '/' :: _, some _ => False
  | '~' :: '/' :: rest, some home =>
    isAbsolute rest = true ∨ isAbsolute home = true ∨ current = none
  | '~' :: _, some home => components home = components ((current.map WorkingDir.text).getD [])
  | dir, _ => isAbsolute dir = true ∨ current = none

theorem isAbsolute_tilde (rest : PathText) : isAbsolute ('~' :: rest) = false := rfl

theorem components_join_tilde (base rest : PathText) :
    components (join base ('~' :: rest)) = (start base, names base ++ names ('~' :: rest)) := by
  have hplain : start ('~' :: rest) = .plain := by
    rw [start, isAbsolute_tilde, if_neg Bool.false_ne_true, if_neg]
    cases rest <;> simp
  rw [components, start_join (isAbsolute_tilde rest) hplain, names_join (isAbsolute_tilde rest)]

theorem directories_agree_iff (home : Option PathText) (current : Option WorkingDir)
    (dir : PathText) :
    components (expandDirLoaded home dir) =
      components (absolutePath current (expandDirWatched home dir)) ↔ Agrees home current dir := by
  fun_cases Agrees home current dir with
  | case1 rest home =>
    refine ⟨fun heq => ?_, False.elim⟩
    exact second_tilde_differs home rest current heq
  | case2 rest home hone =>
    have htrim : trimTildes ('~' :: '/' :: rest) = rest := by
      rw [trimTildes, trimTildes.eq_2 rest hone]
    show components (join home (trimTildes ('~' :: '/' :: rest))) =
      components (absolutePath current (join home rest)) ↔ _
    rw [htrim, components_absolutePath_iff, ← or_assoc]
    refine or_congr_left ?_
    cases hrest : isAbsolute rest with
    | true => simp [join, hrest]
    | false => rw [isAbsolute_join hrest, or_iff_right Bool.false_ne_true]
  | case3 rest home _ hslash =>
    have htrim : trimTildes ('~' :: rest) = '~' :: rest :=
      trimTildes.eq_2 _ fun tail heq => hslash tail (List.cons.inj heq).2
    have hwatched : expandDirWatched (some home) ('~' :: rest) = '~' :: rest := by
      unfold expandDirWatched
      split
      · next heq _ => exact absurd (List.cons.inj heq).2 (hslash _)
      · rfl
    show components (join home (trimTildes ('~' :: rest))) = _ ↔ _
    -- without a working directory the watcher's path is the text itself, as under an empty one
    have hcurrent : components (absolutePath current ('~' :: rest)) =
        components (join ((current.map WorkingDir.text).getD []) ('~' :: rest)) := by
      cases current <;> rfl
    rw [htrim, hwatched, hcurrent, components_join_tilde, components_join_tilde, Prod.mk.injEq,
      List.append_left_inj, components, components, Prod.mk.injEq]
  | case4 _ _ _ _ htilde =>
    have hloaded : expandDirLoaded home dir = dir := by
      unfold expandDirLoaded
      split
      · exact (htilde _ _ rfl rfl).elim
      · rfl
    have hwatched : expandDirWatched home dir = dir := by
      unfold expandDirWatched
      split
      · exact (htilde _ _ rfl rfl).elim
      · rfl
    rw [hloaded, hwatched]
    exact components_absolutePath_iff current dir

end Paths

end VaporForge.Scripting
