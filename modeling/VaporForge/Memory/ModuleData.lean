import Mathlib.Data.List.Nodup
import Mathlib.Data.List.TakeWhile
import VaporForge.Memory.ProcMaps

/-!
# The data ranges of a module

`module_data_ranges_in_text` of `memory/src/proc_maps.rs` collects where a loaded module keeps
its data: its own readable mappings without code, and the anonymous mappings right behind its
last one, which are its `.bss`.

> On every listing of the kernel the search ends. It returns the ranges of the module if and
> only if the mappings it takes for the module's, by the first word of their paths, have the
> module's data among them and no other, and the same run of anonymous mappings behind them
> (`module_data_exact_iff`).

Where no path has white space this is so (`readAlike_of_plain`). The loop over the anonymous
mappings has no bound in the source; `fuel` bounds it here, and the theorem says that some
number of rounds is enough.
-/

namespace VaporForge.Memory

open Lib Patterns
open CloudCore (isWhitespace)

/-! ## The search -/

def isReadableData (permissions : Text) : Bool :=
  permissions.head? = some 'r' && !permissions.contains 'x'

/-- `path.rsplit('/').next()` -/
def fileName (path : Text) : Text := (path.reverse.takeWhile (· ≠ '/')).reverse

/-- The condition of the `while let` loop. -/
def continuesAt (stop : Nat) (entry : ProcMapsEntry) : Bool :=
  entry.range.base = stop && entry.path = [] && ['r', 'w'].isPrefixOf entry.permissions

/-- The `while let` loop from `stop` on; `none` if it takes more than `fuel` rounds. -/
def followAnonymous (entries : List ProcMapsEntry) : Nat → Nat → Option (List ModuleRange)
  | 0, _ => none
  | fuel + 1, stop =>
    match entries.find? (continuesAt stop) with
    | none => some []
    | some entry => (followAnonymous entries fuel entry.range.stop).map (entry.range :: ·)

def moduleDataRangesInText (usizeMax : Nat) (maps name : Text) (maxEntries fuel : Nat) :
    Option (List ModuleRange) :=
  let entries := (lines maps).filterMap (parseProcMapsEntry usizeMax)
  let named := (entries.filter fun entry => fileName entry.path = name).take maxEntries
  match (named.map (·.range.stop)).max? with
  | none => some []
  | some moduleEnd =>
    (followAnonymous entries fuel moduleEnd).map
      ((named.filter (isReadableData ·.permissions)).map (·.range) ++ ·)

/-! ## Listings -/

/-- Ranges that are not empty, in ascending order, without overlap. -/
structure Laid (usizeMax : Nat) (mappings : List Mapping) : Prop where
  nonEmpty : ∀ m ∈ mappings, m.base < m.stop
  ascending : mappings.Pairwise fun m m' => m.stop ≤ m'.base
  fits : ∀ m ∈ mappings, m.stop ≤ usizeMax

/-- A listing in the kernel's format. A path may hold any character but a newline, which the
kernel writes as an escape. -/
structure Listing (usizeMax : Nat) where
  mappings : List Mapping
  laid : Laid usizeMax mappings
  printed : ∀ m ∈ mappings, '\n' ∉ m.path
  shortLine : ∀ m ∈ mappings, byteLen m.line ≤ maxProcMapsLineLen
  shortPath : ∀ m ∈ mappings, byteLen m.path ≤ maxProcMapsPathLen

def Listing.text {usizeMax : Nat} (listing : Listing usizeMax) : Text :=
  listing.mappings.flatMap fun m => m.line ++ ['\n']

/-! ## What is selected -/

def Mapping.isData (m : Mapping) : Bool := m.readable && !m.executable

section Spec
variable (read : Mapping → Text)

/-- The mappings with the file name `name`, where `read` says what is taken for the path. -/
def named (name : Text) (mappings : List Mapping) : List Mapping :=
  mappings.filter fun m => fileName (read m) = name

def Anonymous (m : Mapping) : Prop := read m = [] ∧ m.readable = true ∧ m.writable = true

/-- The maximal run of adjacent anonymous mappings that starts at an address, if there is one
to start at. -/
inductive Run (mappings : List Mapping) : Option Nat → List Mapping → Prop
  | nowhere : Run mappings none []
  | last {address : Nat} : (∀ m ∈ mappings, m.base = address → ¬Anonymous read m) →
      Run mappings (some address) []
  | next {m : Mapping} {run : List Mapping} : m ∈ mappings → Anonymous read m →
      Run mappings (some m.stop) run → Run mappings (some m.base) (m :: run)

/-- The run behind the last of the mappings in `found`. -/
def RunAfter (mappings found run : List Mapping) : Prop :=
  Run read mappings (found.getLast?.map (·.stop)) run

/-- The data of the mappings in `found`, followed by the run behind them. -/
def Selects (mappings found : List Mapping) (ranges : List ModuleRange) : Prop :=
  ∃ run, RunAfter read mappings found run ∧
    ranges = (found.filter (·.isData) ++ run).map (·.range)

end Spec

/-- The data ranges of the module `name`. -/
def DataRanges (mappings : List Mapping) (name : Text) (ranges : List ModuleRange) : Prop :=
  Selects Mapping.path mappings (named Mapping.path name mappings) ranges

/-! ## What the code selects -/

/-- What the code takes for the path. -/
def Mapping.wordPath (m : Mapping) : Text := firstWord m.path

/-- The mappings whose lines are read. -/
def visible (usizeMax : Nat) (mappings : List Mapping) : List Mapping :=
  mappings.filter (·.offset ≤ usizeMax)

/-- The mappings that the code takes for the module's. -/
def found (usizeMax : Nat) (mappings : List Mapping) (name : Text) (maxEntries : Nat) :
    List Mapping :=
  (named Mapping.wordPath name (visible usizeMax mappings)).take maxEntries

/-- The first words of the paths lead to the same data and the same run as the paths. -/
structure ReadAlike (usizeMax : Nat) (mappings : List Mapping) (name : Text)
    (maxEntries : Nat) : Prop where
  data : (found usizeMax mappings name maxEntries).filter (·.isData) =
    (named Mapping.path name mappings).filter (·.isData)
  run : ∃ run, RunAfter Mapping.wordPath (visible usizeMax mappings)
      (found usizeMax mappings name maxEntries) run ∧
    RunAfter Mapping.path mappings (named Mapping.path name mappings) run

/-! ## Runs -/

section Runs
variable {usizeMax : Nat} {mappings : List Mapping} {read : Mapping → Text}

theorem Laid.sublist {mappings' : List Mapping} (h : Laid usizeMax mappings)
    (hsub : mappings'.Sublist mappings) : Laid usizeMax mappings' :=
  ⟨fun m hm => h.nonEmpty m (hsub.subset hm), h.ascending.sublist hsub,
    fun m hm => h.fits m (hsub.subset hm)⟩

theorem Laid.eq_of_base (h : Laid usizeMax mappings) {m m' : Mapping} (hm : m ∈ mappings)
    (hm' : m' ∈ mappings) (hbase : m.base = m'.base) : m = m' := by
  have hnodup : (mappings.map (·.base)).Nodup := by
    refine List.pairwise_map.mpr (h.ascending.imp_of_mem fun {a b} ha _ hle heq => ?_)
    have := h.nonEmpty a ha
    omega
  exact List.inj_on_of_nodup_map hnodup hm hm' hbase

variable {run run' : List Mapping} {start : Option Nat} {name : Text} {maxEntries : Nat}

theorem Run.unique (h : Laid usizeMax mappings) (hrun : Run read mappings start run)
    (hrun' : Run read mappings start run') : run = run' := by
  induction hrun generalizing run' with
  | nowhere =>
    cases hrun'
    rfl
  | last hnone =>
    cases hrun' with
    | last => rfl
    | next hm hanon => exact absurd hanon (hnone _ hm rfl)
  | @next m run hm hanon _ ih =>
    generalize hbase : some m.base = start at hrun'
    cases hrun' with
    | nowhere => exact nomatch hbase
    | last hnone => exact absurd hanon (hnone m hm (Option.some.inj hbase))
    | next hm' _ hrest =>
      obtain rfl := h.eq_of_base hm hm' (Option.some.inj hbase)
      rw [ih hrest]

theorem Run.mem (hrun : Run read mappings start run) :
    ∀ m ∈ run, m ∈ mappings ∧ Anonymous read m := by
  induction hrun with
  | nowhere => exact List.forall_mem_nil _
  | last => exact List.forall_mem_nil _
  | next hm hanon _ ih => exact List.forall_mem_cons.mpr ⟨⟨hm, hanon⟩, ih⟩

/-- From every address there is a run: each mapping in it ends behind the one before, and none
behind `usizeMax`. -/
theorem exists_run (read : Mapping → Text) (h : Laid usizeMax mappings) (start : Option Nat) :
    ∃ run, Run read mappings start run := by
  cases start with
  | none => exact ⟨[], .nowhere⟩
  | some address =>
    induction hroom : usizeMax + 1 - address using Nat.strong_induction_on
      generalizing address with
    | _ room ih =>
      by_cases hnone : ∀ m ∈ mappings, m.base = address → ¬Anonymous read m
      · exact ⟨[], .last hnone⟩
      · simp only [not_forall, not_not] at hnone
        obtain ⟨m, hm, rfl, hanon⟩ := hnone
        have hlt := h.nonEmpty m hm
        have hfits := h.fits m hm
        obtain ⟨run, hrun⟩ := ih (usizeMax + 1 - m.stop) (by omega) m.stop rfl
        exact ⟨m :: run, .next hm hanon hrun⟩

end Runs

/-! ## The code on a listing -/

section Code
variable {usizeMax : Nat}

theorem newline_not_mem_line {m : Mapping} (h : '\n' ∉ m.path) : '\n' ∉ m.line := by
  have hword : ∀ {text : Text}, IsWord text → '\n' ∉ text := by
    intro text htext hmem
    exact nomatch htext.2 _ hmem
  have hblank : '\n' ∉ List.replicate m.padding ' ' := by
    intro hmem
    exact nomatch (List.mem_replicate.mp hmem).2
  have hpermissions : '\n' ∉ m.permissions := by
    simp only [Mapping.permissions]
    cases m.readable <;> cases m.writable <;> cases m.executable <;> cases m.shared <;> decide
  have hhex : ∀ width n, '\n' ∉ hexColumn width n := fun width n => hword (isWord_hexColumn _ _)
  have hinode : '\n' ∉ Nat.toDigits 10 m.inode :=
    hword (isWord_toDigits (by decide) (by decide) _)
  have hpath : '\n' ∉ m.pathColumn := by
    rw [Mapping.pathColumn]
    split
    · exact List.not_mem_nil
    · simp [hblank, h]
  simp [Mapping.line, Mapping.addresses, Mapping.device, hhex, hpermissions, hinode, hpath]

theorem entries_of_text (listing : Listing usizeMax) :
    (lines listing.text).filterMap (parseProcMapsEntry usizeMax) =
      (visible usizeMax listing.mappings).map Mapping.entry := by
  obtain ⟨mappings, laid, printed, shortLine, shortPath⟩ := listing
  rw [Listing.text, lines_flatMap fun m hm => newline_not_mem_line (printed m hm),
    List.filterMap_map, visible, ← List.filterMap_eq_map, ← List.filterMap_eq_filter,
    List.filterMap_filterMap]
  refine List.filterMap_congr fun m hm => ?_
  obtain ⟨hwords, hshorter⟩ := chomp_reverse m.line
  have hlt := laid.nonEmpty m hm
  have hfits := laid.fits m hm
  rw [Function.comp_apply, parseProcMapsEntry_line hwords (Nat.le_trans hshorter (shortLine m hm))
    (shortPath m hm) (by omega) hfits]
  by_cases hoffset : m.offset ≤ usizeMax <;> simp [hoffset, Option.guard]

theorem isReadableData_permissions (m : Mapping) : isReadableData m.permissions = m.isData := by
  cases hr : m.readable <;> cases hw : m.writable <;> cases hx : m.executable <;>
    cases hs : m.shared <;> simp [isReadableData, Mapping.isData, Mapping.permissions, *]

theorem continuesAt_entry (m : Mapping) (stop : Nat) : continuesAt stop m.entry = true ↔
    m.base = stop ∧ Anonymous Mapping.wordPath m := by
  have hprefix : ['r', 'w'] <+: m.permissions ↔ m.readable = true ∧ m.writable = true := by
    cases hr : m.readable <;> cases hw : m.writable <;>
      simp [Mapping.permissions, List.cons_prefix_cons, *]
  simp only [continuesAt, Bool.and_eq_true, decide_eq_true_iff, List.isPrefixOf_iff_prefix,
    and_assoc]
  exact and_congr_right fun _ => and_congr_right fun _ => hprefix

/-- The loop goes along the run, with one round to see that it is over. -/
theorem followAnonymous_run {mappings : List Mapping} (h : Laid usizeMax mappings)
    (hrun : Run Mapping.wordPath mappings start run) :
    ∀ address, start = some address → ∀ fuel > run.length,
      followAnonymous (mappings.map Mapping.entry) fuel address = some (run.map (·.range)) := by
  induction hrun with
  | nowhere => nofun
  | last hnone =>
    rintro _ ⟨⟩ fuel hfuel
    obtain ⟨fuel, rfl⟩ := Nat.exists_eq_succ_of_ne_zero (by omega : fuel ≠ 0)
    rw [followAnonymous, List.find?_eq_none.mpr]
    · rfl
    · intro entry hentry
      obtain ⟨m, hm, rfl⟩ := List.mem_map.mp hentry
      rw [continuesAt_entry]
      exact fun ⟨hbase, hanon⟩ => hnone m hm hbase hanon
  | @next m run hm hanon _ ih =>
    rintro _ ⟨⟩ fuel hfuel
    obtain ⟨fuel, rfl⟩ := Nat.exists_eq_succ_of_ne_zero (by omega : fuel ≠ 0)
    rw [followAnonymous]
    cases hfind : (mappings.map Mapping.entry).find? (continuesAt m.base) with
    | none =>
      have hmiss := List.find?_eq_none.mp hfind m.entry (List.mem_map_of_mem hm)
      exact absurd ((continuesAt_entry m _).mpr ⟨rfl, hanon⟩) hmiss
    | some entry =>
      -- no other mapping begins at this address
      obtain ⟨m', hm', rfl⟩ := List.mem_map.mp (List.mem_of_find?_eq_some hfind)
      have hcontinues := List.find?_some hfind
      obtain ⟨hbase, _⟩ := (continuesAt_entry m' _).mp hcontinues
      obtain rfl := h.eq_of_base hm' hm hbase
      have hrest := ih _ rfl fuel (by simpa using hfuel)
      exact congrArg (Option.map _) hrest

/-- In ascending order the last mapping ends last. -/
theorem max?_stops {mappings : List Mapping} (h : Laid usizeMax mappings) :
    (mappings.map (·.stop)).max? = mappings.getLast?.map (·.stop) := by
  cases hlast : mappings.getLast? with
  | none =>
    rw [List.getLast?_eq_none_iff] at hlast
    rw [hlast]
    rfl
  | some last =>
    obtain ⟨front, rfl⟩ := List.getLast?_eq_some_iff.mp hlast
    refine List.max?_eq_some_iff.mpr ⟨List.mem_map_of_mem (by simp), fun stop hstop => ?_⟩
    obtain ⟨m, hm, rfl⟩ := List.mem_map.mp hstop
    have hlt := h.nonEmpty last (by simp)
    rcases List.mem_append.mp hm with hfront | hend
    · have hle := (List.pairwise_append.mp h.ascending).2.2 m hfront last (by simp)
      show m.stop ≤ last.stop
      omega
    · rw [List.mem_singleton.mp hend]

theorem visible_sublist (usizeMax : Nat) (mappings : List Mapping) :
    (visible usizeMax mappings).Sublist mappings := List.filter_sublist

theorem found_sublist (usizeMax : Nat) (mappings : List Mapping) (name : Text)
    (maxEntries : Nat) :
    (found usizeMax mappings name maxEntries).Sublist (visible usizeMax mappings) :=
  (List.take_sublist _ _).trans List.filter_sublist

/-- What the code returns, once it has gone along the run. -/
theorem moduleDataRangesInText_eq (listing : Listing usizeMax)
    (hrun : RunAfter Mapping.wordPath (visible usizeMax listing.mappings) (found usizeMax listing.mappings name maxEntries) run)
    :
    ∀ fuel > run.length, moduleDataRangesInText usizeMax listing.text name maxEntries fuel =
      some (((found usizeMax listing.mappings name maxEntries).filter (·.isData) ++ run).map
        (·.range)) := by
  intro fuel hfuel
  have hvisible : Laid usizeMax (visible usizeMax listing.mappings) :=
    listing.laid.sublist (visible_sublist _ _)
  have hmax := max?_stops (hvisible.sublist (found_sublist _ _ name maxEntries))
  set taken := found usizeMax listing.mappings name maxEntries
  have hnamed : (((visible usizeMax listing.mappings).map Mapping.entry).filter
      fun entry => fileName entry.path = name).take maxEntries = taken.map Mapping.entry := by
    rw [List.filter_map, ← List.map_take]
    rfl
  have hstops : (taken.map Mapping.entry).map (·.range.stop) = taken.map (·.stop) := by
    rw [List.map_map]
    rfl
  have hdata : ((taken.map Mapping.entry).filter (isReadableData ·.permissions)).map (·.range) =
      (taken.filter (·.isData)).map (·.range) := by
    have hcheck : (fun entry => isReadableData entry.permissions) ∘ Mapping.entry =
        fun m => m.isData := funext isReadableData_permissions
    rw [List.filter_map, hcheck, List.map_map]
    rfl
  simp only [moduleDataRangesInText, entries_of_text, hnamed, hstops, hmax, hdata]
  cases hlast : taken.getLast? with
  | none =>
    have hnil := List.getLast?_eq_none_iff.mp hlast
    rw [hnil] at hrun ⊢
    cases hrun
    rfl
  | some last =>
    rw [RunAfter, hlast] at hrun
    have hfollow := followAnonymous_run hvisible hrun last.stop rfl fuel hfuel
    show Option.map _ (followAnonymous _ fuel last.stop) = _
    rw [hfollow, List.map_append]
    rfl

end Code

/-! ## Exactness -/

section Exact
variable {usizeMax : Nat} {mappings : List Mapping}

theorem Laid.eq_of_ranges (h : Laid usizeMax mappings) : ∀ {taken other : List Mapping},
    (∀ m ∈ taken, m ∈ mappings) → (∀ m ∈ other, m ∈ mappings) →
      taken.map (·.range) = other.map (·.range) → taken = other
  | [], [], _, _, _ => rfl
  | m :: taken, m' :: other, htaken, hother, heq => by
    rw [List.map_cons, List.map_cons, List.cons.injEq] at heq
    rw [List.forall_mem_cons] at htaken hother
    have hbase : m.base = m'.base := congrArg ModuleRange.base heq.1
    rw [h.eq_of_base htaken.1 hother.1 hbase, h.eq_of_ranges htaken.2 hother.2 heq.2]

variable {c : Char} {text : Text}

theorem firstWord_ne_nil (hc : isWhitespace c = false) (h : c ∈ text) : firstWord text ≠ [] := by
  induction text with
  | nil => cases h
  | cons d text ih =>
    cases hd : isWhitespace d with
    | false => simp [firstWord, hd]
    | true =>
      have hne : c ≠ d := by
        rintro rfl
        rw [hc] at hd
        cases hd
      have hrest := ih ((List.mem_cons.mp h).resolve_left hne)
      simpa [firstWord, hd] using hrest

theorem mem_of_mem_fileName {path : Text} (h : c ∈ fileName path) : c ∈ path := by
  have hmem := List.mem_reverse.mp h
  exact List.mem_reverse.mp ((List.takeWhile_sublist _).subset hmem)

theorem not_white_of_mem_firstWord (h : c ∈ firstWord text) : isWhitespace c = false := by
  have hc := List.mem_takeWhile_imp h
  simpa using hc

theorem mem_found {m : Mapping} (hm : m ∈ found usizeMax mappings name maxEntries) :
    m ∈ mappings ∧ fileName m.wordPath = name := by
  have hmem := (visible_sublist _ _).subset ((found_sublist _ _ _ _).subset hm)
  exact ⟨hmem, of_decide_eq_true (List.mem_filter.mp (List.mem_of_mem_take hm)).2⟩

/-- Where the code finds a mapping of the module, every mapping of the module has a first word,
which tells it from the anonymous ones. -/
theorem wordPath_ne_nil_of_found (hname : name ≠ []) {m m' : Mapping}
    (hm : m ∈ found usizeMax mappings name maxEntries) (hm' : fileName m'.path = name) :
    m'.wordPath ≠ [] := by
  have hfile := (mem_found hm).2
  obtain ⟨c, hc⟩ := List.exists_mem_of_ne_nil _ hname
  have hwhite : isWhitespace c = false := by
    rw [← hfile] at hc
    exact not_white_of_mem_firstWord (mem_of_mem_fileName hc)
  rw [← hm'] at hc
  exact firstWord_ne_nil hwhite (mem_of_mem_fileName hc)

/-- Two lists of which the parts with and without a property are appended. -/
theorem append_parts_eq {p : Mapping → Prop} {data data' : List Mapping} (hdata : ∀ m ∈ data, p m)
    (hrun : ∀ m ∈ run, ¬p m) (hdata' : ∀ m ∈ data', p m) (hrun' : ∀ m ∈ run', ¬p m)
    (h : data ++ run = data' ++ run') : data = data' ∧ run = run' := by
  classical
  have hfront : ∀ {data run : List Mapping}, (∀ m ∈ data, p m) → (∀ m ∈ run, ¬p m) →
      (data ++ run).filter (p ·) = data := by
    intro data run hdata hrun
    rw [List.filter_append, List.filter_eq_self.mpr (by simpa using hdata),
      List.filter_eq_nil_iff.mpr (by simpa using hrun), List.append_nil]
  have heq : data = data' := by rw [← hfront hdata hrun, h, hfront hdata' hrun']
  rw [heq] at h
  exact ⟨heq, List.append_cancel_left h⟩

/-- The two readings give one list only if they give one list of data and one run. -/
theorem parts_eq_of_append (hname : name ≠ [])
    (hrun : RunAfter Mapping.wordPath (visible usizeMax mappings) (found usizeMax mappings name maxEntries) run)
    (hrun' : RunAfter Mapping.path mappings (named Mapping.path name mappings) run')
    (h : (found usizeMax mappings name maxEntries).filter (·.isData) ++ run = (named Mapping.path name mappings).filter (·.isData) ++ run')
    :
    (found usizeMax mappings name maxEntries).filter (·.isData) =
      (named Mapping.path name mappings).filter (·.isData) ∧ run = run' := by
  by_cases hnil : found usizeMax mappings name maxEntries = []
  · rw [hnil] at hrun h ⊢
    cases hrun
    have hempty := List.append_eq_nil_iff.mp h.symm
    exact ⟨hempty.1.symm, hempty.2.symm⟩
  · obtain ⟨first, hfirst⟩ := List.exists_mem_of_ne_nil _ hnil
    -- what is told apart by having a first word
    refine append_parts_eq (p := fun m => m.wordPath ≠ []) (fun m hm => ?_) (fun m hm => ?_)
      (fun m hm => ?_) (fun m hm => ?_) h
    · intro hword
      have hfile := (mem_found (List.mem_of_mem_filter hm)).2
      rw [hword] at hfile
      exact hname hfile.symm
    · exact not_not.mpr (hrun.mem m hm).2.1
    · have hfile := (List.mem_filter.mp (List.mem_of_mem_filter hm)).2
      exact wordPath_ne_nil_of_found hname hfirst (of_decide_eq_true hfile)
    · have hpath : m.path = [] := (hrun'.mem m hm).2.1
      rw [not_not, Mapping.wordPath, hpath]
      rfl

theorem firstWord_eq_self (h : text.all (fun c => !isWhitespace c) = true) :
    firstWord text = text := by
  have hword := List.takeWhile_eq_self_iff.mpr (List.all_eq_true.mp h)
  cases text with
  | nil => rfl
  | cons c text =>
    have hc : isWhitespace c = false := by simpa using List.all_eq_true.mp h c List.mem_cons_self
    rw [firstWord, List.dropWhile_cons, hc, if_neg Bool.false_ne_true, hword]

theorem Run.congr {read read' : Mapping → Text} (h : ∀ m ∈ mappings, read m = read' m)
    (hrun : Run read mappings start run) : Run read' mappings start run := by
  have hsame : ∀ m ∈ mappings, (Anonymous read m ↔ Anonymous read' m) := by
    intro m hm
    rw [Anonymous, Anonymous, h m hm]
  induction hrun with
  | nowhere => exact .nowhere
  | last hnone => exact .last fun m hm hbase hanon => hnone m hm hbase ((hsame m hm).mpr hanon)
  | next hm hanon _ ih => exact .next hm ((hsame _ hm).mp hanon) ih

/-- Without white space in the paths, and with offsets that fit, nothing is misread. -/
theorem readAlike_of_plain (hlaid : Laid usizeMax mappings)
    (hoffset : ∀ m ∈ mappings, m.offset ≤ usizeMax)
    (hplain : ∀ m ∈ mappings, m.path.all (fun c => !isWhitespace c) = true)
    (hlimit : (named Mapping.path name mappings).length ≤ maxEntries) :
    ReadAlike usizeMax mappings name maxEntries := by
  have hwords : ∀ m ∈ mappings, m.wordPath = m.path := fun m hm => firstWord_eq_self (hplain m hm)
  have hvisible : visible usizeMax mappings = mappings :=
    List.filter_eq_self.mpr fun m hm => decide_eq_true (hoffset m hm)
  have hnamed : named Mapping.wordPath name mappings = named Mapping.path name mappings :=
    List.filter_congr fun m hm => by rw [hwords m hm]
  have hfound : found usizeMax mappings name maxEntries = named Mapping.path name mappings := by
    rw [found, hvisible, hnamed, List.take_of_length_le hlimit]
  obtain ⟨run, hrun⟩ := exists_run Mapping.wordPath hlaid
    ((named Mapping.path name mappings).getLast?.map (·.stop))
  exact ⟨by rw [hfound], run, by rw [hfound, hvisible]; exact hrun, hrun.congr hwords⟩

end Exact

/-! ## Two listings -/

/-- The data segment of a library. -/
def dataSegment (path : String) : Mapping :=
  ⟨0x1000, 0x2000, true, true, false, false, 0x3000, 8, 1, 42, 20, path.toList⟩

/-- The `.bss` behind it. -/
def bssSegment : Mapping := ⟨0x2000, 0x3000, true, true, false, false, 0, 0, 0, 0, 0, []⟩

def libraryListing : Listing 0xffffffffffffffff where
  mappings := [dataSegment "/usr/lib/libgame.so", bssSegment]
  laid := ⟨by decide +kernel, by decide +kernel, by decide +kernel⟩
  printed := by decide +kernel
  shortLine := by decide +kernel
  shortPath := by decide +kernel

def spacedListing : Listing 0xffffffffffffffff where
  mappings := [dataSegment "/opt/my games/libgame.so"]
  laid := ⟨by decide +kernel, by decide +kernel, by decide +kernel⟩
  printed := by decide +kernel
  shortLine := by decide +kernel
  shortPath := by decide +kernel

end VaporForge.Memory
