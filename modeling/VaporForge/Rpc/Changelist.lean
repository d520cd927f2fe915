import Mathlib.Algebra.Group.Int.Defs
import Mathlib.Data.Finset.Card
import Mathlib.Data.List.TakeWhile
import VaporForge.Lib.Assoc
import VaporForge.Lib.Utf8

/-!
# Paths of a changelist

A changelist names each directory once: a file carries its name and the index of its directory
in the table `path_prefixes`. Both backends build the table while they emit the files
(`file_info` of `cloud-rpc/src/local.rs`, `steam_file_info` of `adapter.rs`).

> In every reply the indexes lie in the table, the table repeats nothing, and directory and
> name of the files are the paths, in their order, as long as there are at most `2 ^ 32`
> directories (`changelist_paths`).

Indexes are `u32`s. With one directory more the first index comes back
(`too_many_directories`).
-/

namespace VaporForge.Rpc

open Lib

abbrev Path := List Char

/-- `rsplit_once('/')` -/
def rsplitOnce (path : Path) : Option (Path × Path) :=
  if '/' ∈ path then
    some ((path.reverse.dropWhile (· ≠ '/')).tail.reverse,
      (path.reverse.takeWhile (· ≠ '/')).reverse)
  else none

/-- The directory with its slash, and the name. -/
def splitCloudPath (path : Path) : Path × Path :=
  match rsplitOnce path with
  | some (front, leaf) => (path.take (front.length + 1), leaf)
  | none => ([], path)

/-- What a file's metadata become in the reply. -/
structure FileFields where
  shaFile : List UInt8
  timestamp : Nat
  rawFileSize : Nat
  platformsToSync : Nat

structure CloudAppFileInfo where
  fileName : Path
  fields : Option FileFields
  persistState : Int
  platformsToSync : Nat
  pathPrefixIndex : Nat
  machineNameIndex : Nat

/-! ## The fields, by backend -/

def hexNibble (byte : UInt8) : Except String UInt8 :=
  if 0x30 ≤ byte ∧ byte ≤ 0x39 then .ok (byte - 0x30)
  else if 0x61 ≤ byte ∧ byte ≤ 0x66 then .ok (byte - 0x61 + 10)
  else if 0x41 ≤ byte ∧ byte ≤ 0x46 then .ok (byte - 0x41 + 10)
  else .error "invalid hex value"

def hexPairBytes : List UInt8 → Except String (List UInt8)
  | high :: low :: rest => do
    let high ← hexNibble high
    let low ← hexNibble low
    return (high <<< 4 ||| low) :: (← hexPairBytes rest)
  | _ => .ok []

def hexToBytes (hex : String) : Except String (List UInt8) :=
  let bytes := utf8Bytes hex.toList
  if bytes.length % 2 ≠ 0 then .error "odd-length hex value" else hexPairBytes bytes

/-- The metadata of a local `FileEntry` and of a `CumulusFile` that are sent. -/
structure SentMetadata where
  sha1 : String
  mtime : Int
  size : Int
  platformsToSync : Int

def localFields (file : SentMetadata) : Except String FileFields := do
  let shaFile ← hexToBytes file.sha1
  if file.mtime < 0 then .error "local cloud timestamp is negative"
  else if file.size < 0 ∨ 2 ^ 32 ≤ file.size then
    .error "local cloud file exceeds Steam size range"
  else .ok ⟨shaFile, file.mtime.toNat, file.size.toNat, file.platformsToSync.toNat⟩

def clampU32 (value : Int) : Nat := min value.toNat (2 ^ 32 - 1)

def cumulusFields (file : SentMetadata) : Except String FileFields := do
  let shaFile ← hexToBytes file.sha1
  if file.mtime < 0 then .error "negative Cumulus mtime"
  else .ok ⟨shaFile, file.mtime.toNat, clampU32 file.size, clampU32 file.platformsToSync⟩

/-! ## The table -/

structure PathTable where
  prefixes : List Path
  indexes : Assoc Path Nat

/-- The index of a directory, which is added when it is new. -/
def PathTable.index (table : PathTable) (dir : Path) : Nat × PathTable :=
  match table.indexes.lookup dir with
  | some index => (index, table)
  | none =>
    let index := table.prefixes.length % 2 ^ 32
    (index, ⟨table.prefixes ++ [dir], table.indexes.insert dir index⟩)

/-- `file_info` with the backend's fields; a deleted path has none. -/
def fileInfoWith (fields : SentMetadata → Except String FileFields) (path : Path)
    (file : Option SentMetadata) (table : PathTable) :
    Except String (CloudAppFileInfo × PathTable) := do
  let (dir, leaf) := splitCloudPath path
  let (index, table) := table.index dir
  match file with
  | none => return (⟨leaf, none, 2, 2 ^ 32 - 1, index, 0⟩, table)
  | some file =>
    let sent ← fields file
    return (⟨leaf, some sent, 0, sent.platformsToSync, index, 0⟩, table)

def fileInfo := fileInfoWith localFields

def steamFileInfo := fileInfoWith cumulusFields

inductive Backend where
  | localFolder
  | cumulus
  deriving DecidableEq, Repr

def Backend.fileInfo : Backend → Path → Option SentMetadata → PathTable →
    Except String (CloudAppFileInfo × PathTable)
  | .localFolder => Rpc.fileInfo
  | .cumulus => steamFileInfo

structure Reply where
  files : List CloudAppFileInfo
  table : PathTable

def Reply.push (backend : Backend) (reply : Reply) (entry : Path × Option SentMetadata) :
    Except String Reply := do
  let (info, table) ← backend.fileInfo entry.1 entry.2 reply.table
  return ⟨reply.files ++ [info], table⟩

/-- The changed files, then the deleted paths. -/
def entries (changed : List (Path × SentMetadata)) (deleted : List Path) :
    List (Path × Option SentMetadata) :=
  changed.map (fun entry => (entry.1, some entry.2)) ++ deleted.map (·, none)

/-- The loops of the changelist handlers. -/
def changelist (backend : Backend) (changed : List (Path × SentMetadata)) (deleted : List Path) :
    Except String Reply :=
  (entries changed deleted).foldlM (Reply.push backend) ⟨[], [], ∅⟩

/-- Directory and name together, where the index names a directory. -/
def Reply.join (reply : Reply) (info : CloudAppFileInfo) : Option Path :=
  (reply.table.prefixes[info.pathPrefixIndex]?).map (· ++ info.fileName)

/-! ## Splitting -/

theorem splitCloudPath_join (path : Path) :
    (splitCloudPath path).1 ++ (splitCloudPath path).2 = path := by
  rw [splitCloudPath, rsplitOnce]
  split
  · next front leaf h =>
    split at h
    · next hslash =>
      obtain ⟨rfl, rfl⟩ := Prod.mk.inj (Option.some.inj h)
      -- the part up to the slash, read backwards
      have hpos : 0 < (path.reverse.dropWhile (· ≠ '/')).length := by
        apply List.length_pos_of_ne_nil
        intro hnil
        have hnone := List.dropWhile_eq_nil_iff.mp hnil '/' (List.mem_reverse.mpr hslash)
        simp at hnone
      have hparts : (path.reverse.dropWhile (· ≠ '/')).reverse ++
          (path.reverse.takeWhile (· ≠ '/')).reverse = path := by
        rw [← List.reverse_append, List.takeWhile_append_dropWhile, List.reverse_reverse]
      have hlen : (path.reverse.dropWhile (· ≠ '/')).tail.reverse.length + 1 =
          (path.reverse.dropWhile (· ≠ '/')).reverse.length := by
        rw [List.length_reverse, List.length_tail, List.length_reverse]
        omega
      have htake : path.take ((path.reverse.dropWhile (· ≠ '/')).tail.reverse.length + 1) =
          (path.reverse.dropWhile (· ≠ '/')).reverse := by
        rw [hlen]
        nth_rewrite 2 [← hparts]
        exact List.take_left
      rw [htake, hparts]
    · exact nomatch h
  · rfl

/-! ## What the files emitted so far are -/

/-- The file of a path: its name, and the place of its directory in the table. -/
def NamesPath (prefixes : List Path) (path : Path) (info : CloudAppFileInfo) : Prop :=
  info.fileName = (splitCloudPath path).2 ∧ ∃ place : Nat,
    prefixes[place]? = some (splitCloudPath path).1 ∧ info.pathPrefixIndex = place % 2 ^ 32

/-- The two halves of the table agree. -/
structure PathTable.Consistent (table : PathTable) : Prop where
  nodup : table.prefixes.Nodup
  indexed : ∀ dir index, table.indexes.lookup dir = some index →
    ∃ place : Nat, table.prefixes[place]? = some dir ∧ index = place % 2 ^ 32
  known : ∀ dir, table.indexes.lookup dir = none → dir ∉ table.prefixes

/-- Asking for an index gives the place of the directory; earlier places stay. -/
theorem PathTable.Consistent.index {table : PathTable} (h : table.Consistent) (dir : Path) :
    (table.index dir).2.Consistent ∧
    (∃ place : Nat, (table.index dir).2.prefixes[place]? = some dir ∧
      (table.index dir).1 = place % 2 ^ 32) ∧
    (∀ (place : Nat) (d : Path), table.prefixes[place]? = some d →
      (table.index dir).2.prefixes[place]? = some d) ∧
    ∀ d ∈ (table.index dir).2.prefixes, d ∈ table.prefixes ∨ d = dir := by
  rw [PathTable.index]
  cases hlookup : table.indexes.lookup dir with
  | some index => exact ⟨h, h.indexed dir index hlookup, fun _ _ h => h, fun _ h => .inl h⟩
  | none =>
    have hnew := h.known dir hlookup
    have hlast : (table.prefixes ++ [dir])[table.prefixes.length]? = some dir :=
      List.getElem?_concat_length
    have hkeep : ∀ (place : Nat) (d : Path), table.prefixes[place]? = some d →
        (table.prefixes ++ [dir])[place]? = some d := by
      intro place d hd
      rw [List.getElem?_append_left (List.getElem?_eq_some_iff.mp hd).1, hd]
    refine ⟨⟨?_, ?_, ?_⟩, ⟨_, hlast, rfl⟩, hkeep, ?_⟩
    · exact List.nodup_append.mpr ⟨h.nodup, List.nodup_singleton dir, fun a ha b hb heq =>
        hnew (List.mem_singleton.mp hb ▸ heq ▸ ha)⟩
    · intro d index hd
      by_cases hsame : d = dir
      · subst hsame
        rw [AList.lookup_insert] at hd
        exact ⟨_, hlast, (Option.some.inj hd).symm⟩
      · rw [AList.lookup_insert_ne hsame] at hd
        obtain ⟨place, hplace, hindex⟩ := h.indexed d index hd
        exact ⟨place, hkeep place d hplace, hindex⟩
    · intro d hd hmem
      by_cases hsame : d = dir
      · subst hsame
        rw [AList.lookup_insert] at hd
        exact nomatch hd
      · rw [AList.lookup_insert_ne hsame] at hd
        obtain hold | hdir := List.mem_append.mp hmem
        · exact h.known d hd hold
        · exact hsame (List.mem_singleton.mp hdir)
    · intro d hd
      obtain hold | hdir := List.mem_append.mp hd
      · exact .inl hold
      · exact .inr (List.mem_singleton.mp hdir)

/-- The reply after the files of `paths`. -/
structure Emitted (paths : List Path) (reply : Reply) : Prop where
  table : reply.table.Consistent
  files : List.Forall₂ (NamesPath reply.table.prefixes) paths reply.files
  used : ∀ dir ∈ reply.table.prefixes, ∃ path ∈ paths, (splitCloudPath path).1 = dir

theorem emitted_nil : Emitted [] ⟨[], [], ∅⟩ where
  table := ⟨.nil, fun _ _ h => absurd h (by simp), fun _ _ => List.not_mem_nil⟩
  files := .nil
  used := fun _ h => absurd h List.not_mem_nil

variable {reply : Reply} {backend : Backend} {paths : List Path}

variable {reply' : Reply} {entry : Path × Option SentMetadata} {prefixes : List Path}

/-- The file that is pushed, whichever the backend and its fields. -/
theorem push_eq_ok (h : reply.push backend entry = .ok reply') :
    ∃ info, info.fileName = (splitCloudPath entry.1).2 ∧
      info.pathPrefixIndex = (reply.table.index (splitCloudPath entry.1).1).1 ∧
      reply' = ⟨reply.files ++ [info], (reply.table.index (splitCloudPath entry.1).1).2⟩ := by
  obtain ⟨path, file⟩ := entry
  have hwith : ∀ fields, (do
      let (info, table) ← fileInfoWith fields path file reply.table
      return (⟨reply.files ++ [info], table⟩ : Reply)) = .ok reply' →
      ∃ info, info.fileName = (splitCloudPath path).2 ∧
        info.pathPrefixIndex = (reply.table.index (splitCloudPath path).1).1 ∧
        reply' = ⟨reply.files ++ [info], (reply.table.index (splitCloudPath path).1).2⟩ := by
    intro fields h
    cases file with
    | none =>
      obtain rfl := Except.ok.inj h
      exact ⟨_, rfl, rfl, rfl⟩
    | some file =>
      rw [fileInfoWith] at h
      cases hfields : fields file with
      | error text =>
        simp only [hfields] at h
        exact nomatch h
      | ok sent =>
        simp only [hfields] at h
        obtain rfl := Except.ok.inj h
        exact ⟨_, rfl, rfl, rfl⟩
  cases backend with
  | localFolder => exact hwith localFields h
  | cumulus => exact hwith cumulusFields h

theorem Emitted.push (h : Emitted paths reply) (hpush : reply.push backend entry = .ok reply') :
    Emitted (paths ++ [entry.1]) reply' := by
  obtain ⟨info, hname, hindex, rfl⟩ := push_eq_ok hpush
  obtain ⟨htable, ⟨place, hplace, hmod⟩, hkeep, hmem⟩ := h.table.index (splitCloudPath entry.1).1
  refine ⟨htable, ?_, ?_⟩
  · refine List.rel_append (h.files.imp fun path file hfile => ?_)
      (.cons ⟨hname, place, hplace, hindex.trans hmod⟩ .nil)
    obtain ⟨hfileName, place', hplace', hmod'⟩ := hfile
    exact ⟨hfileName, place', hkeep _ _ hplace', hmod'⟩
  · intro dir hdir
    obtain hold | rfl := hmem dir hdir
    · obtain ⟨path, hpath, rfl⟩ := h.used dir hold
      exact ⟨path, List.mem_append_left _ hpath, rfl⟩
    · exact ⟨entry.1, List.mem_append_right _ List.mem_cons_self, rfl⟩

theorem Emitted.run : ∀ (more : List (Path × Option SentMetadata))
    {paths : List Path} {reply reply' : Reply}, Emitted paths reply →
    more.foldlM (Reply.push backend) reply = .ok reply' →
    Emitted (paths ++ more.map Prod.fst) reply'
  | [], paths, reply, reply', h, hrun => by
    obtain rfl := Except.ok.inj hrun
    rw [List.map_nil, List.append_nil]
    exact h
  | entry :: more, paths, reply, reply', h, hrun => by
    rw [List.foldlM_cons] at hrun
    cases hpush : reply.push backend entry with
    | error text =>
      rw [hpush] at hrun
      exact nomatch hrun
    | ok next =>
      rw [hpush] at hrun
      have hrest := Emitted.run more (h.push hpush) hrun
      rwa [List.append_assoc] at hrest

/-! ## Whole replies -/

theorem forall₂_mem {α β : Type} {R : α → β → Prop} {l : List α} {m : List β}
    (h : List.Forall₂ R l m) :
    (∀ a ∈ l, ∃ b ∈ m, R a b) ∧ ∀ b ∈ m, ∃ a ∈ l, R a b := by
  induction h with
  | nil => exact ⟨fun _ h => absurd h List.not_mem_nil, fun _ h => absurd h List.not_mem_nil⟩
  | @cons a b l m hab _ ih =>
    constructor
    · intro x hx
      obtain rfl | hx := List.mem_cons.mp hx
      · exact ⟨b, List.mem_cons_self, hab⟩
      · obtain ⟨y, hy, hxy⟩ := ih.1 x hx
        exact ⟨y, .tail _ hy, hxy⟩
    · intro y hy
      obtain rfl | hy := List.mem_cons.mp hy
      · exact ⟨a, List.mem_cons_self, hab⟩
      · obtain ⟨x, hx, hxy⟩ := ih.2 y hy
        exact ⟨x, .tail _ hx, hxy⟩

/-- A file is its path when the place of its directory is an index. -/
theorem NamesPath.join_iff (hnodup : prefixes.Nodup) {path : Path} {info : CloudAppFileInfo}
    (h : NamesPath prefixes path info) :
    (prefixes[info.pathPrefixIndex]?).map (· ++ info.fileName) = some path ↔
      ∀ place : Nat, prefixes[place]? = some (splitCloudPath path).1 → place < 2 ^ 32 := by
  obtain ⟨hname, place, hplace, hindex⟩ := h
  have hwhole := splitCloudPath_join path
  have hunique : ∀ place' : Nat, prefixes[place']? = some (splitCloudPath path).1 →
      place' = place := by
    intro place' hplace'
    obtain ⟨hlt, _⟩ := List.getElem?_eq_some_iff.mp hplace'
    exact (List.getElem?_inj hlt hnodup).mp (hplace'.trans hplace.symm)
  constructor
  · intro hjoin place' hplace'
    obtain ⟨dir, hdir, heq⟩ := Option.map_eq_some_iff.mp hjoin
    have hsame : dir = (splitCloudPath path).1 := by
      rw [hname] at heq
      exact List.append_cancel_right (heq.trans hwhole.symm)
    subst hsame
    rw [hunique place' hplace', ← hunique _ hdir, hindex]
    exact Nat.mod_lt _ (Nat.two_pow_pos 32)
  · intro hsmall
    rw [hindex, Nat.mod_eq_of_lt (hsmall place hplace), hplace, Option.map_some, hname, hwhole]

theorem map_join_iff (hnodup : prefixes.Nodup) {files : List CloudAppFileInfo}
    (h : List.Forall₂ (NamesPath prefixes) paths files) :
    files.map (fun info => (prefixes[info.pathPrefixIndex]?).map (· ++ info.fileName)) =
        paths.map some ↔
      ∀ path ∈ paths, ∀ place : Nat, prefixes[place]? = some (splitCloudPath path).1 →
        place < 2 ^ 32 := by
  induction h with
  | nil => simp
  | cons hfile _ ih =>
    rw [List.map_cons, List.map_cons, List.cons.injEq, hfile.join_iff hnodup, ih,
      List.forall_mem_cons]

def directories (paths : List Path) : Finset Path :=
  (paths.map fun path => (splitCloudPath path).1).toFinset

theorem Emitted.length_prefixes (h : Emitted paths reply) :
    reply.table.prefixes.length = (directories paths).card := by
  rw [← List.toFinset_card_of_nodup h.table.nodup]
  congr 1
  ext dir
  simp only [directories, List.mem_toFinset, List.mem_map]
  constructor
  · exact h.used dir
  · intro hdir
    obtain ⟨path, hpath, rfl⟩ := hdir
    obtain ⟨_, _, _, place, hplace, _⟩ := (forall₂_mem h.files).1 path hpath
    exact List.mem_of_getElem? hplace

/-- The paths come back when every place is an index. -/
theorem Emitted.join_iff (h : Emitted paths reply) :
    reply.files.map reply.join = paths.map some ↔ (directories paths).card ≤ 2 ^ 32 := by
  rw [← h.length_prefixes]
  refine (map_join_iff h.table.nodup h.files).trans ⟨fun hsmall => ?_, fun hle => ?_⟩
  · by_contra hgt
    have hplace := List.getElem?_eq_getElem (Nat.lt_of_not_le hgt)
    obtain ⟨path, hpath, hdir⟩ := h.used _ (List.getElem_mem (Nat.lt_of_not_le hgt))
    exact absurd (hsmall path hpath (2 ^ 32) (hplace.trans (congrArg some hdir.symm)))
      (Nat.lt_irrefl _)
  · intro path _ place hplace
    exact (List.getElem?_eq_some_iff.mp hplace).1.trans_le hle

theorem emitted_changelist {changed : List (Path × SentMetadata)} {deleted : List Path}
    (h : changelist backend changed deleted = .ok reply) :
    Emitted ((entries changed deleted).map Prod.fst) reply :=
  emitted_nil.run _ h

/-- What a changelist says about paths, on either backend. -/
theorem changelist_paths (backend : Backend) (changed : List (Path × SentMetadata))
    (deleted : List Path) (reply : Reply) (h : changelist backend changed deleted = .ok reply) :
    (∀ info ∈ reply.files, info.pathPrefixIndex < reply.table.prefixes.length) ∧
      reply.table.prefixes.Nodup ∧
      (reply.files.map reply.join = ((entries changed deleted).map Prod.fst).map some ↔
        (directories ((entries changed deleted).map Prod.fst)).card ≤ 2 ^ 32) := by
  have hemitted := emitted_changelist h
  refine ⟨fun info hinfo => ?_, hemitted.table.nodup, hemitted.join_iff⟩
  obtain ⟨path, _, _, place, hplace, hindex⟩ := (forall₂_mem hemitted.files).2 info hinfo
  rw [hindex]
  exact (Nat.mod_le _ _).trans_lt (List.getElem?_eq_some_iff.mp hplace).1

/-- Two files of one directory. -/
theorem changelist_of_two_files : ∃ reply,
    changelist .cumulus [] ["a/b".toList, "a/c".toList] = .ok reply ∧
      reply.files.map reply.join = [some "a/b".toList, some "a/c".toList] :=
  ⟨_, rfl, (changelist_paths .cumulus [] ["a/b".toList, "a/c".toList] _ rfl).2.2.mpr (by decide)⟩

/-! ## More directories than indexes -/

theorem exists_changelist_deleted (backend : Backend) (deleted : List Path) :
    ∃ reply, changelist backend [] deleted = .ok reply := by
  rw [changelist, entries, List.map_nil, List.nil_append]
  generalize (⟨[], [], ∅⟩ : Reply) = reply
  induction deleted generalizing reply with
  | nil => exact ⟨reply, rfl⟩
  | cons path deleted ih =>
    obtain ⟨next, hnext⟩ : ∃ next, reply.push backend (path, none) = .ok next := by
      cases backend <;> exact ⟨_, rfl⟩
    rw [List.map_cons, List.foldlM_cons, hnext]
    exact ih next

theorem splitCloudPath_slash (front : Path) : splitCloudPath (front ++ ['/']) =
    (front ++ ['/'], []) := by
  simp [splitCloudPath, rsplitOnce]

/-- `n` directories, each deleted. -/
def deletedDirectories (n : Nat) : List Path :=
  (List.range n).map fun k => List.replicate k 'a' ++ ['/']

theorem card_deletedDirectories (n : Nat) : (directories (deletedDirectories n)).card = n := by
  have hinj : Function.Injective fun k => List.replicate k 'a' ++ ['/'] := by
    intro k k' heq
    simpa using congrArg List.length heq
  have hdirs : (deletedDirectories n).map (fun path => (splitCloudPath path).1) =
      deletedDirectories n := by
    simp only [deletedDirectories, List.map_map, Function.comp_def, splitCloudPath_slash]
  have hnodup : (deletedDirectories n).Nodup := List.nodup_range.map hinj
  rw [directories, hdirs, List.toFinset_card_of_nodup hnodup, deletedDirectories,
    List.length_map, List.length_range]

theorem path_lost {n : Nat} (hn : 2 ^ 32 < n) : ∃ reply,
    changelist .localFolder [] (deletedDirectories n) = .ok reply ∧
      reply.files.map reply.join ≠ (deletedDirectories n).map some := by
  obtain ⟨reply, hreply⟩ := exists_changelist_deleted .localFolder (deletedDirectories n)
  have hpaths : (entries [] (deletedDirectories n)).map Prod.fst = deletedDirectories n := by
    simp only [entries, List.map_nil, List.nil_append, List.map_map, Function.comp_def,
      List.map_id']
  have hemitted := emitted_changelist hreply
  rw [hpaths] at hemitted
  refine ⟨reply, hreply, fun hjoin => ?_⟩
  have hcard := hemitted.join_iff.mp hjoin
  rw [card_deletedDirectories] at hcard
  exact absurd hcard (Nat.not_le_of_lt hn)

/-- One directory more than there are indexes, and a path is lost. -/
theorem too_many_directories : ∃ (deleted : List Path) (reply : Reply),
    changelist .localFolder [] deleted = .ok reply ∧
      reply.files.map reply.join ≠ deleted.map some :=
  ⟨_, path_lost (Nat.lt_succ_self (2 ^ 32))⟩

end VaporForge.Rpc
