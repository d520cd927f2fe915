import VaporForge.Lib.Interleave

/-!
# The cache of online pattern hotfixes

`features/src/online_patterns.rs` keeps three files for a source and a target: the candidate
that was downloaded last, and for each of the two hooked modules the hotfix that is active
there. A download replaces the candidate, a promotion validates the candidate against the live
module and makes it active, and a discard removes all three. Every file has a lock file of its
own; a promotion holds two of them, a discard one after the other.

The model has one step for taking a lock, for reading and deciding, for the `rename` that
publishes and for releasing a lock. Any call of the file system may fail; the operation then
releases what it holds. Whether a content is a hotfix, and the revision that it declares, is a
parameter. What stands below `locks` are records that nothing reads.
-/

namespace VaporForge.Features

open Lib

/-! ## States -/

/-- `MODULES`. -/
inductive PatternModule where
  | steamclient
  | steamui
  deriving DecidableEq, Repr

inductive CacheFile where
  | candidate
  | active (mod : PatternModule)
  deriving DecidableEq, Repr

/-- In the order in which `discard_cached_hotfixes` removes them. -/
def CacheFile.all : List CacheFile := [.candidate, .active .steamclient, .active .steamui]

structure PatternCache (Content : Type) where
  files : CacheFile → Option Content
  locks : CacheFile → Option Nat
  /-- Every content that was published as the candidate. -/
  cached : List Content
  /-- The validation that the active file of a module has passed. -/
  validatedBy : PatternModule → Option (Content → Bool)
  /-- How often a discard has removed a file. -/
  removals : CacheFile → Nat
  /-- For each discard that has completed, how many contents had been cached when it began. -/
  completed : List Nat

def PatternCache.empty {Content : Type} : PatternCache Content :=
  ⟨fun _ => none, fun _ => none, [], fun _ => none, fun _ => 0, []⟩

/-- Where a thread is. -/
inductive CacheLocal (Content : Type) where
  | idle
  /-- `cache_candidate`: before the lock, with the lock, about to publish. -/
  | caching (content : Content)
  | comparing (content : Content)
  | storing (content : Content)
  /-- `validate_and_promote_candidate_at`: before the first lock, with it, before the second
  lock, with both, about to publish, done. -/
  | promoting (mod : PatternModule) (validate : Content → Bool)
  | reading (mod : PatternModule) (validate : Content → Bool)
  | wantActive (mod : PatternModule) (validate : Content → Bool) (content : Content)
      (revision : Option Nat)
  | judging (mod : PatternModule) (validate : Content → Bool) (content : Content)
      (revision : Option Nat)
  | publishing (mod : PatternModule) (validate : Content → Bool) (content : Content)
  | releasing (mod : PatternModule)
  /-- With the lock of the candidate only, about to return. -/
  | unlocking
  /-- `discard_cached_hotfixes`: before a lock, with it, about to release it. -/
  | discarding (begun : Nat) (todo : List CacheFile)
  | removing (begun : Nat) (file : CacheFile) (todo : List CacheFile)
  | removed (begun : Nat) (file : CacheFile) (todo : List CacheFile)
  /-- A file could not be removed. -/
  | failing (file : CacheFile)

inductive CacheAction (Content : Type) where
  | cacheCandidate (content : Content)
  | promote (mod : PatternModule) (validate : Content → Bool)
  | discard
  | next
  /-- The file system reports an error. -/
  | ioError

/-! ## Steps -/

/-- `check_order`. -/
def checkOrder (incoming existing : Option Nat) : Bool :=
  match incoming, existing with
  | some incoming, some existing => existing < incoming
  | _, _ => true

section Steps

variable {Content : Type} [DecidableEq Content]

namespace PatternCache

def lock (s : PatternCache Content) (file : CacheFile) (t : Nat) : PatternCache Content :=
  { s with locks := Function.update s.locks file (some t) }

def unlock (s : PatternCache Content) (file : CacheFile) : PatternCache Content :=
  { s with locks := Function.update s.locks file none }

/-- `cache_candidate` renames its file. -/
def storeCandidate (s : PatternCache Content) (content : Content) : PatternCache Content :=
  { s with
    files := Function.update s.files .candidate (some content)
    cached := s.cached ++ [content] }

/-- A promotion renames its file. -/
def publishActive (s : PatternCache Content) (mod : PatternModule)
    (validate : Content → Bool) (content : Content) : PatternCache Content :=
  { s with
    files := Function.update s.files (.active mod) (some content)
    validatedBy := Function.update s.validatedBy mod (some validate) }

def remove (s : PatternCache Content) (file : CacheFile) : PatternCache Content :=
  { s with
    files := Function.update s.files file none
    removals := Function.update s.removals file (s.removals file + 1) }

end PatternCache

/-- `hotfix_revision`: `none` for what is not a hotfix for the target. -/
abbrev HotfixRevision (Content : Type) := Content → Option (Option Nat)

/-- The different content may replace what there is: that is not a hotfix, or older. -/
def mayReplace (revision : HotfixRevision Content) (incoming : Option Nat) (current : Content) :
    Bool :=
  match revision current with
  | none => true
  | some existing => checkOrder incoming existing

def cacheStep (revision : HotfixRevision Content) (t : Nat) (s : PatternCache Content) :
    CacheLocal Content → Option (PatternCache Content × CacheLocal Content)
  | .caching content =>
    if s.locks .candidate = none then some (s.lock .candidate t, .comparing content) else none
  | .comparing content =>
    match revision content with
    | none => some (s, .unlocking)
    | some incoming =>
      match s.files .candidate with
      | none => some (s, .storing content)
      | some current =>
        if current = content then some (s, .unlocking)
        else if mayReplace revision incoming current then some (s, .storing content)
        else some (s, .unlocking)
  | .storing content => some (s.storeCandidate content, .unlocking)
  | .unlocking => some (s.unlock .candidate, .idle)
  | _ => none

def promoteStep (revision : HotfixRevision Content) (t : Nat) (s : PatternCache Content) :
    CacheLocal Content → Option (PatternCache Content × CacheLocal Content)
  | .promoting mod validate =>
    if s.locks .candidate = none then some (s.lock .candidate t, .reading mod validate) else none
  | .reading mod validate =>
    match s.files .candidate with
    | none => some (s, .unlocking)
    | some content =>
      match revision content with
      | none => some (s, .unlocking)
      | some candidateRevision => some (s, .wantActive mod validate content candidateRevision)
  | .wantActive mod validate content candidateRevision =>
    if s.locks (.active mod) = none then
      some (s.lock (.active mod) t, .judging mod validate content candidateRevision)
    else none
  | .judging mod validate content candidateRevision =>
    match s.files (.active mod) with
    | none =>
      if validate content then some (s, .publishing mod validate content)
      else some (s, .releasing mod)
    | some active =>
      if active = content then some (s, .releasing mod)
      else if mayReplace revision candidateRevision active && validate content then
        some (s, .publishing mod validate content)
      else some (s, .releasing mod)
  | .publishing mod validate content =>
    some (s.publishActive mod validate content, .releasing mod)
  | .releasing mod => some (s.unlock (.active mod), .unlocking)
  | _ => none

def discardStep (t : Nat) (s : PatternCache Content) :
    CacheLocal Content → Option (PatternCache Content × CacheLocal Content)
  | .discarding begun [] => some ({ s with completed := s.completed ++ [begun] }, .idle)
  | .discarding begun (file :: todo) =>
    if s.locks file = none then some (s.lock file t, .removing begun file todo) else none
  | .removing begun file todo => some (s.remove file, .removed begun file todo)
  | .removed begun file todo => some (s.unlock file, .discarding begun todo)
  | .failing file => some (s.unlock file, .idle)
  | _ => none

/-- An operation that is told of an error. -/
def CacheLocal.afterError : CacheLocal Content → Option (CacheLocal Content)
  | .caching _ => some .idle
  | .comparing _ => some .unlocking
  | .storing _ => some .unlocking
  | .promoting _ _ => some .idle
  | .reading _ _ => some .unlocking
  | .wantActive _ _ _ _ => some .unlocking
  | .judging mod _ _ _ => some (.releasing mod)
  | .publishing mod _ _ => some (.releasing mod)
  | .discarding _ _ => some .idle
  | .removing _ file _ => some (.failing file)
  | _ => none

def startCache (s : PatternCache Content) :
    CacheAction Content → Option (PatternCache Content × CacheLocal Content)
  | .cacheCandidate content => some (s, .caching content)
  | .promote mod validate => some (s, .promoting mod validate)
  | .discard => some (s, .discarding s.cached.length CacheFile.all)
  | _ => none

/-- One atomic step of a thread. -/
def patternStep (revision : HotfixRevision Content) (t : Nat) (action : CacheAction Content)
    (s : PatternCache Content) (l : CacheLocal Content) :
    Option (PatternCache Content × CacheLocal Content) :=
  match l, action with
  | .idle, action => startCache s action
  | l, .ioError => l.afterError.map fun l' => (s, l')
  | l, .next =>
    (cacheStep revision t s l).or ((promoteStep revision t s l).or (discardStep t s l))
  | _, _ => none

def patternThreads (revision : HotfixRevision Content) :
    Threads Nat (PatternCache Content) (CacheLocal Content) (CacheAction Content) :=
  ⟨patternStep revision⟩

/-- The system after some actions, from an empty cache. -/
def patternsAfter (revision : HotfixRevision Content)
    (actions : List (Nat × CacheAction Content)) :
    System Nat (PatternCache Content) (CacheLocal Content) :=
  (patternThreads revision).run ⟨.empty, fun _ => .idle⟩ actions

end Steps

end VaporForge.Features
