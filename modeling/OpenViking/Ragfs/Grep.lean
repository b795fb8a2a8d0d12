import OpenViking.Ragfs.TreeLimits

/-!
# Searching the files of a tree

The default search visits the files below a path recursively and adds the
matching lines of each one until the limit is reached.
-/

namespace OpenViking
namespace Ragfs

open Paths
open Segments
open Emitted

/--
A tree with the contents of its files, as decoded lines.  What `stat` says of
the entries of a directory is what its listing says.
-/
structure FileTree (ε : Type) extends Tree ε where
  isDir : Str -> Except ε Bool
  lines : Str -> Except ε (List Str)
  listed : forall (path : Str) (entries : List FileInfo),
    readDir path = .ok entries ->
      forall e, e ∈ entries -> isDir (entryPath path e.name) = .ok e.isDir

structure GrepMatch where
  file : Str
  line : Nat
  content : Str
deriving DecidableEq

/-- The arguments of a search; the pattern is a predicate on lines. -/
structure GrepRequest where
  path : Str
  isMatch : Str -> Bool
  recursive : Bool
  nodeLimit : Option Nat
  excludePath : Option Str
  levelLimit : Option Nat

namespace GrepRequest

variable (request : GrepRequest)

def base : Str :=
  normalizePrefixPath request.path

def isExcluded (current : Str) : Bool :=
  match request.excludePath with
  | none => false
  | some exclude => isExcludedPath current (normalizePrefixPath exclude)

def depth (current : Str) : Nat :=
  relativeDepth (relativeMatchFile request.base current)

/-- A directory below the root is not read by a search that is not recursive. -/
def staysOut (current : Str) : Bool :=
  !request.recursive && decide (current ≠ request.base)

/-- A file below the level limit is not searched. -/
def tooDeep (current : Str) : Bool :=
  match request.levelLimit with
  | none => false
  | some limit => decide (limit < request.depth current)

end GrepRequest

section Grep

variable {ε : Type} (files : FileTree ε) (request : GrepRequest)

/-- The loop over the lines of a file, from a line number on. -/
def grepLines (isMatch : Str -> Bool) (limit : Option Nat) (file : Str) :
    Nat -> List Str -> List GrepMatch -> List GrepMatch
  | _, [], result => result
  | number, line :: rest, result =>
    if reached limit result.length then result
    else if isMatch line then
      grepLines isMatch limit file (number + 1) rest
        (result ++ [⟨file, number, line⟩])
    else grepLines isMatch limit file (number + 1) rest result

def grepFile (path : Str) (result : List GrepMatch) :
    Except ε (List GrepMatch) :=
  if reached request.nodeLimit result.length then .ok result
  else
    match files.lines path with
    | .error e => .error e
    | .ok lines =>
      .ok (grepLines request.isMatch request.nodeLimit
        (relativeMatchFile request.base path) 1 lines result)

/-- The loop over the entries of a directory. -/
def grepEntries (current : Str)
    (descend : Str -> List GrepMatch -> Except ε (List GrepMatch)) :
    List FileInfo -> List GrepMatch -> Except ε (List GrepMatch)
  | [], result => .ok result
  | entry :: rest, result =>
    if reached request.nodeLimit result.length then .ok result
    else
      (descend (entryPath current entry.name) result).bind
        (grepEntries current descend rest)

def grepInternal : Nat -> Str -> List GrepMatch -> Except ε (List GrepMatch)
  | 0, _, result => .ok result
  | fuel + 1, current, result =>
    if reached request.nodeLimit result.length then .ok result
    else if request.isExcluded current then .ok result
    else
      match files.isDir current with
      | .error e => .error e
      | .ok true =>
        if request.staysOut current then .ok result
        else if reached request.levelLimit (request.depth current) then
          .ok result
        else
          match files.readDir current with
          | .error e => .error e
          | .ok entries =>
            grepEntries request current (grepInternal fuel) entries result
      | .ok false =>
        if request.tooDeep current then .ok result
        else grepFile files request current result

/-- One more than the directories on the way, for the file at its end. -/
def grep : Except ε (List GrepMatch) :=
  grepInternal files request (files.height request.base + 2) request.base []

/-!
# What a search visits
-/

/-- A file that is searched, or a directory and whether its listing failed. -/
inductive Visit (ε : Type) where
  | file (path : Str)
  | directory (failure : Option ε)

def fileVisits (current : Str) : List (Visit ε) :=
  if request.isExcluded current then []
  else if request.tooDeep current then []
  else [.file current]

def dirVisits : Nat -> Str -> List (Visit ε)
  | 0, _ => []
  | fuel + 1, current =>
    if request.isExcluded current then []
    else if request.staysOut current then [.directory none]
    else if reached request.levelLimit (request.depth current) then
      [.directory none]
    else
      match files.readDir current with
      | .error e => [.directory (some e)]
      | .ok entries =>
        .directory none ::
          entries.flatMap fun entry =>
            if entry.isDir then
              dirVisits fuel (entryPath current entry.name)
            else fileVisits request (entryPath current entry.name)

/-- The visits of a search, from its root on. -/
def visits : List (Visit ε) :=
  if request.isExcluded request.base then []
  else
    match files.isDir request.base with
    | .error e => [.directory (some e)]
    | .ok true =>
      dirVisits files request (files.height request.base + 1) request.base
    | .ok false => fileVisits request request.base

/-- The matching lines, with their numbers. -/
def matchesOf (isMatch : Str -> Bool) (file : Str) :
    Nat -> List Str -> List GrepMatch
  | _, [] => []
  | number, line :: rest =>
    if isMatch line then
      ⟨file, number, line⟩ :: matchesOf isMatch file (number + 1) rest
    else matchesOf isMatch file (number + 1) rest

def fileMatches (path : Str) : Emitted ε GrepMatch :=
  match files.lines path with
  | .error e => fail e
  | .ok lines =>
    ⟨matchesOf request.isMatch (relativeMatchFile request.base path) 1 lines,
      none⟩

def visitMatches : Visit ε -> Emitted ε GrepMatch
  | .file path => fileMatches files request path
  | .directory none => nothing
  | .directory (some e) => fail e

end Grep

/-!
# The search collects the matches of its visits
-/

theorem collect_grepLines {ε : Type} (isMatch : Str -> Bool)
    (limit : Option Nat) (file : Str) (number : Nat) (lines : List Str)
    (result : List GrepMatch) :
    collect limit result
        (⟨matchesOf isMatch file number lines, none⟩ : Emitted ε GrepMatch) =
      .ok (grepLines isMatch limit file number lines result) := by
  induction lines generalizing number result with
  | nil => exact collect_nothing limit result
  | cons line rest ih =>
    rw [grepLines, matchesOf]
    cases hroom : reached limit result.length with
    | true =>
      rw [if_pos rfl]
      exact collect_of_reached hroom _
    | false =>
      rw [if_neg Bool.false_ne_true]
      cases hmatch : isMatch line with
      | true =>
        rw [if_pos rfl, if_pos rfl]
        have hstep := collect_andThen limit result (one ⟨file, number, line⟩)
          (⟨matchesOf isMatch file (number + 1) rest, none⟩ : Emitted ε GrepMatch)
        rw [collect_one hroom] at hstep
        exact hstep.trans (ih (number + 1) _)
      | false =>
        rw [if_neg Bool.false_ne_true, if_neg Bool.false_ne_true]
        exact ih (number + 1) result

section Default

variable {ε : Type} {files : FileTree ε} {request : GrepRequest}

theorem grepFile_eq_collect (path : Str) (result : List GrepMatch) :
    grepFile files request path result =
      collect request.nodeLimit result (fileMatches files request path) := by
  rw [grepFile, fileMatches]
  cases hroom : reached request.nodeLimit result.length with
  | true =>
    rw [if_pos rfl]
    exact (collect_of_reached hroom _).symm
  | false =>
    rw [if_neg Bool.false_ne_true]
    cases files.lines path with
    | error e => exact (collect_fail hroom e).symm
    | ok lines => exact (collect_grepLines _ _ _ _ _ _).symm

variable {current : Str}

theorem grepInternal_file {fuel : Nat}
    (hfile : files.isDir current = .ok false) (result : List GrepMatch) :
    grepInternal files request (fuel + 1) current result =
      collect request.nodeLimit result
        (each (visitMatches files request) (fileVisits request current)) := by
  rw [grepInternal, fileVisits, hfile]
  dsimp only
  cases hroom : reached request.nodeLimit result.length with
  | true =>
    rw [if_pos rfl]
    exact (collect_of_reached hroom _).symm
  | false =>
    rw [if_neg Bool.false_ne_true]
    split
    · exact (collect_nothing _ result).symm
    · split
      · exact (collect_nothing _ result).symm
      · rw [each_singleton]
        exact grepFile_eq_collect current result

theorem grepEntries_eq_collect
    {descend : Str -> List GrepMatch -> Except ε (List GrepMatch)}
    {found : FileInfo -> List (Visit ε)} {entries : List FileInfo}
    (h : forall entry, entry ∈ entries -> forall result : List GrepMatch,
      descend (entryPath current entry.name) result =
        collect request.nodeLimit result
          (each (visitMatches files request) (found entry)))
    (result : List GrepMatch) :
    grepEntries request current descend entries result =
      collect request.nodeLimit result
        (each (visitMatches files request) (entries.flatMap found)) := by
  induction entries generalizing result with
  | nil => exact (collect_nothing _ result).symm
  | cons entry rest ih =>
    rw [grepEntries, List.flatMap_cons, each_append, collect_andThen,
      h entry List.mem_cons_self]
    cases hroom : reached request.nodeLimit result.length with
    | true =>
      rw [if_pos rfl, collect_of_reached hroom]
      exact (collect_of_reached hroom _).symm
    | false =>
      rw [if_neg Bool.false_ne_true]
      exact congrArg _ (funext fun middle =>
        ih (fun e he => h e (List.mem_cons_of_mem _ he)) middle)

theorem grepInternal_dir {fuel : Nat} (hfuel : files.height current < fuel)
    (hdir : files.isDir current = .ok true) (result : List GrepMatch) :
    grepInternal files request (fuel + 1) current result =
      collect request.nodeLimit result
        (each (visitMatches files request)
          (dirVisits files request fuel current)) := by
  induction fuel generalizing current result with
  | zero => exact absurd hfuel (Nat.not_lt_zero _)
  | succ fuel ih =>
    rw [grepInternal, dirVisits, hdir]
    dsimp only
    cases hroom : reached request.nodeLimit result.length with
    | true =>
      rw [if_pos rfl]
      exact (collect_of_reached hroom _).symm
    | false =>
      rw [if_neg Bool.false_ne_true]
      split
      · exact (collect_nothing _ result).symm
      split
      · exact (collect_nothing _ result).symm
      split
      · exact (collect_nothing _ result).symm
      cases hread : files.readDir current with
      | error e => exact (collect_fail hroom e).symm
      | ok entries =>
        dsimp only
        rw [each]
        show _ = collect _ result (nothing.andThen _)
        rw [nothing_andThen]
        apply grepEntries_eq_collect
        intro entry hentry middle
        have hstat := files.listed current entries hread entry hentry
        cases hkind : entry.isDir with
        | false =>
          rw [hkind] at hstat
          rw [if_neg Bool.false_ne_true]
          exact grepInternal_file hstat middle
        | true =>
          rw [hkind] at hstat
          rw [if_pos rfl]
          have hlower := files.descends current entries hread entry hentry hkind
          exact ih (Nat.lt_of_lt_of_le hlower
            (Nat.le_of_lt_succ hfuel)) hstat middle

/-- The search is a bounded collection of the matches of its visits. -/
theorem grep_eq_collect :
    grep files request =
      collect request.nodeLimit []
        (each (visitMatches files request) (visits files request)) := by
  rw [grep, visits]
  cases hstat : files.isDir request.base with
  | ok isDir =>
    cases isDir with
    | true =>
      rw [grepInternal_dir (Nat.lt_succ_self _) hstat, dirVisits]
      split
      · rfl
      · rfl
    | false =>
      rw [grepInternal_file hstat, fileVisits]
      split
      · rfl
      · rfl
  | error e =>
    rw [grepInternal, hstat]
    dsimp only
    cases hroom : reached request.nodeLimit ([] : List GrepMatch).length with
    | true =>
      rw [if_pos rfl]
      exact (collect_of_reached hroom _).symm
    | false =>
      rw [if_neg Bool.false_ne_true]
      split
      · exact (collect_nothing _ _).symm
      · rw [each_singleton]
        exact (collect_fail hroom e).symm

end Default
end Ragfs
end OpenViking
