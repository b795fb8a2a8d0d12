import OpenViking.Git.Tree

/-!
# The account's working tree

The virtual file system of one account, seen from the account root.  Every
stored path lies under directories only, so a path below a file or below a
missing path is missing.
-/

namespace OpenViking
namespace Git

open Paths

inductive Node where
  | file (data : Bytes) (modTime : Int)
  | dir (modTime : Int)
deriving DecidableEq

structure FileInfo where
  size : Nat
  modTime : Int
  isDir : Bool
deriving DecidableEq

structure WorkTree where
  nodes : Assoc Path Node
  rootless : nodes.find [] = none
  closed : forall {p q : Path}, (nodes.find q).isSome -> Below p q ->
    p ≠ [] -> exists modTime, nodes.find p = some (.dir modTime)

namespace WorkTree

/-- The account root always exists and is a directory. -/
def node? (w : WorkTree) (p : Path) : Option Node :=
  if p = [] then some (.dir 0) else w.nodes.find p

def fileAt (w : WorkTree) (p : Path) : Option Bytes :=
  match w.node? p with
  | some (.file data _) => some data
  | _ => none

def IsDir (w : WorkTree) (p : Path) : Prop :=
  exists modTime, w.node? p = some (.dir modTime)

def Missing (w : WorkTree) (p : Path) : Prop :=
  w.node? p = none

instance (w : WorkTree) (p : Path) : Decidable (w.IsDir p) :=
  match h : w.node? p with
  | some (.dir modTime) => isTrue ⟨modTime, h⟩
  | some (.file data modTime) => isFalse (by
      rintro ⟨t, ht⟩
      rw [h] at ht
      cases ht)
  | none => isFalse (by
      rintro ⟨t, ht⟩
      rw [h] at ht
      cases ht)

instance (w : WorkTree) (p : Path) : Decidable (w.Missing p) :=
  inferInstanceAs (Decidable (w.node? p = none))

def empty : WorkTree where
  nodes := ∅
  rootless := Assoc.find_empty []
  closed := by
    intro p q h
    simp at h

/-!
# File system calls
-/

def stat (w : WorkTree) (p : Path) : Except FsError FileInfo :=
  match w.node? p with
  | none => .error (.notFound p)
  | some (.file data modTime) => .ok ⟨data.length, modTime, false⟩
  | some (.dir modTime) => .ok ⟨0, modTime, true⟩

def read (w : WorkTree) (p : Path) : Except FsError Bytes :=
  match w.node? p with
  | none => .error (.notFound p)
  | some (.file data _) => .ok data
  | some (.dir _) => .error (.isADirectory p)

/-- Every path below a directory, with its kind. -/
def treeDirectory (w : WorkTree) (root : Path) :
    Except FsError (List (Path × FileInfo)) :=
  match w.node? root with
  | none => .error (.notFound root)
  | some (.file _ _) => .error (.notADirectory root)
  | some (.dir _) =>
    .ok <| w.nodes.bindings.filterMap fun b =>
      if Below root b.1 then
        match b.2 with
        | .file data modTime => some (b.1, ⟨data.length, modTime, false⟩)
        | .dir modTime => some (b.1, ⟨0, modTime, true⟩)
      else
        none

/-!
# Which paths exist
-/

theorem node?_cases (w : WorkTree) (p : Path) :
    (exists data, w.fileAt p = some data) ∨ w.IsDir p ∨ w.Missing p := by
  cases h : w.node? p with
  | none => exact .inr (Or.inr h)
  | some node =>
    cases node with
    | file data modTime => exact .inl ⟨data, by simp [fileAt, h]⟩
    | dir modTime => exact .inr (Or.inl ⟨modTime, h⟩)

variable {w : WorkTree} {p : Path}

variable {data : Bytes}

theorem fileAt_eq_some_iff : w.fileAt p = some data <->
      exists modTime, w.node? p = some (.file data modTime) := by
  unfold fileAt
  cases w.node? p with
  | none => simp
  | some node => cases node <;> simp

theorem isDir_nil (w : WorkTree) : w.IsDir [] := ⟨0, rfl⟩

@[simp] theorem fileAt_empty (p : Path) : empty.fileAt p = none := by
  unfold fileAt node? empty
  by_cases hp : p = [] <;> simp [hp]

theorem fileAt_of_isDir (h : w.IsDir p) :
    w.fileAt p = none := by
  rcases h with ⟨modTime, h⟩
  simp [fileAt, h]

theorem fileAt_of_missing (h : w.Missing p) :
    w.fileAt p = none := by
  unfold Missing at h
  simp [fileAt, h]

theorem not_missing_of_isDir (h : w.IsDir p) :
    ¬ w.Missing p := by
  rcases h with ⟨modTime, h⟩
  simp [Missing, h]

theorem not_missing_of_fileAt (h : w.fileAt p = some data) : ¬ w.Missing p := by
  intro hmiss
  rw [fileAt_of_missing hmiss] at h
  cases h

theorem not_isDir_of_fileAt (h : w.fileAt p = some data) : ¬ w.IsDir p := by
  intro hdir
  rw [fileAt_of_isDir hdir] at h
  cases h

theorem isDir_of_below {p q : Path} (h : ¬ w.Missing q)
    (hbelow : Below p q) : w.IsDir p := by
  by_cases hp : p = []
  · rw [hp]
    exact w.isDir_nil
  have hq : q ≠ [] := by
    rintro rfl
    exact hp (List.prefix_nil.mp hbelow.isPrefix)
  have hsome : (w.nodes.find q).isSome := by
    rw [Option.isSome_iff_ne_none]
    simpa [Missing, node?, hq] using h
  rcases w.closed hsome hbelow hp with ⟨modTime, hdir⟩
  exact ⟨modTime, by simp [node?, hp, hdir]⟩

theorem missing_below {p q : Path} (h : ¬ w.IsDir p)
    (hbelow : Below p q) : w.Missing q := by
  by_contra hq
  exact h (isDir_of_below hq hbelow)

theorem not_below_of_fileAt {p q : Path} {a b : Bytes}
    (hp : w.fileAt p = some a) (hq : w.fileAt q = some b) : ¬ Below p q := by
  intro hbelow
  exact not_missing_of_fileAt hq (missing_below (not_isDir_of_fileAt hp) hbelow)

theorem ne_nil_of_fileAt (h : w.fileAt p = some data) : p ≠ [] := by
  rintro rfl
  exact not_isDir_of_fileAt h w.isDir_nil

theorem ne_nil_of_missing (h : w.Missing p) :
    p ≠ [] := by
  rintro rfl
  exact not_missing_of_isDir w.isDir_nil h

theorem treeDirectory_ok {root : Path} (h : w.IsDir root) :
    exists entries, w.treeDirectory root = .ok entries ∧
      forall p, (exists info, (p, info) ∈ entries ∧ info.isDir = false) <->
        Below root p ∧ exists data, w.fileAt p = some data := by
  rcases h with ⟨modTime, hroot⟩
  refine ⟨_, by rw [treeDirectory, hroot], ?_⟩
  intro p
  constructor
  · rintro ⟨info, hmem, hkind⟩
    rcases List.mem_filterMap.mp hmem with ⟨⟨q, node⟩, hbind, hsome⟩
    by_cases hbelow : Below root q
    · rw [if_pos hbelow] at hsome
      cases node with
      | dir t =>
        cases hsome
        cases hkind
      | file data t =>
        cases hsome
        have hne : q ≠ [] := by
          rintro rfl
          exact hbelow.ne (List.prefix_nil.mp hbelow.isPrefix)
        refine ⟨hbelow, data, ?_⟩
        simp [fileAt, node?, hne, Assoc.mem_bindings.mp hbind]
    · rw [if_neg hbelow] at hsome
      cases hsome
  · rintro ⟨hbelow, data, hfile⟩
    have hne := ne_nil_of_fileAt hfile
    rcases fileAt_eq_some_iff.mp hfile with ⟨t, hnode⟩
    have hfind : w.nodes.find p = some (.file data t) := by
      simpa [node?, hne] using hnode
    refine ⟨⟨data.length, t, false⟩, ?_, rfl⟩
    exact List.mem_filterMap.mpr
      ⟨(p, .file data t), Assoc.mem_bindings.mpr hfind, by simp [hbelow]⟩

end WorkTree

/-!
# Tracked paths

Which account paths belong in a snapshot: the fixed pruning rules together
with the account's ignore file.
-/

/-- Path-lock marker for directory-level locks. -/
def pathLockFile : Str := ".path.ovlock".toList

/-- Prefix of the sidecar lock files. -/
def exactLockFilePrefix : Str := ".exact.ovlock.".toList

def isHiddenRuntimeLockName (name : Str) : Bool :=
  name == pathLockFile || exactLockFilePrefix.isPrefixOf name

/-- First-segment internal scope names that are pruned. -/
def internalFirstSegments : List Str :=
  ["_system".toList, "tasks".toList, "temp".toList, "queue".toList,
    "upload".toList]

/-- True when the path must be excluded from commits. -/
def prunePath (rel : Path) : Bool :=
  match rel.head?, rel.getLast? with
  | some first, some last =>
    internalFirstSegments.contains first.chars ||
    rel.any (fun segment => pathLockFile.isPrefixOf segment.chars ||
      isHiddenRuntimeLockName segment.chars) ||
    rel.dropLast.any
      (fun segment => segment.chars == "embedding_cache".toList) ||
    ".faiss".toList.isSuffixOf last.chars ||
    ".index".toList.isSuffixOf last.chars
  | _, _ => true

/-- Account-relative path of the ignore file. -/
def ovgitignorePath : Path := [Name.ofString ".ovgitignore"]

/-- A compiled ignore file; `none` when it has no effective rule. -/
structure IgnoreMatcher where
  inner : Option (Path -> Bool)

namespace IgnoreMatcher

def empty : IgnoreMatcher where
  inner := none

def isIgnored (m : IgnoreMatcher) (relPath : Path) : Bool :=
  match m.inner with
  | none => false
  | some rules =>
    if relPath = [] ∨ relPath = ovgitignorePath then
      false
    else
      rules relPath

end IgnoreMatcher

def shouldTrackPath (relPath : Path) (matcher : IgnoreMatcher) : Bool :=
  if relPath = ovgitignorePath then
    true
  else
    !prunePath relPath && !matcher.isIgnored relPath

/-- How ignore-file text becomes a matcher. -/
abbrev IgnoreParser := Bytes -> Except GitError IgnoreMatcher

def loadIgnoreMatcher (parse : IgnoreParser) (vfs : WorkTree) :
    Except GitError IgnoreMatcher :=
  match vfs.read ovgitignorePath with
  | .ok bytes => parse bytes
  | .error e =>
    if isNotFound e then
      .ok IgnoreMatcher.empty
    else
      .error (.fs e)

/-- The unpruned files below a directory. -/
def collectUnder (vfs : WorkTree) (subPath : Path) :
    Except GitError (List Path) :=
  match vfs.treeDirectory subPath with
  | .error e => .error (.fs e)
  | .ok entries =>
    .ok <| entries.filterMap fun entry =>
      if entry.2.isDir || prunePath entry.1 then none else some entry.1

def collectAll (vfs : WorkTree) : Except GitError (List Path) :=
  collectUnder vfs []

theorem prunePath_ovgitignorePath : prunePath ovgitignorePath = false := by
  decide

theorem prunePath_of_shouldTrackPath {matcher : IgnoreMatcher}
    (h : shouldTrackPath p matcher = true) : prunePath p = false := by
  unfold shouldTrackPath at h
  by_cases hp : p = ovgitignorePath
  · rw [hp]
    exact prunePath_ovgitignorePath
  · rw [if_neg hp] at h
    simp only [Bool.and_eq_true, Bool.not_eq_true'] at h
    exact h.1

theorem collectUnder_ok {vfs : WorkTree} {dir : Path} (h : vfs.IsDir dir) :
    exists listed, collectUnder vfs dir = .ok listed ∧
      forall p, p ∈ listed <-> Below dir p ∧ prunePath p = false ∧
        exists data, vfs.fileAt p = some data := by
  rcases WorkTree.treeDirectory_ok h with ⟨entries, hrun, hmem⟩
  refine ⟨_, by rw [collectUnder, hrun], ?_⟩
  intro p
  rw [List.mem_filterMap]
  constructor
  · rintro ⟨⟨q, info⟩, hentry, hsome⟩
    by_cases hskip : (info.isDir || prunePath q) = true
    · simp [hskip] at hsome
    · have hpq : q = p := by simpa [hskip] using hsome
      subst hpq
      simp only [Bool.or_eq_true, not_or, Bool.not_eq_true] at hskip
      have := (hmem q).mp ⟨info, hentry, hskip.1⟩
      exact ⟨this.1, hskip.2, this.2⟩
  · rintro ⟨hbelow, hprune, hfile⟩
    rcases (hmem p).mpr ⟨hbelow, hfile⟩ with ⟨info, hentry, hkind⟩
    exact ⟨(p, info), hentry, by simp [hkind, hprune]⟩

end Git
end OpenViking
