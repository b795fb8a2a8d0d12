import OpenViking.Common.Path
import OpenViking.Common.Assoc

/-!
# The memory file system

`MemFileSystem` keeps one flat map from full path texts to entries.  Every call
holds the lock of the map, so it is one step.  The clock is an argument: `now`
is what it answers during the call.
-/

namespace OpenViking
namespace Memfs

open Paths List

abbrev Bytes := List UInt8

abbrev SystemTime := Nat

structure FileEntry where
  data : Bytes
  mode : Nat
  modTime : SystemTime
  isDir : Bool
deriving DecidableEq

namespace FileEntry

def newFile (now : SystemTime) (mode : Nat) : FileEntry where
  data := []
  mode := mode
  modTime := now
  isDir := false

def newDir (now : SystemTime) (mode : Nat) : FileEntry where
  data := []
  mode := mode
  modTime := now
  isDir := true

def touch (now : SystemTime) (entry : FileEntry) : FileEntry :=
  { entry with modTime := now }

end FileEntry

abbrev Entries := Assoc Str FileEntry

inductive Error where
  | alreadyExists (path : Str)
  | notFound (path : Str)
  | notADirectory (path : Str)
  | isADirectory (path : Str)
  | invalidOperation (message : Str)
deriving DecidableEq

inductive WriteFlag where
  | create
  | createNew
  | truncate
  | append
  | none
deriving DecidableEq

variable (now : SystemTime)

/-- `MemFileSystem::new`. -/
def new : Entries :=
  (∅ : Entries).put ['/'] (FileEntry.newDir now 0o755)

/-!
# Path texts
-/

variable (path : Str)

def normalizePath : Str :=
  if path = [] ∨ path = ['/'] then ['/']
  else
    let normalized := if path.head? = some '/' then path else '/' :: path
    if normalized.length > 1 ∧ normalized.getLast? = some '/' then
      normalized.dropLast
    else
      normalized

def parentPath : Option Str :=
  if path = ['/'] then none
  else
    let parts := (normalizePath path).splitOn '/'
    if parts.length ≤ 2 then some ['/']
    else some (['/'].intercalate parts.dropLast)

/-- The start of the texts below a directory, as `rename` builds it. -/
def childPrefix : Str :=
  if path = ['/'] then ['/'] else path ++ ['/']

/-!
# Calls
-/

/-- The check of `create`, `mkdir`, `write`, `rename` and `replace` that a new
entry stands in a directory. -/
def checkParent (entries : Entries) (normalized : Str) : Except Error Unit :=
  match parentPath normalized with
  | none => .ok ()
  | some parent =>
    match entries.find parent with
    | some entry =>
      if entry.isDir then .ok ()
      else .error (.notADirectory parent)
    | none => .error (.notFound parent)

/-- What `create` and `mkdir` have in common. -/
def insertNew (entry : FileEntry) (entries : Entries) :
    Except Error Unit × Entries :=
  let normalized := normalizePath path
  if (entries.find normalized).isSome then
    (.error (.alreadyExists normalized), entries)
  else
    match checkParent entries normalized with
    | .error e => (.error e, entries)
    | .ok () => (.ok (), entries.put normalized entry)

def create (path : Str) (entries : Entries) :
    Except Error Unit × Entries :=
  insertNew path (FileEntry.newFile now 0o644) entries

def mkdir (path : Str) (mode : Nat) (entries : Entries) :
    Except Error Unit × Entries :=
  insertNew path (FileEntry.newDir now mode) entries

def remove (entries : Entries) : Except Error Unit × Entries :=
  let normalized := normalizePath path
  match entries.find normalized with
  | some entry =>
    if entry.isDir then
      (.error (.isADirectory normalized), entries)
    else
      (.ok (), Assoc.del entries normalized)
  | none => (.error (.notFound normalized), entries)

/-- Here the text below the root is that of any other directory, a slash
after the path. -/
def removeAll (entries : Entries) :
    Except Error Unit × Entries :=
  let normalized := normalizePath path
  if (entries.find normalized).isNone then
    (.error (.notFound normalized), entries)
  else
    let toRemove := (entries.bindings.map Prod.fst).filter fun p =>
      p == normalized || decide (normalized ++ ['/'] <+: p)
    (.ok (), entries.delAll toRemove)

/-- `Vec::resize` with zeros. -/
def resize (size : Nat) (data : Bytes) : Bytes :=
  data.take size ++ List.replicate (size - data.length) 0

/-- `data[offset..end].copy_from_slice(..)` after the file was made longer. -/
def writeAt (offset : Nat) (data old : Bytes) : Bytes :=
  let stop := offset + data.length
  let old := if stop > old.length then resize stop old else old
  old.take offset ++ data ++ old.drop stop

/-- The entry is touched before the flags are looked at. -/
def write (path : Str) (data : Bytes) (offset : Nat)
    (flags : WriteFlag) (entries : Entries) : Except Error Nat × Entries :=
  let normalized := normalizePath path
  match entries.find normalized with
  | some entry =>
    if entry.isDir then
      (.error (.isADirectory normalized), entries)
    else
      let entry := entry.touch now
      let store (data' : Bytes) : Except Error Nat × Entries :=
        (.ok data.length,
          entries.put normalized { entry with data := data' })
      match flags with
      | .create => store data
      | .truncate => store data
      | .createNew =>
        (.error (.alreadyExists normalized),
          entries.put normalized entry)
      | .append => store (entry.data ++ data)
      | .none => store (writeAt offset data entry.data)
  | none =>
    if flags = .create ∨ flags = .createNew then
      match checkParent entries normalized with
      | .error e => (.error e, entries)
      | .ok () =>
        (.ok data.length, entries.put normalized
          { FileEntry.newFile now 0o644 with data := data })
    else
      (.error (.notFound normalized), entries)

/-- The children of the old path in the order of the map, or the first of them
whose new path is taken. -/
def collectMoves (entries : Entries) (old oldPrefix newPrefix : Str) :
    List Str -> Except Error (List Str)
  | [] => .ok []
  | path :: rest =>
    if path = old then collectMoves entries old oldPrefix newPrefix rest
    else if oldPrefix <+: path then
      let newChildPath := newPrefix ++ path.drop oldPrefix.length
      if (entries.find newChildPath).isSome then
        .error (.alreadyExists newChildPath)
      else
        (collectMoves entries old oldPrefix newPrefix rest).map (path :: ·)
    else
      collectMoves entries old oldPrefix newPrefix rest

def moveChild (oldPrefix newPrefix : Str) (entries : Entries)
    (oldChildPath : Str) : Entries :=
  match entries.find oldChildPath with
  | some childEntry =>
    (Assoc.del entries oldChildPath).put
      (newPrefix ++ oldChildPath.drop oldPrefix.length) childEntry
  | none => entries

def rename (oldPath newPath : Str) (entries : Entries) :
    Except Error Unit × Entries :=
  let old := normalizePath oldPath
  let new := normalizePath newPath
  match entries.find old with
  | none => (.error (.notFound old), entries)
  | some entry =>
    if (entries.find new).isSome then
      (.error (.alreadyExists new), entries)
    else
      match checkParent entries new with
      | .error e => (.error e, entries)
      | .ok () =>
        match collectMoves entries old (childPrefix old) (childPrefix new)
            (entries.bindings.map Prod.fst) with
        | .error e => (.error e, entries)
        | .ok toMove =>
          (.ok (), toMove.foldl
            (moveChild (childPrefix old) (childPrefix new))
            ((Assoc.del entries old).put new entry))

def replaceMessage : Str :=
  "replace only supports files in memfs".toList

def replace (srcPath dstPath : Str) (entries : Entries) :
    Except Error Unit × Entries :=
  let src := normalizePath srcPath
  let dst := normalizePath dstPath
  match entries.find src with
  | none => (.error (.notFound src), entries)
  | some srcEntry =>
    if srcEntry.isDir then
      (.error (.invalidOperation replaceMessage), entries)
    else
      match checkParent entries dst with
      | .error e => (.error e, entries)
      | .ok () =>
        if (entries.find dst).any FileEntry.isDir then
          (.error (.isADirectory dst), entries)
        else
          (.ok (),
            (Assoc.del (Assoc.del entries dst) src).put dst srcEntry)

def truncate (path : Str) (size : Nat)
    (entries : Entries) : Except Error Unit × Entries :=
  let normalized := normalizePath path
  match entries.find normalized with
  | some entry =>
    if entry.isDir then
      (.error (.isADirectory normalized), entries)
    else
      (.ok (), entries.put normalized
        ({ entry with data := resize size entry.data }.touch now))
  | none => (.error (.notFound normalized), entries)

/-!
# Runs

A call names its files by canonical absolute paths.
-/

inductive Call where
  | create (path : Path)
  | mkdir (path : Path) (mode : Nat)
  | write (path : Path) (data : Bytes) (offset : Nat) (flags : WriteFlag)
  | remove (path : Path)
  | removeAll (path : Path)
  | rename (old new : Path)
  | replace (src dst : Path)
  | truncate (path : Path) (size : Nat)

/-- The answer of a call, without the number that `write` answers. -/
def Call.perform :
    Call -> Entries -> Except Error Unit × Entries
  | create path, entries => Memfs.create now (absolute path) entries
  | mkdir path mode, entries => Memfs.mkdir now (absolute path) mode entries
  | write path data offset flags, entries =>
    match Memfs.write now (absolute path) data offset flags entries with
    | (.error e, entries) => (.error e, entries)
    | (.ok _, entries) => (.ok (), entries)
  | remove path, entries => Memfs.remove (absolute path) entries
  | removeAll path, entries => Memfs.removeAll (absolute path) entries
  | rename old new, entries =>
    Memfs.rename (absolute old) (absolute new) entries
  | replace src dst, entries =>
    Memfs.replace (absolute src) (absolute dst) entries
  | truncate path size, entries =>
    Memfs.truncate now (absolute path) size entries

/-- The map after calls at the given times. -/
def after (calls : List (SystemTime × Call)) (entries : Entries) : Entries :=
  calls.foldl (fun entries call => (call.2.perform call.1 entries).2) entries

/-!
# Canonical paths in the memory file system

On canonical absolute paths the text operations of `MemFileSystem` are the
operations on component lists.
-/

@[simp] theorem normalizePath_absolute (p : Path) :
    normalizePath (absolute p) = absolute p := by
  rw [normalizePath]
  by_cases hp : p = []
  · rw [if_pos (Or.inr (absolute_eq_root.mpr hp)), hp, absolute_nil]
  have hroot : ¬ (absolute p = [] ∨ absolute p = ['/']) := by
    intro h
    rcases h with h | h
    · exact cons_ne_nil _ _ h
    · exact hp (absolute_eq_root.mp h)
  have hlast : (absolute p).getLast? ≠ some '/' := by
    intro h
    apply last_render_ne_slash hp
    rw [absolute, getLast?_cons] at h
    cases hrender : (render p).getLast? with
    | none =>
      exact absurd (getLast?_eq_none_iff.mp hrender) (render_ne_nil hp)
    | some c =>
      rw [hrender] at h
      simpa using h
  rw [if_neg hroot]
  simp only [absolute, head?_cons, if_true]
  rw [if_neg]
  intro h
  exact hlast h.2

theorem parentPath_absolute (p : Path) :
    parentPath (absolute p) =
      if p = [] then none else some (absolute p.dropLast) := by
  rw [parentPath]
  by_cases hp : p = []
  · rw [if_pos (absolute_eq_root.mpr hp), if_pos hp]
  rw [if_neg fun h => hp (absolute_eq_root.mp h), if_neg hp,
    normalizePath_absolute]
  simp only [splitOn_absolute hp, length_cons, length_map]
  split
  · rename_i hlen
    have hnil : p.dropLast = [] := by
      rw [← length_eq_zero_iff, length_dropLast]
      omega
    rw [hnil, absolute_nil]
  · rename_i hlen
    have hnil : p.dropLast ≠ [] := by
      rw [Ne, ← length_eq_zero_iff, length_dropLast]
      omega
    have hmap : p.map Name.chars ≠ [] := by simpa using hp
    rw [dropLast_cons_of_ne_nil hmap, ← map_dropLast, absolute,
      render_eq_intercalate]
    cases hdirs : p.dropLast with
    | nil => exact absurd hdirs hnil
    | cons name rest => simp [intercalate_cons_cons]

@[simp] theorem childPrefix_absolute (p : Path) :
    childPrefix (absolute p) = below p := by
  simp only [childPrefix, below, absolute_eq_root]

theorem child_moved (old new : Path) {r : Path} (hr : r ≠ []) :
    below new ++ (absolute (old ++ r)).drop (below old).length =
      absolute (new ++ r) := by
  rw [absolute_append old hr, drop_left, absolute_append new hr]

theorem below_prefix_absolute_iff {p q : Path} :
    (absolute q ≠ absolute p ∧ below p <+: absolute q) <-> Below p q := by
  by_cases hq : q = []
  · rw [hq]
    constructor
    · intro h
      rcases h with ⟨hne, t, ht⟩
      have hp : p ≠ [] := fun hp => hne (by rw [hp])
      rw [below, if_neg hp] at ht
      have hlen := congrArg length ht
      simp [absolute] at hlen
    · intro h
      exact absurd (prefix_nil.mp h.isPrefix) h.ne
  · rw [below_prefix_iff hq, Ne, absolute_inj]
    exact ⟨fun h => h.2, fun h => ⟨h.ne.symm, h⟩⟩

end Memfs
end OpenViking
