import OpenViking.Common.Path
import OpenViking.Common.Segments
import OpenViking.Common.Emitted

/-!
# Paths of a traversal

A traversal starts at a query root, adds one name after the other to the path
it visits, and shows the path of an entry relative to the root.
-/

namespace OpenViking
namespace Ragfs

open Paths List
open Segments

/-- Trailing slashes are stripped; the root stays. -/
def normalizePrefixPath (path : Str) : Str :=
  if path = ['/'] then ['/'] else stripRight '/' path

/-- `trim_start_matches('/')`. -/
def trimStart (path : Str) : Str :=
  path.dropWhile fun c => decide (c = '/')

/-- `strip_prefix`. -/
def stripStart (start path : Str) : Option Str :=
  if start <+: path then some (path.drop start.length) else none

def isExcludedPath (path excludePath : Str) : Bool :=
  if excludePath = ['/'] then true
  else
    decide (path = excludePath) ||
      match stripStart excludePath path with
      | some suffix => suffix.head? == some '/'
      | none => false

def relativeMatchFile (queryRoot path : Str) : Str :=
  let base := normalizePrefixPath queryRoot
  if path = base then ['.']
  else if base = ['/'] then trimStart path
  else
    match stripStart base path with
    | some rest => if trimStart rest = [] then ['.'] else trimStart rest
    | none => trimStart path

def relativeDepth (rel : Str) : Nat :=
  if rel = [] ∨ rel = ['.'] then 0 else (segments '/' rel).length

def entryPath (current name : Str) : Str :=
  if current = ['/'] then '/' :: name else current ++ '/' :: name

/-!
# Places below a root
-/

/-- A name of a directory entry. -/
def IsName (name : Str) : Prop :=
  IsPiece '/' name ∧ name ≠ ['.']

instance (name : Str) : Decidable (IsName name) :=
  inferInstanceAs (Decidable ((_ ∧ _) ∧ _))

/-- The path that is reached from the root by the names. -/
def located (base : Str) (names : List Str) : Str :=
  names.foldl entryPath base

def relative (names : List Str) : Str :=
  match names with
  | [] => ['.']
  | name :: rest => (rooted '/' (name :: rest)).tail

theorem normalizePrefixPath_idem (path : Str) :
    normalizePrefixPath (normalizePrefixPath path) =
      normalizePrefixPath path := by
  unfold normalizePrefixPath
  by_cases hroot : path = ['/']
  · rw [if_pos hroot, if_pos rfl]
  · rw [if_neg hroot]
    split
    · rename_i heq
      exact heq.symm
    · exact rdropWhile_idempotent _ _

theorem located_concat (base : Str) (names : List Str) (name : Str) :
    located base (names ++ [name]) = entryPath (located base names) name := by
  rw [located, foldl_append]
  rfl

theorem cons_append_ne_root {name : Str} (h : IsName name) (xs : Str) :
    xs ++ '/' :: name ≠ ['/'] := by
  intro heq
  have hlen := congrArg length heq
  have hpos := length_pos_iff.mpr h.1.1
  simp only [length_append, length_cons, length_nil] at hlen
  omega

variable {names : List Str}

theorem foldl_entryPath (hnames : forall n, n ∈ names -> IsName n)
    {current : Str} (hroot : current ≠ ['/']) :
    names.foldl entryPath current = current ++ rooted '/' names := by
  induction names generalizing current with
  | nil =>
    rw [foldl_nil]
    exact (append_nil current).symm
  | cons name rest ih =>
    have hname := hnames name mem_cons_self
    have hrest := ih (fun n hn => hnames n (mem_cons_of_mem _ hn))
      (cons_append_ne_root hname current)
    rw [foldl_cons, entryPath, if_neg hroot, hrest, rooted_cons,
      append_assoc, cons_append]

/-- The text before the names. -/
def baseText (base : Str) : Str :=
  if base = ['/'] then [] else base

theorem located_eq {base : Str}
    (hnames : forall n, n ∈ names -> IsName n) (hne : names ≠ []) :
    located base names = baseText base ++ rooted '/' names := by
  unfold baseText
  by_cases hroot : base = ['/']
  · cases names with
    | nil => exact absurd rfl hne
    | cons name rest =>
      have hname := hnames name mem_cons_self
      have hrest := foldl_entryPath
        (fun n hn => hnames n (mem_cons_of_mem _ hn))
        (cons_append_ne_root hname [])
      rw [nil_append] at hrest
      rw [if_pos hroot, located, foldl_cons, entryPath, if_pos hroot,
        hrest, rooted_cons]
      rfl
  · rw [if_neg hroot, located, foldl_entryPath hnames hroot]

/-!
# Relative paths
-/

theorem rooted_eq_cons (hne : names ≠ []) :
    rooted '/' names = '/' :: relative names := by
  cases names with
  | nil => exact absurd rfl hne
  | cons name rest => rw [relative, rooted_cons, tail_cons]

theorem relative_ne_nil
    (hnames : forall n, n ∈ names -> IsName n) : relative names ≠ [] := by
  cases names with
  | nil => exact cons_ne_nil _ _
  | cons name rest =>
    have hname := (hnames name mem_cons_self).1.1
    rw [relative, rooted_cons, tail_cons]
    exact fun h => hname (append_eq_nil_iff.mp h).1

theorem trimStart_rooted
    (hnames : forall n, n ∈ names -> IsName n) (hne : names ≠ []) :
    trimStart (rooted '/' names) = relative names := by
  rw [rooted_eq_cons hne, trimStart, dropWhile_cons_of_pos (by simp)]
  cases names with
  | nil => exact absurd rfl hne
  | cons name rest =>
    have hname := (hnames name mem_cons_self).1
    rw [relative, rooted_cons, tail_cons]
    cases name with
    | nil => exact absurd rfl hname.1
    | cons c cs =>
      have hc : c ≠ '/' := fun h => hname.2 (h ▸ mem_cons_self)
      rw [cons_append, dropWhile_cons_of_neg (by simpa using hc)]

theorem relativeMatchFile_located {base : Str}
    (hbase : normalizePrefixPath base = base)
    (hnames : forall n, n ∈ names -> IsName n) :
    relativeMatchFile base (located base names) = relative names := by
  rw [relativeMatchFile, hbase]
  by_cases hne : names = []
  · rw [hne, located, foldl_nil, if_pos rfl, relative]
  have htrim := trimStart_rooted hnames hne
  have hloc : located base names = baseText base ++ rooted '/' names :=
    located_eq hnames hne
  have hlong : rooted '/' names ≠ [] := by
    rw [rooted_eq_cons hne]
    exact cons_ne_nil _ _
  by_cases hroot : base = ['/']
  · have hother : located base names ≠ base := by
      rw [hloc, baseText, if_pos hroot, nil_append, hroot,
        rooted_eq_cons hne]
      exact fun h => relative_ne_nil hnames (cons.inj h).2
    rw [if_neg hother, if_pos hroot, hloc, baseText, if_pos hroot,
      nil_append, htrim]
  · have hother : located base names ≠ base := by
      rw [hloc, baseText, if_neg hroot]
      exact fun h => hlong (append_right_eq_self.mp h)
    have hstrip : stripStart base (located base names) =
        some (rooted '/' names) := by
      rw [hloc, baseText, if_neg hroot, stripStart,
        if_pos (prefix_append _ _), drop_left]
    rw [if_neg hother, if_neg hroot, hstrip]
    dsimp only
    rw [htrim, if_neg (relative_ne_nil hnames)]

theorem relative_injective {xs ys : List Str}
    (hxs : forall n, n ∈ xs -> IsName n) (hys : forall n, n ∈ ys -> IsName n)
    (hx : xs ≠ []) (hy : ys ≠ []) (h : relative xs = relative ys) :
    xs = ys := by
  apply rooted_injective (fun n hn => (hxs n hn).1) fun n hn => (hys n hn).1
  rw [rooted_eq_cons hx, rooted_eq_cons hy, h]

theorem segments_relative
    (hnames : forall n, n ∈ names -> IsName n) (hne : names ≠ []) :
    segments '/' (relative names) = names := by
  rw [← segments_cons '/' (relative names), ← rooted_eq_cons hne]
  exact segments_rooted fun n hn => (hnames n hn).1

theorem relativeDepth_relative
    (hnames : forall n, n ∈ names -> IsName n) :
    relativeDepth (relative names) = names.length := by
  by_cases hne : names = []
  · rw [hne]
    rfl
  have hdot : relative names ≠ ['.'] := by
    intro h
    have hparts := segments_relative hnames hne
    have hsingle : names = [['.']] := by
      rw [← hparts, h]
      decide
    have hmem := hnames ['.'] (hsingle ▸ mem_cons_self)
    exact hmem.2 rfl
  rw [relativeDepth, if_neg (not_or.mpr ⟨relative_ne_nil hnames, hdot⟩),
    segments_relative hnames hne]

/-!
# Traversal of a directory tree

The default traversal reads the directories recursively, sorts each listing,
and stops at a node limit and at a level limit.
-/

open Emitted

structure FileInfo where
  name : Str
  isDir : Bool
deriving DecidableEq

structure TreeEntry where
  path : Str
  relPath : Str
  info : FileInfo
deriving DecidableEq

/--
A backend whose directories do not change.  Directories are not nested without
end, and the entries of a directory have different names.
-/
structure Tree (ε : Type) where
  readDir : Str -> Except ε (List FileInfo)
  height : Str -> Nat
  descends : forall (path : Str) (entries : List FileInfo),
    readDir path = .ok entries ->
      forall e, e ∈ entries -> e.isDir = true ->
        height (entryPath path e.name) < height path
  names : forall (path : Str) (entries : List FileInfo),
    readDir path = .ok entries -> forall e, e ∈ entries -> IsName e.name
  distinct : forall (path : Str) (entries : List FileInfo),
    readDir path = .ok entries -> (entries.map FileInfo.name).Nodup

/-- Directories first, then the name in lower case, then the name. -/
def listingLe (toLower : Str -> Str) (a b : FileInfo) : Bool :=
  if a.isDir = b.isDir then
    if toLower a.name = toLower b.name then decide (a.name ≤ b.name)
    else decide (toLower a.name ≤ toLower b.name)
  else a.isDir

def sortDirectoryEntries (toLower : Str -> Str) (entries : List FileInfo) :
    List FileInfo :=
  entries.mergeSort (listingLe toLower)

/-- Hidden files are skipped; hidden directories are not. -/
def isShown (showHidden : Bool) (entry : FileInfo) : Bool :=
  !(!entry.isDir && entry.name.head? == some '.' && !showHidden)

def treeEntry (base current : Str) (entry : FileInfo) : TreeEntry where
  path := entryPath current entry.name
  relPath := relativeMatchFile base (entryPath current entry.name)
  info := entry

section Traversal

variable {ε : Type} (tree : Tree ε)

/-- The loop over the entries of a directory. -/
def visitEntries (showHidden : Bool) (nodeLimit : Option Nat)
    (base current : Str)
    (descend : Str -> List TreeEntry -> Except ε (List TreeEntry)) :
    List FileInfo -> List TreeEntry -> Except ε (List TreeEntry)
  | [], result => .ok result
  | entry :: rest, result =>
    if reached nodeLimit result.length then .ok result
    else if !isShown showHidden entry then
      visitEntries showHidden nodeLimit base current descend rest result
    else
      let pushed := result ++ [treeEntry base current entry]
      if entry.isDir then
        (descend (entryPath current entry.name) pushed).bind
          (visitEntries showHidden nodeLimit base current descend rest)
      else
        visitEntries showHidden nodeLimit base current descend rest pushed

def treeDirectoryInternal (toLower : Str -> Str) (showHidden : Bool)
    (nodeLimit levelLimit : Option Nat) (base : Str) :
    Nat -> Str -> List TreeEntry -> Except ε (List TreeEntry)
  | 0, _, result => .ok result
  | fuel + 1, current, result =>
    if reached nodeLimit result.length then .ok result
    else if reached levelLimit
        (relativeDepth (relativeMatchFile base current)) then
      .ok result
    else
      match tree.readDir current with
      | .error e => .error e
      | .ok entries =>
        visitEntries showHidden nodeLimit base current
          (treeDirectoryInternal toLower showHidden nodeLimit levelLimit
            base fuel)
          (sortDirectoryEntries toLower entries) result

/-- The height of the root bounds the depth of the recursion. -/
def treeDirectory (toLower : Str -> Str) (path : Str) (showHidden : Bool)
    (nodeLimit levelLimit : Option Nat) : Except ε (List TreeEntry) :=
  let base := normalizePrefixPath path
  treeDirectoryInternal tree toLower showHidden nodeLimit levelLimit base
    (tree.height base + 1) base []

end Traversal

/-!
# What a traversal meets

Without a node limit the traversal meets entries until a directory cannot be
read.
-/

section Walk

variable {ε : Type} (tree : Tree ε) (order : List FileInfo -> List FileInfo)
  (showHidden : Bool) (levelLimit : Option Nat) (base : Str)

def walkEntry (below : Str -> Emitted ε TreeEntry) (current : Str)
    (entry : FileInfo) : Emitted ε TreeEntry :=
  if isShown showHidden entry then
    (one (treeEntry base current entry)).andThen
      (if entry.isDir then below (entryPath current entry.name) else nothing)
  else nothing

def walk : Nat -> Str -> Emitted ε TreeEntry
  | 0, _ => nothing
  | fuel + 1, current =>
    if reached levelLimit
        (relativeDepth (relativeMatchFile base current)) then nothing
    else
      match tree.readDir current with
      | .error e => fail e
      | .ok entries =>
        each (walkEntry showHidden base (walk fuel) current)
          (order entries)

end Walk

section Collects

variable {ε : Type} (showHidden : Bool) (nodeLimit : Option Nat) (base : Str)

theorem visitEntries_eq_collect
    {descend : Str -> List TreeEntry -> Except ε (List TreeEntry)}
    {below : Str -> Emitted ε TreeEntry}
    (hdescend : forall (path : Str) (result : List TreeEntry),
      descend path result = collect nodeLimit result (below path))
    (current : Str) (entries : List FileInfo) (result : List TreeEntry) :
    visitEntries showHidden nodeLimit base current descend entries result =
      collect nodeLimit result
        (each (walkEntry showHidden base below current) entries) := by
  induction entries generalizing result with
  | nil => exact (collect_nothing nodeLimit result).symm
  | cons entry rest ih =>
    rw [visitEntries, each, collect_andThen]
    cases hroom : reached nodeLimit result.length with
    | true =>
      rw [if_pos rfl, collect_of_reached hroom]
      exact (collect_of_reached hroom _).symm
    | false =>
      rw [if_neg Bool.false_ne_true, walkEntry]
      cases hshown : isShown showHidden entry with
      | false =>
        rw [if_pos (by rfl), if_neg Bool.false_ne_true, collect_nothing]
        exact ih result
      | true =>
        rw [if_neg (by simp), if_pos rfl, collect_andThen, collect_one hroom]
        cases hdir : entry.isDir with
        | false =>
          rw [if_neg Bool.false_ne_true, if_neg Bool.false_ne_true, ih]
          show _ = (collect nodeLimit _ nothing).bind _
          rw [collect_nothing]
          rfl
        | true =>
          rw [if_pos rfl, if_pos rfl, hdescend]
          exact congrArg _ (funext ih)

theorem treeDirectoryInternal_eq_collect (tree : Tree ε) (toLower : Str -> Str)
    (levelLimit : Option Nat) (fuel : Nat) (current : Str)
    (result : List TreeEntry) :
    treeDirectoryInternal tree toLower showHidden nodeLimit levelLimit base fuel
        current result =
      collect nodeLimit result
        (walk tree (sortDirectoryEntries toLower) showHidden levelLimit base
          fuel current) := by
  induction fuel generalizing current result with
  | zero => exact (collect_nothing nodeLimit result).symm
  | succ fuel ih =>
    rw [treeDirectoryInternal, walk]
    cases hroom : reached nodeLimit result.length with
    | true =>
      rw [if_pos rfl, collect_of_reached hroom]
    | false =>
      rw [if_neg Bool.false_ne_true]
      split
      · exact (collect_nothing nodeLimit result).symm
      · cases tree.readDir current with
        | error e => exact (collect_fail hroom e).symm
        | ok entries =>
          exact visitEntries_eq_collect showHidden nodeLimit base ih
            current _ result

end Collects

/-!
# Enough fuel
-/

theorem walk_order {ε : Type} {tree : Tree ε}
    {order order' : List FileInfo -> List FileInfo}
    (h : forall (path : Str) (entries : List FileInfo),
      tree.readDir path = .ok entries -> order entries = order' entries)
    (showHidden : Bool) (levelLimit : Option Nat) (base : Str) (fuel : Nat)
    (current : Str) :
    walk tree order showHidden levelLimit base fuel current =
      walk tree order' showHidden levelLimit base fuel current := by
  induction fuel generalizing current with
  | zero => rfl
  | succ fuel ih =>
    rw [walk, walk, funext ih]
    cases hread : tree.readDir current with
    | error e => rfl
    | ok entries =>
      dsimp only
      rw [h current entries hread]

theorem sortDirectoryEntries_perm (toLower : Str -> Str)
    (entries : List FileInfo) :
    (sortDirectoryEntries toLower entries).Perm entries :=
  mergeSort_perm _ _

end Ragfs
end OpenViking
