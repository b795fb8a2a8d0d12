import OpenViking.Git.Tree

/-!
# The tree editor

The editor keeps the root directory and, for every directory it has touched,
the decoded entries under the directory's path.  Directories that were never
touched stay as the subtree ids of their entries.
-/

namespace OpenViking
namespace Git

open Paths

structure TreeEditor where
  root : TreeEntries
  subtrees : Assoc Path TreeEntries

namespace TreeEditor

def empty : TreeEditor where
  root := ∅
  subtrees := ∅

def fromTree (t : Tree) : TreeEditor where
  root := t.loadTreeEntries
  subtrees := ∅

variable (e : TreeEditor)

/-- The in-memory entries of a directory: the root, or a loaded subtree. -/
def entriesAt (dir : Path) : Option TreeEntries :=
  if dir = [] then some e.root else e.subtrees.find dir

def setEntriesAt (dir : Path) (entries : TreeEntries) :
    TreeEditor :=
  if dir = [] then
    { e with root := entries }
  else
    { e with subtrees := e.subtrees.put dir entries }

/-- The split of a path into its parent directories and its file name. -/
def splitLast (p : Path) : Except GitError (Path × Name) :=
  match p.getLast? with
  | none => .error (.other "empty path")
  | some filename => .ok (p.dropLast, filename)

/--
Load every directory of `parentDirs` under `done`, top down.  The flag tells
whether all of them are present; with `createMissing` they always are.
-/
def ensurePathLoaded (e : TreeEditor) (createMissing : Bool) :
    (done parentDirs : Path) -> Except GitError (TreeEditor × Bool)
  | _, [] => .ok (e, true)
  | done, dirName :: rest =>
    let childKey := done ++ [dirName]
    if (e.subtrees.find childKey).isSome then
      ensurePathLoaded e createMissing childKey rest
    else
      match e.entriesAt done with
      | none => .error (.other "subtree not loaded")
      | some parent =>
        match parent.find dirName with
        | some (.tree (some t)) =>
          ensurePathLoaded (e.setEntriesAt childKey t.loadTreeEntries)
            createMissing childKey rest
        | some (.tree none) =>
          ensurePathLoaded (e.setEntriesAt childKey ∅)
            createMissing childKey rest
        | _ =>
          if createMissing then
            ensurePathLoaded
              ((e.setEntriesAt done
                  (parent.put dirName (.tree none))).setEntriesAt
                childKey ∅)
              createMissing childKey rest
          else
            .ok (e, false)

def upsert (path : Path) (oid : BlobId) :
    Except GitError TreeEditor := do
  let (parentDirs, filename) <- splitLast path
  if parentDirs = [] then
    return e.setEntriesAt [] (e.root.put filename (.blob oid))
  else
    let (e, _) <- e.ensurePathLoaded true [] parentDirs
    let subtree := (e.subtrees.find parentDirs).getD ∅
    return e.setEntriesAt parentDirs (subtree.put filename (.blob oid))

def remove (path : Path) : Except GitError TreeEditor := do
  let (parentDirs, filename) <- splitLast path
  if parentDirs = [] then
    return e.setEntriesAt [] (e.root.del filename)
  else
    let (e, present) <- e.ensurePathLoaded false [] parentDirs
    if present then
      match e.subtrees.find parentDirs with
      | some subtree =>
        return e.setEntriesAt parentDirs (subtree.del filename)
      | none => return e
    else
      return e

def upsertSubtree (path : Path) (subtreeOid : Tree) :
    Except GitError TreeEditor := do
  let (parentDirs, dirname) <- splitLast path
  let (e, _) <- e.ensurePathLoaded true [] parentDirs
  let parent := (e.entriesAt parentDirs).getD ∅
  let e := e.setEntriesAt parentDirs
    (parent.put dirname (.tree (some subtreeOid)))
  return { e with subtrees := e.subtrees.retain fun k _ => !decide (path <+: k) }

/-!
# Writing the edited tree
-/

/-- The stored tree with the given entries; the null id is an empty tree. -/
def treeOfEntries : List (Name × Entry) -> Tree
  | [] => .nil
  | (name, .blob oid) :: rest => .blob name oid (treeOfEntries rest)
  | (name, .tree oid) :: rest =>
    .dir name (oid.getD .nil) (treeOfEntries rest)

/-- Git sorts entries by name, a directory as if its name ended in a slash. -/
def sortKey (b : Name × Entry) : Str :=
  if b.2.isTree then b.1.chars ++ ['/'] else b.1.chars

def EntryLe (a b : Name × Entry) : Prop :=
  sortKey a ≤ sortKey b

instance : DecidableRel EntryLe :=
  fun a b => inferInstanceAs (Decidable (sortKey a ≤ sortKey b))

/--
The tree object for the directory `pre` with entries `entries`.  A loaded
subdirectory is written recursively and dropped when it has no entries.  The
fuel bounds the nesting depth of loaded directories.
-/
def writeSubtree (e : TreeEditor) : Nat -> Path -> TreeEntries -> Tree
  | 0, _, _ => .nil
  | fuel + 1, pre, entries =>
    treeOfEntries <|
      (entries.bindings.filterMap fun b =>
        match b.2 with
        | .blob oid => some (b.1, .blob oid)
        | .tree oid =>
          match e.subtrees.find (pre ++ [b.1]) with
          | some childEntries =>
            if childEntries.keys = [] then
              none
            else
              some (b.1, .tree (some
                (writeSubtree e fuel (pre ++ [b.1]) childEntries)))
          | none => some (b.1, .tree oid)).insertionSort EntryLe

/-- One more than the length of the longest loaded directory path. -/
def depth : Nat :=
  (e.subtrees.keys.map List.length).foldr max 0 + 1

def write : Tree :=
  e.writeSubtree e.depth [] e.root

end TreeEditor

/-!
# What an editor state stands for

`get?` reads a path through the editor the way `write` will later store it: a
loaded directory is read from memory, any other from its subtree id.  An
in-memory directory that no entry points to any more is never reached.
-/

namespace TreeEditor

/-- The entries of the child directory `dir` whose entry has the given id. -/
def childEntries (subtrees : Path -> Option TreeEntries) (dir : Path)
    (oid : Option Tree) : TreeEntries :=
  (subtrees dir).getD (oid.getD .nil).loadTreeEntries

/-- Read a path below the directory `pre` with the given entries. -/
def getFrom (subtrees : Path -> Option TreeEntries) :
    (pre : Path) -> TreeEntries -> Path -> Option Entry
  | _, _, [] => none
  | pre, entries, name :: rest =>
    match entries.find name with
    | none => none
    | some entry =>
      if rest = [] then
        some entry
      else
        match entry with
        | .tree oid =>
          getFrom subtrees (pre ++ [name])
            (childEntries subtrees (pre ++ [name]) oid) rest
        | .blob _ => none

def get? (e : TreeEditor) (p : Path) : Option Entry :=
  getFrom e.subtrees.find [] e.root p

/-- The edited tree as a map of files. -/
def blobAt (e : TreeEditor) (p : Path) : Option BlobId :=
  (e.get? p).bind Entry.blob?

/-- The path is a directory of the edited tree. -/
def IsDir (e : TreeEditor) (p : Path) : Prop :=
  p = [] ∨ exists oid, e.get? p = some (.tree oid)

/-- The path is held in memory. -/
def Loaded (e : TreeEditor) (p : Path) : Prop :=
  (e.entriesAt p).isSome

/-!
# Reading through directories
-/

@[simp] theorem getFrom_nil (subtrees : Path -> Option TreeEntries)
    (pre : Path) (entries : TreeEntries) :
    getFrom subtrees pre entries [] = none := rfl

@[simp] theorem getFrom_singleton (subtrees : Path -> Option TreeEntries)
    (pre : Path) (entries : TreeEntries) (name : Name) :
    getFrom subtrees pre entries [name] = entries.find name := by
  rw [getFrom]
  cases entries.find name <;> simp

theorem getFrom_cons (subtrees : Path -> Option TreeEntries) (pre : Path)
    (entries : TreeEntries) (name : Name) {rest : Path} (hrest : rest ≠ []) :
    getFrom subtrees pre entries (name :: rest) =
      match entries.find name with
      | some (.tree oid) =>
        getFrom subtrees (pre ++ [name])
          (childEntries subtrees (pre ++ [name]) oid) rest
      | _ => none := by
  rw [getFrom]
  cases entries.find name with
  | none => rfl
  | some entry => cases entry <;> simp [hrest]

@[simp] theorem getFrom_empty (subtrees : Path -> Option TreeEntries)
    (pre p : Path) : getFrom subtrees pre ∅ p = none := by
  cases p with
  | nil => rfl
  | cons name rest => simp [getFrom]

variable {p q : Path}

theorem getFrom_append (subtrees : Path -> Option TreeEntries) (pre : Path)
    (entries : TreeEntries) (hp : p ≠ []) (hq : q ≠ []) :
    getFrom subtrees pre entries (p ++ q) =
      match getFrom subtrees pre entries p with
      | some (.tree oid) =>
        getFrom subtrees (pre ++ p) (childEntries subtrees (pre ++ p) oid) q
      | _ => none := by
  induction p generalizing pre entries with
  | nil => exact absurd rfl hp
  | cons name rest ih =>
    by_cases hrest : rest = []
    · subst hrest
      rw [List.cons_append, List.nil_append,
        getFrom_cons subtrees pre entries name hq, getFrom_singleton]
    have happ : rest ++ q ≠ [] := by simp [hrest]
    rw [List.cons_append, getFrom_cons subtrees pre entries name happ,
      getFrom_cons subtrees pre entries name hrest]
    cases entries.find name with
    | none => rfl
    | some entry =>
      cases entry with
      | blob oid => rfl
      | tree oid =>
        simp only
        rw [ih (pre ++ [name]) _ hrest, List.append_assoc, List.singleton_append]

variable {entries : TreeEntries}

variable {subtrees : Path -> Option TreeEntries}

theorem getFrom_congr {subtrees' : Path -> Option TreeEntries}
    {pre : Path} {p : Path}
    (h : forall d, d ≠ [] -> Below d p ->
      subtrees (pre ++ d) = subtrees' (pre ++ d)) :
    getFrom subtrees pre entries p = getFrom subtrees' pre entries p := by
  induction p generalizing pre entries with
  | nil => rfl
  | cons name rest ih =>
    by_cases hrest : rest = []
    · subst hrest
      rw [getFrom_singleton, getFrom_singleton]
    rw [getFrom_cons _ _ _ _ hrest, getFrom_cons _ _ _ _ hrest]
    have hchild : subtrees (pre ++ [name]) = subtrees' (pre ++ [name]) :=
      h [name] (by simp) (below_iff_exists.mpr ⟨rest, hrest, rfl⟩)
    cases entries.find name with
    | none => rfl
    | some entry =>
      cases entry with
      | blob oid => rfl
      | tree oid =>
        simp only [childEntries, hchild]
        apply ih
        intro d hd hbelow
        rcases below_iff_exists.mp hbelow with ⟨r, hr, rfl⟩
        have := h (name :: d) (by simp) (below_iff_exists.mpr ⟨r, hr, rfl⟩)
        simpa using this

theorem getFrom_eq_none_of_below {pre : Path} (hp : p ≠ []) (h : forall oid,
      getFrom subtrees pre entries p ≠ some (.tree oid))
    (hbelow : Below p q) : getFrom subtrees pre entries q = none := by
  rcases below_iff_exists.mp hbelow with ⟨r, hr, rfl⟩
  rw [getFrom_append subtrees pre entries hp hr]
  cases hget : getFrom subtrees pre entries p with
  | none => rfl
  | some entry =>
    cases entry with
    | blob oid => rfl
    | tree oid => exact absurd hget (h oid)

theorem get?_append (e : TreeEditor) (hp : p ≠ [])
    (hq : q ≠ []) :
    e.get? (p ++ q) =
      match e.get? p with
      | some (.tree oid) =>
        getFrom e.subtrees.find p (childEntries e.subtrees.find p oid) q
      | _ => none := by
  unfold get?
  rw [getFrom_append _ _ _ hp hq]
  rfl

variable {e : TreeEditor}

theorem get?_eq_none_of_below
    (h : ¬ e.IsDir p) (hbelow : Below p q) : e.get? q = none := by
  apply getFrom_eq_none_of_below (p := p)
  · intro hp
    exact h (Or.inl hp)
  · intro oid hget
    exact h (Or.inr ⟨oid, hget⟩)
  · exact hbelow

theorem IsDir.of_below (h : e.IsDir q)
    (hbelow : Below p q) : e.IsDir p := by
  by_contra hp
  rcases h with rfl | ⟨oid, hget⟩
  · exact not_below_self [] (below_of_isPrefix_of_below List.nil_prefix hbelow)
  · rw [get?_eq_none_of_below hp hbelow] at hget
    cases hget

theorem blobAt_eq_some_iff {p : Path} {oid : BlobId} :
    e.blobAt p = some oid <-> e.get? p = some (Entry.blob oid) := by
  unfold blobAt
  cases e.get? p with
  | none => simp
  | some entry => cases entry <;> simp [Entry.blob?]

theorem blobAt_eq_none_of_below
    (h : ¬ e.IsDir p) (hbelow : Below p q) : e.blobAt q = none := by
  unfold blobAt
  rw [get?_eq_none_of_below h hbelow]
  rfl

theorem blobAt_of_isDir {p : Path} (h : e.IsDir p) :
    e.blobAt p = none := by
  rcases h with rfl | ⟨oid, hget⟩
  · rfl
  · unfold blobAt
    rw [hget]
    rfl

/-- The entries through which `get?` reads the directory. -/
def dirEntries (e : TreeEditor) (p : Path) : TreeEntries :=
  if p = [] then
    e.root
  else
    match e.get? p with
    | some (.tree oid) => childEntries e.subtrees.find p oid
    | _ => ∅

theorem get?_append_of_isDir {p : Path} (h : e.IsDir p)
    (q : Path) :
    e.get? (p ++ q) =
      if q = [] then e.get? p
      else getFrom e.subtrees.find p (e.dirEntries p) q := by
  by_cases hq : q = []
  · simp [hq]
  rw [if_neg hq]
  by_cases hp : p = []
  · subst hp
    simp [dirEntries, get?]
  · rcases h with hnil | ⟨oid, hget⟩
    · exact absurd hnil hp
    · rw [get?_append e hp hq, hget]
      simp [dirEntries, hp, hget]

theorem dirEntries_of_entriesAt {p : Path} (h : e.IsDir p)
    (hload : e.entriesAt p = some entries) : e.dirEntries p = entries := by
  unfold dirEntries
  unfold entriesAt at hload
  by_cases hp : p = []
  · rw [if_pos hp] at hload ⊢
    simpa using hload
  · rw [if_neg hp] at hload ⊢
    rcases h with hnil | ⟨oid, hget⟩
    · exact absurd hnil hp
    · rw [hget]
      simp [childEntries, hload]

/-!
# Replacing the entries of one directory
-/

variable {dir : Path}

theorem get?_setEntriesAt_of_not_below (e : TreeEditor) {p : Path}
    (entries : TreeEntries) (h : ¬ Below dir p) :
    (e.setEntriesAt dir entries).get? p = e.get? p := by
  unfold setEntriesAt
  by_cases hdir : dir = []
  · subst hdir
    have hp : p = [] := by
      by_contra hp
      exact h (nil_below_iff.mpr hp)
    subst hp
    rfl
  · rw [if_neg hdir]
    apply getFrom_congr
    intro d hd hbelow
    have hne : [] ++ d ≠ dir := by
      intro heq
      exact h (by simpa [← heq] using hbelow)
    exact Assoc.find_put_ne _ _ hne

theorem isDir_setEntriesAt_of_not_below (e : TreeEditor) {p : Path}
    (entries : TreeEntries) (h : ¬ Below dir p) :
    (e.setEntriesAt dir entries).IsDir p <-> e.IsDir p := by
  unfold IsDir
  rw [get?_setEntriesAt_of_not_below e entries h]

theorem get?_setEntriesAt_append
    (hdir : e.IsDir dir) (entries : TreeEntries) {q : Path} (hq : q ≠ []) :
    (e.setEntriesAt dir entries).get? (dir ++ q) =
      getFrom e.subtrees.find dir entries q := by
  unfold setEntriesAt
  by_cases hnil : dir = []
  · subst hnil
    rfl
  rw [if_neg hnil, get?_append _ hnil hq]
  have hsame := get?_setEntriesAt_of_not_below e entries (not_below_self dir)
  unfold setEntriesAt at hsame
  rw [if_neg hnil] at hsame
  rw [hsame]
  rcases hdir with h | ⟨oid, hget⟩
  · exact absurd h hnil
  · rw [hget]
    simp only [childEntries, Assoc.find_put_self, Option.getD_some]
    apply getFrom_congr
    intro d hd _
    exact Assoc.find_put_ne _ _ (by simpa using hd)

theorem get?_setEntriesAt_of_not_isDir
    (hdir : ¬ e.IsDir dir) (entries : TreeEntries) (p : Path) :
    (e.setEntriesAt dir entries).get? p = e.get? p := by
  by_cases hbelow : Below dir p
  · have hnew : ¬ (e.setEntriesAt dir entries).IsDir dir := by
      rw [isDir_setEntriesAt_of_not_below e entries (not_below_self dir)]
      exact hdir
    rw [get?_eq_none_of_below hnew hbelow, get?_eq_none_of_below hdir hbelow]
  · exact get?_setEntriesAt_of_not_below e entries hbelow

theorem get?_setEntriesAt_dirEntries (hdir : e.IsDir dir) (p : Path) :
    (e.setEntriesAt dir (e.dirEntries dir)).get? p = e.get? p := by
  by_cases hbelow : Below dir p
  · rcases below_iff_exists.mp hbelow with ⟨q, hq, rfl⟩
    rw [get?_setEntriesAt_append hdir _ hq, get?_append_of_isDir hdir, if_neg hq]
  · exact get?_setEntriesAt_of_not_below e _ hbelow

theorem entriesAt_setEntriesAt (e : TreeEditor) (dir p : Path)
    (entries : TreeEntries) :
    (e.setEntriesAt dir entries).entriesAt p =
      if p = dir then some entries else e.entriesAt p := by
  unfold entriesAt setEntriesAt
  by_cases hp : p = []
  · subst hp
    by_cases hdir : dir = []
    · simp [hdir]
    · simp [hdir, Ne.symm hdir]
  · rw [if_neg hp, if_neg hp]
    by_cases hdir : dir = []
    · simp [hdir, hp]
    · simp [hdir, Assoc.find_put]

theorem loaded_setEntriesAt (e : TreeEditor) (dir p : Path)
    (entries : TreeEntries) :
    (e.setEntriesAt dir entries).Loaded p <-> p = dir ∨ e.Loaded p := by
  unfold Loaded
  rw [entriesAt_setEntriesAt]
  by_cases h : p = dir <;> simp [h]

theorem find_subtrees_eq_entriesAt (e : TreeEditor) {p : Path} (hp : p ≠ []) :
    e.subtrees.find p = e.entriesAt p := by
  simp [entriesAt, hp]

end TreeEditor

end Git
end OpenViking
