import OpenViking.Common.FileTree

/-!
# Tree synchronisation

`sync_tree` merges a source tree into a target tree.  It goes down the
directories that both trees have, and in each of them makes three passes with
removals and moves whose failures it only logs.  Paths are relative to the two
roots.
-/

namespace OpenViking
namespace TreeSync

open Paths

abbrev Str := List Char

abbrev Bytes := List UInt8

abbrev Tree := FileTree Bytes

/-!
# The diff
-/

inductive Change where
  | addedFile
  | deletedFile
  | updatedFile
  | addedDir
  | deletedDir
deriving DecidableEq

/-- The URIs of the target that the synchronisation says it changed. -/
structure SyncDiff where
  addedFiles : List Path
  deletedFiles : List Path
  updatedFiles : List Path
  addedDirs : List Path
  deletedDirs : List Path

namespace SyncDiff

def empty : SyncDiff :=
  ⟨[], [], [], [], []⟩

def list (diff : SyncDiff) : Change -> List Path
  | .addedFile => diff.addedFiles
  | .deletedFile => diff.deletedFiles
  | .updatedFile => diff.updatedFiles
  | .addedDir => diff.addedDirs
  | .deletedDir => diff.deletedDirs

/-- Append a path to one of the lists. -/
def record (diff : SyncDiff) (c : Change) (p : Path) : SyncDiff :=
  match c with
  | .addedFile => { diff with addedFiles := diff.addedFiles ++ [p] }
  | .deletedFile => { diff with deletedFiles := diff.deletedFiles ++ [p] }
  | .updatedFile => { diff with updatedFiles := diff.updatedFiles ++ [p] }
  | .addedDir => { diff with addedDirs := diff.addedDirs ++ [p] }
  | .deletedDir => { diff with deletedDirs := diff.deletedDirs ++ [p] }

@[simp] theorem list_empty (c : Change) : empty.list c = [] := by
  cases c <;> rfl

theorem mem_list_record {diff : SyncDiff} {c c' : Change} {p q : Path} :
    q ∈ (diff.record c p).list c' <->
      q ∈ diff.list c' ∨ (c' = c ∧ q = p) := by
  cases c <;> cases c' <;> simp [record, list]

end SyncDiff

/-!
# The storage primitives
-/

/-- A primitive does its work, or raises after a part of it. -/
inductive Outcome where
  | done
  | failed (part : Path -> Bool)

/-- A move does its work, or raises: after a part of the copy, when the index
refuses the new place and a part of the copy is left by the clean-up, or when a
part of the source is left. -/
inductive MoveOutcome where
  | done
  | failed (part : Path -> Bool)
  | cleaned (left : Path -> Bool)
  | unremoved (left : Path -> Bool)

namespace MoveOutcome

/-- What stands at the new place of what was to come there. -/
def leaves : MoveOutcome -> Path -> Bool
  | done => fun _ => true
  | failed part => part
  | cleaned left => left
  | unremoved _ => fun _ => true

/-- What does not come leaves what stood there. -/
def spares : MoveOutcome -> Bool
  | cleaned _ => false
  | _ => true

end MoveOutcome

/-- The places where the synchronisation removes something. -/
inductive RmCall where
  | dirForFile
  | fileForDir
  | leftoverFile
  | oldFile
  | fileForDirAgain
  | leftoverDir
deriving DecidableEq

inductive Side where
  | root
  | target
deriving DecidableEq

/-- How the primitives answer during one synchronisation. -/
structure Storage where
  statRoot : Bool
  statTarget : Bool
  mkdirParent : Bool
  ls : Side -> Path -> Bool
  /-- Both files of a comparison can be read. -/
  compare : Path -> Bool
  rm : RmCall -> Path -> Outcome
  mv : Path -> MoveOutcome

/-- The decoders of the standard library that are tried in turn. -/
structure Codecs where
  utf8 : Bytes -> Option Str
  gbk : Bytes -> Option Str

/-- The arguments of a call and the storage it meets. -/
structure Call where
  fileChangeStatus : Path -> Option Bool
  isChanged : Option (Path -> Option Bool)
  /-- The source lies under `viking://temp/`. -/
  isTemp : Bool
  codecs : Codecs
  storage : Storage

def internalNames : List Str :=
  ["_system".toList, "tasks".toList, ".path.ovlock".toList,
    ".redirect.json".toList, ".sync_log.json".toList]

/-- A name that listings leave out, or that the synchronisation skips. -/
def hidden (n : Name) : Bool :=
  n.chars.head? == some '.' || internalNames.contains n.chars

def Visible (q : Path) : Prop :=
  forall n, n ∈ q -> hidden n = false

instance (q : Path) : Decidable (Visible q) :=
  inferInstanceAs (Decidable (forall n, n ∈ q -> hidden n = false))

structure State where
  source : Tree
  target : Tree
  diff : SyncDiff

namespace State

def record (st : State) (c : Change) (p : Path) : State :=
  { st with diff := st.diff.record c p }

end State

/-- Remove an entry of the target.  A removal that raises leaves the entry
itself, and a part of what a directory holds. -/
def rm (call : Call) (site : RmCall) (p : Path) (st : State) : Bool × State :=
  match call.storage.rm site p with
  | .done =>
    (true, { st with target := st.target.removeBelow p (fun _ => false) })
  | .failed part =>
    (false, { st with
      target := st.target.removeBelow p
        (fun q => decide (q = p) || part q) })

variable (call : Call)

/-- What a move carries: outside of the temporary space the copy is listed,
and internal names are not. -/
def carried (p q : Path) : Bool :=
  (q.drop p.length).all fun n =>
    call.isTemp || !internalNames.contains n.chars

/-- Move an entry of the source to the same place in the target: copy it, then
remove the source. -/
def mv (call : Call) (p : Path) (st : State) : Bool × State :=
  match st.source.find p, st.target.find p with
  | none, _ => (false, st)
  -- a file is not moved onto a directory, a directory onto nothing that exists
  | some (.file _), some .dir => (false, st)
  | some .dir, some _ => (false, st)
  | some _, _ =>
    match call.storage.mv p with
    | .done =>
      (true, { st with
        target := st.target.copyBelow st.source p (carried call p)
        source := st.source.removeBelow p (fun _ => false) })
    | .failed part =>
      (false, { st with
        target := st.target.copyBelow st.source p
          (fun q => carried call p q && part q) })
    | .cleaned left =>
      (false, { st with
        target :=
          (st.target.copyBelow st.source p (carried call p)).removeBelow p left })
    | .unremoved left =>
      (false, { st with
        target := st.target.copyBelow st.source p (carried call p)
        source := st.source.removeBelow p left })

/-!
# Comparing files
-/

def decodeBytes (codecs : Codecs) (data : Bytes) : Str :=
  if data = [] then []
  else match codecs.utf8 data with
    | some text => text
    | none =>
      match codecs.gbk data with
      | some text => text
      | none => data.map fun b => Char.ofNat b.toNat

/-- Sizes first, then what the two files read as text. -/
def defaultIsChanged (p : Path) (root target : Bytes) : Bool :=
  if call.storage.compare p = false then true
  else if root.length ≠ target.length then true
  else decide (decodeBytes call.codecs root ≠ decodeBytes call.codecs target)

/-- The caller's knowledge, else the comparison; a comparison that raises
counts as unchanged. -/
def judgedChanged (p : Path) (root target : Bytes) : Bool :=
  match call.fileChangeStatus p with
  | some changed => changed
  | none =>
    match call.isChanged with
    | some test => (test p).getD false
    | none => defaultIsChanged call p root target

def filesAt (st : State) (p : Path) : Bytes × Bytes :=
  match st.source.find p, st.target.find p with
  | some (.file a), some (.file b) => (a, b)
  | _, _ => ([], [])

/-!
# One directory
-/

def NameLe (a b : Name) : Prop :=
  a.chars ≤ b.chars

instance : DecidableRel NameLe :=
  fun a b => inferInstanceAs (Decidable (a.chars ≤ b.chars))

/-- The order in which a pass goes through the names. -/
def sortedNames (ns : List Name) : List Name :=
  ns.dedup.insertionSort NameLe

@[simp] theorem mem_sortedNames {ns : List Name} {n : Name} :
    n ∈ sortedNames ns <-> n ∈ ns := by
  simp [sortedNames]

theorem nodup_sortedNames (ns : List Name) : (sortedNames ns).Nodup :=
  (List.perm_insertionSort NameLe ns.dedup).nodup_iff.mpr (List.nodup_dedup ns)

/-- The visible names of a directory whose entries pass a test. -/
def visibleNames (t : Tree) (d : Path) (test : Entry Bytes -> Bool) :
    List Name :=
  ((t.children d).filter fun c => !hidden c.1 && test c.2).map Prod.fst

def isFile : Entry Bytes -> Bool
  | .file _ => true
  | .dir => false

/-- The visible files and directories in a directory. -/
def listChildren (side : Side) (t : Tree) (d : Path) :
    Option (List Name × List Name) :=
  if call.storage.ls side d && decide (t.find d = some .dir) then
    some (visibleNames t d isFile, visibleNames t d fun e => !isFile e)
  else none

/-- The state of the passes over one directory: what is still taken to stand
in the target. -/
structure Level where
  st : State
  targetFiles : List Name
  targetDirs : List Name

/-- Remove a directory of the target that stands where a file is to come. -/
def clearForFile (p : Path) (name : Name) (lv : Level) : Level :=
  match rm call .dirForFile p lv.st with
  | (true, st) =>
    { lv with
      st := st.record .deletedDir p
      targetDirs := lv.targetDirs.filter fun n => !decide (n = name) }
  | (false, st) => { lv with st := st }

/-- Remove a file of the target. -/
def dropFile (site : RmCall) (p : Path) (st : State) :
    Bool × State :=
  match rm call site p st with
  | (true, st) => (true, st.record .deletedFile p)
  | (false, st) => (false, st)

/-- Remove a directory of the target. -/
def dropDir (p : Path) (st : State) : State :=
  match rm call .leftoverDir p st with
  | (true, st) => st.record .deletedDir p
  | (false, st) => st

/-- Replace a file: the diff says so before the old file is removed and the
new one is moved in. -/
def updateFile (p : Path) (st : State) : State :=
  (mv call p (rm call .oldFile p (st.record .updatedFile p)).2).2

/-- Move something in: the diff says so before. -/
def addEntry (c : Change) (p : Path) (st : State) : State :=
  (mv call p (st.record c p)).2

/-- The pass over the file names. -/
def fileStep (d : Path) (rootFiles rootDirs : List Name)
    (lv : Level) (name : Name) : Level :=
  let p := d ++ [name]
  if name ∈ rootFiles then
    if name ∈ lv.targetDirs then
      let lv := clearForFile call p name lv
      { lv with st := addEntry call .addedFile p lv.st }
    else if name ∈ lv.targetFiles then
      let files := filesAt lv.st p
      if judgedChanged call p files.1 files.2 then
        { lv with st := updateFile call p lv.st }
      else lv
    else { lv with st := addEntry call .addedFile p lv.st }
  else if name ∈ lv.targetFiles then
    if name ∈ rootDirs then
      match dropFile call .fileForDir p lv.st with
      | (true, st) =>
        { lv with
          st := st
          targetFiles := lv.targetFiles.filter fun n => !decide (n = name) }
      | (false, st) => { lv with st := st }
    else { lv with st := (dropFile call .leftoverFile p lv.st).2 }
  else lv

/-- The pass over the directory names. -/
def dirStep (d : Path) (rootDirs : List Name)
    (syncDir : Path -> State -> Except State State)
    (lv : Level) (name : Name) : Except Level Level :=
  let p := d ++ [name]
  if name ∈ rootDirs then
    if name ∈ lv.targetFiles then
      match dropFile call .fileForDirAgain p lv.st with
      | (true, st) =>
        .ok { lv with
          st := addEntry call .addedDir p st
          targetFiles := lv.targetFiles.filter fun n => !decide (n = name) }
      | (false, st) => .ok { lv with st := addEntry call .addedDir p st }
    else if name ∈ lv.targetDirs then
      match syncDir p lv.st with
      | .ok st => .ok { lv with st := st }
      | .error st => .error { lv with st := st }
    else .ok { lv with st := addEntry call .addedDir p lv.st }
  else if name ∈ lv.targetDirs then
    .ok { lv with st := dropDir call p lv.st }
  else .ok lv

/-- Synchronise one directory that both trees have.  The fuel bounds the depth
of the recursion. -/
def syncDir (call : Call) : Nat -> Path -> State -> Except State State
  | 0, _, st => .error st
  | fuel + 1, d, st =>
    match listChildren call .root st.source d,
      listChildren call .target st.target d with
    | some (rootFiles, rootDirs), some (targetFiles, targetDirs) =>
      let lv := (sortedNames (rootFiles ++ targetFiles)).foldl
        (fileStep call d rootFiles rootDirs)
        ⟨st, targetFiles, targetDirs⟩
      match (sortedNames (rootDirs ++ lv.targetDirs)).foldlM
          (dirStep call d rootDirs (syncDir call fuel)) lv with
      | .ok lv => .ok lv.st
      | .error lv => .error lv.st
    | _, _ => .error st

/-- No path of a tree is longer. -/
def depth (t : Tree) : Nat :=
  (t.bindings.map fun b => b.1.length).foldr max 0

/-- Merge the source into the target, which may be missing.  The result holds
the diff that is returned; a call that raises returns none. -/
def syncTree (source target : Tree) : Except State State :=
  let st : State := ⟨source, target, SyncDiff.empty⟩
  if call.storage.statRoot && decide (source.find [] ≠ none) then
    if call.storage.statTarget && decide (target.find [] ≠ none) then
      syncDir call (depth source + 1) [] st
    else if call.storage.mkdirParent then
      match mv call [] (st.record .addedDir []) with
      | (true, st) => .ok st
      | (false, st) => .error st
    else .error st
  else .error st

end TreeSync
end OpenViking
