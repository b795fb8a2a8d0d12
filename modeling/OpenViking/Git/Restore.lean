import OpenViking.Common.Tasks
import OpenViking.Git.Commit
import OpenViking.Git.FileOps

/-!
# Restoring a commit

The body of `GitService::restore` for one call.  The ref update happens before
the working tree is touched; the write-back that follows runs its file calls
concurrently.
-/

namespace OpenViking
namespace Git

open Paths

structure RestoreRequest where
  projectDir : Option Str
  dryRun : Bool
  message : Option String
  authorName : String
  authorEmail : String

structure RestoreDiff where
  toWrite : List (Path × BlobId)
  toDelete : List Path
  unchanged : List Path
deriving DecidableEq

inductive RestoreResponse where
  | applied (newCommitOid sourceCommit parentCommit : CommitId)
      (written deleted unchanged : Nat)
      (writtenPaths deletedPaths : List Path)
  | noop (head source : CommitId)
  | dryRun (diff : RestoreDiff) (head source : CommitId)
deriving DecidableEq

structure RestoreWritebackPartial where
  newCommitOid : CommitId
  sourceCommit : CommitId
  parentCommit : CommitId
  written : Nat
  deleted : Nat
  unchanged : Nat
  writtenPaths : List Path
  deletedPaths : List Path
  failedWrites : List (Path × FsError)
  failedDeletes : List (Path × FsError)
deriving DecidableEq

inductive RestoreError where
  | git (error : GitError)
  | subtreeNotFoundInCommit (projectDir : Path) (commit : CommitId)
  | concurrentCommit (expected actual : Option CommitId)
  | writebackPartial (report : RestoreWritebackPartial)
deriving DecidableEq

/-!
# The diff
-/

private def writeLe (a b : Path × BlobId) : Prop :=
  RenderLe a.1 b.1

private instance : DecidableRel writeLe :=
  fun a b => inferInstanceAs (Decidable (RenderLe a.1 b.1))

def computeSubtreeDiff (source head : List (Path × BlobId)) : RestoreDiff :=
  let headMap := Assoc.ofList head
  let sourceMap := Assoc.ofList source
  { toWrite := (source.filter fun b =>
      !decide (headMap.find b.1 = some b.2)).insertionSort writeLe
    toDelete := ((head.map Prod.fst).filter fun p =>
      (sourceMap.find p).isNone).insertionSort RenderLe
    unchanged := ((source.filter fun b =>
      decide (headMap.find b.1 = some b.2)).map Prod.fst).insertionSort
        RenderLe }

/-!
# Writing back
-/

/-- The file calls of the write-back. -/
inductive FsCall where
  | mkdir (path : Path)
  | write (path : Path) (data : Bytes)
  | remove (path : Path)
deriving DecidableEq

/--
One call with the errors that its caller ignores: a directory that exists
already, and a file that is gone already.
-/
def execCall (now : Int) (w : WorkTree) : FsCall -> Except FsError WorkTree
  | .mkdir p =>
    match w.mkdir now p with
    | .error (.alreadyExists _) => .ok w
    | result => result
  | .write p data => w.write now p data
  | .remove p =>
    match w.remove p with
    | .error (.notFound _) => .ok w
    | result => result

abbrev FileTask := Task Path FsCall FsError

/-- Ensure the parent directories, then write. -/
def writeTask (p : Path) (oid : BlobId) : FileTask :=
  Task.start p
    ((parentDirs p).map .mkdir ++ [.write p oid.bytes])

def deleteTask (p : Path) : FileTask :=
  Task.start p [.remove p]

/-- The tags of the tasks that succeeded, sorted. -/
def succeeded (tasks : List FileTask) : List Path :=
  ((tasks.filter fun t => t.failed.isNone).map Task.tag).insertionSort RenderLe

def failures (tasks : List FileTask) : List (Path × FsError) :=
  tasks.filterMap fun t => t.failed.map fun e => (t.tag, e)

/-- The directories above deleted files, deepest first. -/
def pruneCandidates (toDelete : List Path) : List Path :=
  ((orderedSet (toDelete.flatMap parentDirs)).insertionSort
    fun a b => a.length ≤ b.length).reverse

/-- Remove a directory that holds no entry; any failure is ignored. -/
def pruneDir (w : WorkTree) (dir : Path) : WorkTree :=
  match w.readDir dir with
  | .ok [] => (w.remove dir).toOption.getD w
  | _ => w

/-!
# The whole call
-/

/-- How the calls of the write-back interleave. -/
structure WritebackOrder where
  writes : List Nat
  deletes : List Nat

structure RestoreOutcome where
  result : Except RestoreError RestoreResponse
  vfs : WorkTree
  ref : Option CommitId

/-- The subtrees of source and head that the call compares. -/
def restoreSubtrees (projectDir : Option Path) (source head : CommitId) :
    Except RestoreError (Tree × Tree) :=
  match projectDir with
  | none => .ok (source.tree, head.tree)
  | some dir =>
    match source.tree.get? dir with
    | some (.tree (some sub)) =>
      match head.tree.get? dir with
      | some (.tree (some old)) => .ok (sub, old)
      | _ => .ok (sub, .nil)
    | _ => .error (.subtreeNotFoundInCommit dir source)

def restoredTree (projectDir : Option Path) (source head : CommitId)
    (subtree : Tree) : Except GitError Tree :=
  match projectDir with
  | none => .ok source.tree
  | some dir =>
    ((TreeEditor.fromTree head.tree).upsertSubtree dir subtree).map
      TreeEditor.write

variable (shortHex : CommitId -> String)

/-- `shortHex` renders the first digits of a commit id. -/
def restoreMessage (req : RestoreRequest)
    (source : CommitId) : String :=
  req.message.getD <|
    match req.projectDir with
    | some dir =>
      "restore " ++ String.ofList dir ++ " from " ++ shortHex source
    | none => "restore full tree from " ++ shortHex source

/-- The account-relative path of a path inside the restored directory. -/
def accountRel (projectDir : Option Path) (rel : Path) : Path :=
  projectDir.getD [] ++ rel

def writeBack (now : Int) (order : WritebackOrder) (projectDir : Option Path)
    (diff : RestoreDiff) (newCommit source head : CommitId) (vfs : WorkTree) :
    Except RestoreError RestoreResponse × WorkTree :=
  let (vfs, writes) := Task.runAll (execCall now) order.writes vfs
    (diff.toWrite.map fun b => writeTask (accountRel projectDir b.1) b.2)
  let (vfs, deletes) := Task.runAll (execCall now) order.deletes vfs
    (diff.toDelete.map fun rel => deleteTask (accountRel projectDir rel))
  let vfs := ((pruneCandidates diff.toDelete).map
    (accountRel projectDir)).foldl pruneDir vfs
  let written := succeeded writes
  let deleted := succeeded deletes
  if failures writes ≠ [] ∨ failures deletes ≠ [] then
    (.error (.writebackPartial {
      newCommitOid := newCommit
      sourceCommit := source
      parentCommit := head
      written := written.length
      deleted := deleted.length
      unchanged := diff.unchanged.length
      writtenPaths := written
      deletedPaths := deleted
      failedWrites := failures writes
      failedDeletes := failures deletes }), vfs)
  else
    (.ok (.applied newCommit source head written.length
      deleted.length diff.unchanged.length written deleted), vfs)

/--
One restore of `source` that read `head` from the branch.  `current` is the
ref when the call reaches its update.
-/
def restoreImpl (now : Int)
    (order : WritebackOrder) (vfs : WorkTree) (source head : CommitId)
    (current : Option CommitId) (projectDir : Option Path)
    (req : RestoreRequest) : RestoreOutcome :=
  match restoreSubtrees projectDir source head with
  | .error e => ⟨.error e, vfs, current⟩
  | .ok (sourceTree, headTree) =>
    let diff := computeSubtreeDiff sourceTree.flatten headTree.flatten
    if req.dryRun then
      ⟨.ok (.dryRun diff head source), vfs, current⟩
    else if diff.toWrite = [] ∧ diff.toDelete = [] then
      ⟨.ok (.noop head source), vfs, current⟩
    else
      match restoredTree projectDir source head sourceTree with
      | .error e => ⟨.error (.git e), vfs, current⟩
      | .ok newTree =>
        let newCommit := writeCommit newTree (some head) {
          authorName := req.authorName
          authorEmail := req.authorEmail
          message := restoreMessage shortHex req source
          time := now / 1000000000 }
        if current = some head then
          let (result, vfs) := writeBack now order projectDir diff
            newCommit source head vfs
          ⟨result, vfs, some newCommit⟩
        else
          ⟨.error (.concurrentCommit (some head)
            current), vfs, current⟩

def restore (now : Int)
    (order : WritebackOrder) (vfs : WorkTree) (source head : CommitId)
    (current : Option CommitId) (req : RestoreRequest) : RestoreOutcome :=
  match req.projectDir.mapM validateProjectDir with
  | .error e => ⟨.error (.git e), vfs, current⟩
  | .ok projectDir =>
    restoreImpl shortHex now order vfs source head current projectDir req

end Git
end OpenViking
