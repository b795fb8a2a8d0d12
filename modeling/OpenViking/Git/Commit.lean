import OpenViking.Git.WorkTree
import OpenViking.Git.EditorView

/-!
# Building a commit

The body of `GitService::commit` for one call, with the working tree, the
branch head and the stored commit index as inputs.
-/

namespace OpenViking
namespace Git

open Paths

/-!
# Commit objects and the commit index
-/

structure CommitInfo where
  authorName : String
  authorEmail : String
  message : String
  time : Int
deriving DecidableEq

/-- A commit id, modelled like tree ids by the commit it names. -/
inductive CommitId where
  | root (tree : Tree) (info : CommitInfo)
  | child (tree : Tree) (info : CommitInfo) (parent : CommitId)
deriving DecidableEq

namespace CommitId

def tree : CommitId -> Tree
  | root tree _ => tree
  | child tree _ _ => tree

end CommitId

/-- The tree of a branch head; a branch without commits has no files. -/
def headTree : Option CommitId -> Tree
  | none => .nil
  | some commit => commit.tree

def writeCommit (newTree : Tree) (parent : Option CommitId)
    (info : CommitInfo) : CommitId :=
  match parent with
  | none => CommitId.root newTree info
  | some parent => CommitId.child newTree info parent

structure IndexEntry where
  size : Nat
  mtimeNs : Int
  oid : BlobId
deriving DecidableEq

structure CommitIndex where
  parentOid : CommitId
  entries : Assoc Path IndexEntry
  savedAtNs : Option Int

/-- What one branch keeps between calls: its ref and its index file. -/
structure Branch where
  head : Option CommitId
  index : Option CommitIndex

inductive CommitResponse where
  | created (commitOid : CommitId) (changed ignored : Nat)
  | noop (commitOid : Option CommitId) (ignored : Nat)
deriving DecidableEq

/-!
# Request paths
-/

/-- One component, or why it is refused. -/
def validateSegment (c : Str) : Except String Name :=
  match Name.ofChars? c with
  | none => .error "contains empty segment"
  | some name =>
    if c = ".".toList ∨ c = "..".toList then
      .error "contains '.' or '..' segment"
    else
      .ok name

/-- The path rules of the service; messages name the checked field. -/
def validateSegments (field : String) (invalid : String -> Str -> GitError)
    (path : Str) : Except GitError Path :=
  if path = [] then
    .error (invalid (field ++ " must be non-empty") path)
  else if path.head? = some '/' ∨ path.getLast? = some '/' then
    .error (invalid (field ++ " must not start or end with '/'") path)
  else
    match (path.splitOn '/').mapM validateSegment with
    | .error reason =>
      .error (invalid (field ++ " " ++ reason) path)
    | .ok segments =>
      if '\\' ∈ path then
        .error (invalid (field ++ " must not contain backslash") path)
      else if path.any fun c => c.toNat < 0x20 || c.toNat == 0x7f then
        .error (invalid (field ++ " contains control character") path)
      else
        .ok segments

def validateRelativePath (path : Str) : Except GitError Path :=
  validateSegments "path" .invalidPath path

def validateProjectDir (projectDir : Str) : Except GitError Path :=
  validateSegments "project_dir" .invalidProjectDir projectDir

/-!
# Collecting the candidates
-/

/-- The locals of the classification step. -/
structure Scan where
  editor : TreeEditor
  changed : Nat
  ignored : Nat
  creditedIgnored : List Path
  creditedRemoved : List Path
  candidates : List Path
  cleanupExact : List Path
  cleanupPrefixes : List Path

namespace Scan

def start (editor : TreeEditor) : Scan where
  editor := editor
  changed := 0
  ignored := 0
  creditedIgnored := []
  creditedRemoved := []
  candidates := []
  cleanupExact := []
  cleanupPrefixes := []

variable (matcher : IgnoreMatcher) (prevPaths : List Path)

def includePath (s : Scan) (path : Path) : Bool × Scan :=
  if prunePath path then
    (false, s)
  else if !shouldTrackPath path matcher then
    if path ∈ s.creditedIgnored then
      (false, s)
    else
      (false, { s with
        creditedIgnored := path :: s.creditedIgnored
        ignored := s.ignored + 1 })
  else
    (true, s)

/-- Offer a path that exists on disk. -/
def addListed (s : Scan) (path : Path) : Scan :=
  let (included, s) := s.includePath matcher path
  if included then { s with candidates := path :: s.candidates } else s

/-- Remove a path of the previous tree that is no longer tracked. -/
def dropPath (s : Scan) (path : Path) : Except GitError Scan := do
  let editor <- s.editor.remove path
  if path ∈ s.creditedRemoved then
    return { s with editor := editor }
  else
    return { s with
      editor := editor
      creditedRemoved := path :: s.creditedRemoved
      changed := s.changed + 1 }

/-- Offer or drop one path of the previous tree. -/
def addPreviousPath (inScope : Path -> Bool) (s : Scan) (path : Path) :
    Except GitError Scan :=
  if !inScope path then
    .ok s
  else if shouldTrackPath path matcher then
    .ok { s with candidates := path :: s.candidates }
  else
    s.dropPath path

/-- Union in the previous tree's paths of a scope. -/
def addPrevious (inScope : Path -> Bool) (s : Scan) :
    Except GitError Scan :=
  prevPaths.foldlM (addPreviousPath matcher inScope) s

/-- An explicit path that is a file or missing. -/
def addExplicit (s : Scan) (p : Path) : Except GitError Scan :=
  let (included, s) := s.includePath matcher p
  if included then
    .ok { s with candidates := p :: s.candidates }
  else if p ∈ prevPaths ∧ p ∉ s.creditedRemoved then
    s.dropPath p
  else
    .ok s

def classifyPath (vfs : WorkTree) (s : Scan) (p : Path) :
    Except GitError Scan :=
  match vfs.stat p with
  | .ok info =>
    if info.isDir then do
      let s := { s with cleanupPrefixes := p :: s.cleanupPrefixes }
      let listed <- collectUnder vfs p
      let s := listed.foldl (fun s rel => s.addListed matcher rel) s
      addPrevious matcher prevPaths (fun path => decide (Below p path)) s
    else
      addExplicit matcher prevPaths
        { s with cleanupExact := p :: s.cleanupExact } p
  | .error e =>
    if isNotFound e then do
      let s := { s with
        cleanupExact := p :: s.cleanupExact
        cleanupPrefixes := p :: s.cleanupPrefixes }
      let s <- addExplicit matcher prevPaths s p
      addPrevious matcher prevPaths (fun path => decide (Below p path)) s
    else
      .error (.fs e)

def classify (vfs : WorkTree) (paths : Option (List Path)) (s : Scan) :
    Except GitError Scan :=
  match paths with
  | some ps => ps.foldlM (classifyPath matcher prevPaths vfs) s
  | none => do
      let listed <- collectAll vfs
      let s := listed.foldl (fun s rel => s.addListed matcher rel) s
      addPrevious matcher prevPaths (fun _ => true) s

end Scan

/-!
# The candidate loop
-/

def statSignature (info : FileInfo) : Option (Nat × Int) :=
  if info.modTime < 0 then none else some (info.size, info.modTime)

/-- The cached oid of a path, when the cache entry can be trusted. -/
def cachedOid (index : Option CommitIndex) (path : Path) (info : FileInfo) :
    Option BlobId :=
  match index.bind fun idx => idx.entries.find path, statSignature info,
      index.bind CommitIndex.savedAtNs with
  | some entry, some (size, mtimeNs), some saved =>
    if entry.size = size ∧ entry.mtimeNs = mtimeNs ∧ mtimeNs < saved then
      some entry.oid
    else
      none
  | _, _, _ => none

/-- The oid of a candidate on disk: cached, or from its bytes. -/
def candidateOid (vfs : WorkTree) (index : Option CommitIndex)
    (relPath : Path) (info : FileInfo) : Except GitError BlobId :=
  match cachedOid index relPath info with
  | some oid => .ok oid
  | none =>
    match vfs.read relPath with
    | .ok bytes => .ok ⟨bytes⟩
    | .error e => .error (.fs e)

/-- Record a candidate on disk; without a usable mtime it is forgotten. -/
def recordEntry (entries : Assoc Path IndexEntry) (relPath : Path)
    (info : FileInfo) (oid : BlobId) : Assoc Path IndexEntry :=
  match statSignature info with
  | some (size, mtimeNs) => entries.put relPath ⟨size, mtimeNs, oid⟩
  | none => entries.del relPath

/--
The locals of the loop.  Without an index store nothing reads `entries`.
-/
structure LoopState where
  editor : TreeEditor
  changed : Nat
  entries : Assoc Path IndexEntry

def processCandidate (vfs : WorkTree) (prevTree : Tree)
    (index : Option CommitIndex) (s : LoopState) (relPath : Path) :
    Except GitError LoopState :=
  match vfs.stat relPath with
  | .ok info => do
      let oid <- candidateOid vfs index relPath info
      let entries := recordEntry s.entries relPath info oid
      if prevTree.get? relPath ≠ some (.blob oid) then
        let editor <- s.editor.upsert relPath oid
        return {
          editor := editor
          changed := s.changed + 1
          entries := entries }
      else
        return { s with entries := entries }
  | .error e =>
    if isNotFound e then
      let entries := s.entries.del relPath
      if (prevTree.get? relPath).isSome then do
        let editor <- s.editor.remove relPath
        return {
          editor := editor
          changed := s.changed + 1
          entries := entries }
      else
        return { s with entries := entries }
    else
      .error (.fs e)

/-!
# The whole call
-/

/-- The loaded index, when it reflects the branch head. -/
def loadIndex (branch : Branch) : Option CommitIndex :=
  match branch.head, branch.index with
  | some head, some idx => if idx.parentOid = head then some idx else none
  | _, _ => none

def seedEntries (matcher : IgnoreMatcher) (paths : Option (List Path))
    (index : Option CommitIndex) (scan : Scan) : Assoc Path IndexEntry :=
  match paths, index with
  | some _, some idx =>
    idx.entries.retain fun path _ =>
      !decide (path ∈ scan.cleanupExact) &&
      !scan.cleanupPrefixes.any (fun pref => decide (Below pref path)) &&
      shouldTrackPath path matcher
  | _, _ => ∅

/-- What a commit call has computed when it reaches its ref update. -/
structure CommitPlan where
  editor : TreeEditor
  changed : Nat
  ignored : Nat
  entries : Assoc Path IndexEntry

def planCommit (parse : IgnoreParser) (vfs : WorkTree)
    (prevHead : Option CommitId) (index : Option CommitIndex)
    (paths : Option (List Path)) : Except GitError CommitPlan := do
  let matcher <- loadIgnoreMatcher parse vfs
  let prevTree := headTree prevHead
  let scan <- Scan.classify matcher prevTree.paths vfs paths
    (Scan.start (TreeEditor.fromTree prevTree))
  let loop <- (orderedSet scan.candidates).foldlM
    (processCandidate vfs prevTree index)
    { editor := scan.editor
      changed := scan.changed
      entries := seedEntries matcher paths index scan }
  return {
    editor := loop.editor
    changed := loop.changed
    ignored := scan.ignored
    entries := loop.entries }

/-- The index written at time `now`, stamped with its own write time. -/
def saveIndex (now : Int) (parent : CommitId)
    (entries : Assoc Path IndexEntry) : CommitIndex where
  parentOid := parent
  entries := entries
  savedAtNs := if now < 0 then none else some now

/--
One commit call that no other call overlaps.  `indexStore` tells whether the
service has an index store.
-/
def commitImpl (parse : IgnoreParser) (indexStore : Bool) (now : Int)
    (vfs : WorkTree) (paths : Option (List Path)) (info : CommitInfo)
    (branch : Branch) : Except GitError (CommitResponse × Branch) := do
  let index := if indexStore then loadIndex branch else none
  let plan <- planCommit parse vfs branch.head index paths
  if plan.changed = 0 then
    let saved := match indexStore, branch.head with
      | true, some parent => some (saveIndex now parent plan.entries)
      | _, _ => branch.index
    return (.noop branch.head plan.ignored,
      { branch with index := saved })
  else
    let commitOid := writeCommit plan.editor.write branch.head info
    let saved :=
      if indexStore then some (saveIndex now commitOid plan.entries)
      else branch.index
    return (.created commitOid plan.changed plan.ignored,
      { head := some commitOid, index := saved })

def commit (parse : IgnoreParser) (indexStore : Bool) (now : Int)
    (vfs : WorkTree) (paths : Option (List Str)) (info : CommitInfo)
    (branch : Branch) : Except GitError (CommitResponse × Branch) :=
  match paths with
  | none => commitImpl parse indexStore now vfs none info branch
  | some ps => do
      let ps <- ps.mapM validateRelativePath
      commitImpl parse indexStore now vfs (some ps) info branch

end Git
end OpenViking
