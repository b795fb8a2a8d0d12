import OpenViking.Common.Interleaving
import OpenViking.Git.Restore

/-!
# Concurrent calls on one branch

Any number of commit and restore calls of `GitService` share one branch ref and
the object store.  A call reads the head, works for as long as it likes, writes
its commit object, and then swaps the ref with `RefStore::cas_update`.
-/

namespace OpenViking
namespace Git

open Paths Interleaving

/-!
# Requests and results
-/

inductive BranchRequest where
  | commit (paths : Option (List Str))
      (authorName authorEmail message : String)
  | restore (req : RestoreRequest)

inductive CallError where
  | git (error : RestoreError)
  | refNotFound
  | commitMissing (oid : CommitId)
  | store (message : String)
deriving DecidableEq

inductive CallResult where
  | committed (response : CommitResponse)
  | restored (response : RestoreResponse)
  | failed (error : CallError)
deriving DecidableEq

/-- The new head that a call reports. -/
def CallResult.newCommit : CallResult -> Option CommitId
  | committed (.created oid _ _) => some oid
  | restored (.applied oid _ _ _ _ _ _ _) => some oid
  | failed (.git (.writebackPartial report)) =>
    some report.newCommitOid
  | _ => none

/-!
# One call
-/

/-- The ref of the branch and the commit objects in the store. -/
structure BranchStore where
  ref : Option CommitId
  objects : List CommitId

/-- What a call has left to report once its commit object is written. -/
inductive Pending where
  | commit (changed ignored : Nat)
  | restore (source head : CommitId) (diff : RestoreDiff)

/-- Where a call stands between two steps. -/
inductive CallStage where
  | start
  | headRead (prevHead : Option CommitId)
  | sourceResolved (projectDir : Option Path) (source : CommitId)
  | bothRead (projectDir : Option Path) (source head : CommitId)
  | objectWritten (expected : Option CommitId) (commitOid : CommitId)
      (pending : Pending)
  | swapped (commitOid : CommitId) (pending : Pending)
  | done (result : CallResult)

namespace CallStage

/-- The new head of a call that has swapped the ref. -/
def newCommit : CallStage -> Option CommitId
  | swapped oid _ => some oid
  | done result => result.newCommit
  | _ => none

/-- Before the swap every step can fail in a store. -/
def mayFail : CallStage -> Bool
  | swapped _ _ => false
  | done _ => false
  | _ => true

end CallStage

/--
What a step takes from outside of the branch.  The work of a commit reads a
working tree and an index file that other calls change meanwhile, so its plan
is an input; so is what became of the file calls of a write-back.
-/
inductive StepInput where
  | next
  | source (oid : CommitId)
  | work (plan : Except GitError CommitPlan) (time : Int)
  | prepare (time : Int)
  | writeBack (writes deletes : List FileTask)
  | fail (message : String)

variable (store : BranchStore)

/-- `load_commit_meta`: a commit can be read when its object is stored. -/
def loadCommit (oid : CommitId) :
    Except CallError CommitId :=
  if oid ∈ store.objects then .ok oid
  else .error (.commitMissing oid)

def readHead :
    Except CallError (Option CommitId) :=
  match store.ref with
  | none => .ok none
  | some head => (loadCommit store head).map some

/-- `restore` needs a branch with a head. -/
def readBoth (source : CommitId) :
    Except CallError CommitId :=
  match store.ref with
  | none => .error .refNotFound
  | some head => do
      let _ <- loadCommit store source
      loadCommit store head

def validatePaths (paths : Option (List Str)) : Except GitError Unit :=
  match paths with
  | none => .ok ()
  | some ps => do
      let _ <- ps.mapM validateRelativePath
      return ()

/-- Write the commit object of a finished plan, or answer `Noop`. -/
def writePlan (authorName authorEmail message : String) (store : BranchStore)
    (prevHead : Option CommitId) (plan : CommitPlan) (time : Int) :
    BranchStore × CallStage :=
  if plan.changed = 0 then
    (store, .done (.committed
      (.noop prevHead plan.ignored)))
  else
    let oid := writeCommit plan.editor.write prevHead
      ⟨authorName, authorEmail, message, time⟩
    ({ store with objects := oid :: store.objects },
      .objectWritten prevHead oid
        (.commit plan.changed plan.ignored))

variable (shortHex : CommitId -> String)

/-- The part of `restore` between the reads and the swap. -/
def writeRestore (req : RestoreRequest)
    (store : BranchStore) (projectDir : Option Path)
    (source head : CommitId) (time : Int) : BranchStore × CallStage :=
  match restoreSubtrees projectDir source head with
  | .error e =>
    (store, .done (.failed (.git e)))
  | .ok (sourceTree, headTree) =>
    let diff := computeSubtreeDiff sourceTree.flatten headTree.flatten
    if req.dryRun then
      (store, .done (.restored
        (.dryRun diff head source)))
    else if diff.toWrite = [] ∧ diff.toDelete = [] then
      (store, .done (.restored
        (.noop head source)))
    else
      match restoredTree projectDir source head sourceTree with
      | .error e =>
        (store, .done (.failed
          (.git (.git e))))
      | .ok newTree =>
        let oid := writeCommit newTree (some head) {
          authorName := req.authorName
          authorEmail := req.authorEmail
          message := restoreMessage shortHex req source
          time := time }
        ({ store with objects := oid :: store.objects },
          .objectWritten (some head) oid
            (.restore source head diff))

/-- `RefStore::cas_update`, atomic. -/
def swapRef (expected : Option CommitId)
    (oid : CommitId) (pending : Pending) : BranchStore × CallStage :=
  if store.ref = expected then
    ({ store with ref := some oid }, .swapped oid pending)
  else
    (store, .done (.failed (.git
      (.concurrentCommit expected store.ref))))

/-- The answer of a restore, from what became of its file calls. -/
def restoreReport (oid source head : CommitId) (diff : RestoreDiff)
    (writes deletes : List FileTask) : CallResult :=
  let written := succeeded writes
  let deleted := succeeded deletes
  if failures writes ≠ [] ∨ failures deletes ≠ [] then
    .failed (.git (.writebackPartial {
      newCommitOid := oid
      sourceCommit := source
      parentCommit := head
      written := written.length
      deleted := deleted.length
      unchanged := diff.unchanged.length
      writtenPaths := written
      deletedPaths := deleted
      failedWrites := failures writes
      failedDeletes := failures deletes }))
  else
    .restored (.applied oid source head
      written.length deleted.length diff.unchanged.length written deleted)

private def ended (result : CallResult) :
    BranchStore × CallStage :=
  (store, .done result)

/-- The next step of a call; `none` when the input is not the one it needs. -/
def branchCallStep (store : BranchStore)
    (request : BranchRequest) (stage : CallStage) (input : StepInput) :
    Option (BranchStore × CallStage) :=
  match request, stage, input with
  | .commit paths _ _ _, .start, .next =>
    match validatePaths paths with
    | .error e => some (ended store
        (.failed (.git (.git e))))
    | .ok () =>
      match readHead store with
      | .error e => some (ended store (.failed e))
      | .ok prevHead => some (store, .headRead prevHead)
  | .commit _ name email message, .headRead prevHead,
      .work plan time =>
      match plan with
      | .error e => some (ended store
          (.failed (.git (.git e))))
      | .ok plan =>
        some (writePlan name email message store prevHead plan time)
  | .restore req, .start, .source oid =>
    match req.projectDir.mapM validateProjectDir with
    | .error e => some (ended store
        (.failed (.git (.git e))))
    | .ok projectDir =>
      some (store, .sourceResolved projectDir oid)
  | .restore _, .sourceResolved projectDir source,
      .next =>
      match readBoth store source with
      | .error e => some (ended store (.failed e))
      | .ok head =>
        some (store, .bothRead projectDir source head)
  | .restore req, .bothRead projectDir source head,
      .prepare time =>
      some (writeRestore shortHex req store projectDir source head time)
  | _, .objectWritten expected oid pending, .next =>
    some (swapRef store expected oid pending)
  | .commit _ _ _ _,
      .swapped oid (.commit changed ignored),
      .next =>
      some (ended store (.committed
        (.created oid changed ignored)))
  | .restore _,
      .swapped oid (.restore source head diff),
      .writeBack writes deletes =>
      some (ended store (restoreReport oid source head diff writes deletes))
  | _, stage, .fail message =>
    if stage.mayFail then
      some (ended store (.failed (.store message)))
    else
      none
  | _, _, _ => none

/-!
# All calls
-/

structure BranchState where
  store : BranchStore
  calls : List (BranchRequest × CallStage)

def BranchState.start (store : BranchStore) (requests : List BranchRequest) :
    BranchState where
  store := store
  calls := requests.map fun request => (request, .start)

/-- One step of the call with the given number. -/
def branchStep (s : BranchState)
    (label : Nat × StepInput) : Option BranchState :=
  match s.calls[label.1]? with
  | none => none
  | some (request, stage) =>
    match branchCallStep shortHex s.store request stage label.2 with
    | none => none
    | some (store, stage') => some {
        store := store
        calls := s.calls.set label.1 (request, stage') }

/-- The change of the ref in a step, with the call that made it. -/
def refChange (s : BranchState)
    (label : Nat × StepInput) : Option (Nat × Option CommitId) :=
  match branchStep shortHex s label with
  | none => none
  | some s' =>
    if s'.store.ref = s.store.ref then none
    else some (label.1, s'.store.ref)

/-- All ref changes of a run, in the order of the swaps. -/
def refChanges (s : BranchState)
    (labels : List (Nat × StepInput)) : List (Nat × Option CommitId) :=
  Interleaving.trace (branchStep shortHex) (refChange shortHex) s labels

/-!
# The first-parent chain
-/

/-- Follow the first parents from a commit through the object store. -/
def firstParents (objects : List CommitId) :
    CommitId -> Option (List CommitId)
  | .root tree info =>
    if .root tree info ∈ objects then
      some [.root tree info]
    else
      none
  | .child tree info parent =>
    if .child tree info parent ∈ objects then
      (firstParents objects parent).map
        (.child tree info parent :: ·)
    else
      none

def chainFrom (objects : List CommitId) :
    Option CommitId -> Option (List CommitId)
  | none => some []
  | some head => firstParents objects head

/-- The chain from the branch head, newest first. -/
def BranchStore.chain : Option (List CommitId) :=
  chainFrom store.objects store.ref

end Git
end OpenViking
