import OpenViking.Common.Interleaving
import OpenViking.Tracker.TaskRecord

/-!
# The task tracker

One task of a tracker: its stored record, the copy in the cache, its part of the work
index, and the calls in progress.  A call runs from one await point to the next without
interruption.
-/

namespace OpenViking
namespace Tracker

open Paths (Str)

/-- The calls that hold the lock of the task.  A finalization that ends a cancel call
answers with the snapshot of the task. -/
inductive Op where
  | create (request : CreateRequest)
  | start (stage : Option Str)
  | updateStage (stage : Str)
  | recordOutcome (result error resourceId : Option Str)
  | cancel
  | finalize (report : Bool)
  | deleteExpired (now : Nat)
  | deleteUser
deriving DecidableEq

def Op.complete (result : Str) (resourceId : Option Str) : Op :=
  .recordOutcome (some result) none resourceId

def Op.fail (error : Str) : Op := .recordOutcome none (some error) none

/-- The calls that put loaded records into the cache without the lock. -/
inductive Lookup where
  | get (asked : OwnerFilter)
  | list (asked : OwnerFilter)
  | deleteUser
deriving DecidableEq

inductive TaskError where
  | cancellationUnsupported (taskType : Str)
  | alreadyTerminal (status : TaskStatus)
  | activeRecord (taskType : Str)
deriving DecidableEq

inductive Answer where
  | nothing
  | task (snapshot : Option TaskRecord)
  | auth (auth : List (Str × Str))
  | raised (error : TaskError)
deriving DecidableEq

/-- Where a call stands: what it does when it is resumed. -/
inductive Thread where
  | checking (report : Bool) (asked : OwnerFilter)
  | waiting (op : Op) (asked : OwnerFilter)
  | reading (op : Op) (asked : OwnerFilter)
  | loaded (op : Op) (asked : OwnerFilter) (task : Option TaskRecord)
  | writing (op : Op) (asked : OwnerFilter) (record : TaskRecord)
  | written (op : Op) (asked : OwnerFilter) (record : TaskRecord)
  | deleting (op : Op)
  | deleted (op : Op)
  | listing (lookup : Lookup)
  | merging (lookup : Lookup) (task : Option TaskRecord)
  | authReading (asked : OwnerFilter)
  | authPublishing (asked : OwnerFilter) (task : Option TaskRecord)
  | done (answer : Answer)
deriving DecidableEq

/-- `work` are the entries of the work index by queue and work id, `running` the active
coroutines, and `lock` the call that holds the lock. -/
structure World where
  store : Option TaskRecord := none
  cache : Option TaskRecord := none
  work : List (Str × Str) := []
  running : List Nat := []
  failure : Option Str := none
  lock : Option Nat := none
  threads : List Thread := []
deriving DecidableEq

inductive Label where
  | invoke (op : Op) (asked : OwnerFilter)
  | lookup (lookup : Lookup)
  | getTaskAuth (accountId userId : Str)
  | evict
  | register (entry : Str × Str)
  | removeWork (entry : Str × Str) (asked : OwnerFilter)
  | rollbackAck (entry : Str × Str)
  | registerActive (coroutine : Nat)
  | unregisterActive (coroutine : Nat)
  | unregisterRunningTask (coroutine : Nat)
  | recordFailure (error : Str)
  | advance (call now : Nat)
deriving DecidableEq

/-!
# Decisions
-/

/-- What a call does with the record that it found. -/
inductive Move where
  | write (record : TaskRecord)
  | publish (record : TaskRecord)
  | check
  | delete
  | finish (answer : Answer)
deriving DecidableEq

def decideStart (stage : Option Str) (now : Nat) : Option TaskRecord -> Move
  | some task =>
    if task.status.takesOutcome then .write (task.started stage now)
    else .finish .nothing
  | none => .finish .nothing

def decideUpdateStage (stage : Str) (now : Nat) : Option TaskRecord -> Move
  | some task =>
    if task.status.takesOutcome then .write (task.staged stage now)
    else .finish .nothing
  | none => .finish .nothing

def decideOutcome (result error resourceId workError : Option Str) (now : Nat) :
    Option TaskRecord -> Move
  | some task =>
    if task.status.takesOutcome then
      .write (task.withOutcome result error resourceId workError now)
    else .check
  | none => .check

def decideCancel (now : Nat) : Option TaskRecord -> Move
  | none => .finish (.task none)
  | some task =>
    if task.status = .cancelled then .finish (.task (some task.copy))
    else if task.status = .cancelling then .check
    else if ¬ cancellableTaskTypes.contains task.taskType then
      .finish (.raised (.cancellationUnsupported task.taskType))
    else if task.status.terminal then
      .finish (.raised (.alreadyTerminal task.status))
    else .write (task.cancelRequested now)

/-- What a finalization answers when it ends. -/
def finalizeAnswer (snapshot : Option TaskRecord) (report : Bool) : Answer :=
  if report then .task snapshot else .nothing

def decideFinalize (workError : Option Str) (hasWork : Bool) (now : Nat)
    (answer : Answer) : Option TaskRecord -> Move
  | some task =>
    if task.status.active && !hasWork then
      match task.conclusion workError with
      | some status => .write (task.concluded workError now status)
      | none => .finish answer
    else .finish answer
  | none => .finish answer

def decideCreate (request : CreateRequest) : Option TaskRecord -> Move
  | some existing => .publish existing
  | none => .write request.record

def decideDeleteExpired (now : Nat) : Option TaskRecord -> Move
  | some task => if task.isExpired now then .delete else .finish .nothing
  | none => .finish .nothing

def decideDeleteUser (hasWork : Bool) : Option TaskRecord -> Move
  | some task =>
    if task.status.active || hasWork then
      .finish (.raised (.activeRecord task.taskType))
    else .delete
  | none => .finish .nothing

namespace World

def hasWork (world : World) : Bool := !world.work.isEmpty || !world.running.isEmpty

/-- The status check of queue workers. -/
def cancellationRequested (world : World) : Bool :=
  world.cache.any fun task =>
    task.status == .cancelling || task.status == .cancelled

def setThread (world : World) (call : Nat) (thread : Thread) : World :=
  { world with threads := world.threads.set call thread }

def spawn (world : World) (thread : Thread) : World :=
  { world with threads := world.threads ++ [thread] }

def setStore (world : World) (store : Option TaskRecord) : World := { world with store }

def setCache (world : World) (cache : Option TaskRecord) : World := { world with cache }

def setLock (world : World) (lock : Option Nat) : World := { world with lock }

def setFailure (world : World) (failure : Option Str) : World := { world with failure }

variable (owner : TaskOwner)

/-- The cached record, when it belongs to the owner that is asked for. -/
def snapshot (world : World) (asked : OwnerFilter) : Option TaskRecord :=
  if owner.matchesOwner asked then world.cache.map TaskRecord.copy else none

def answerOf (world : World) (asked : OwnerFilter) (report : Bool) : Answer :=
  finalizeAnswer (world.snapshot owner asked) report

def decide (world : World) (now : Nat) (op : Op) (asked : OwnerFilter)
    (task : Option TaskRecord) : Move :=
  match op with
  | .create request => decideCreate request task
  | .start stage => decideStart stage now task
  | .updateStage stage => decideUpdateStage stage now task
  | .recordOutcome result error resourceId =>
    decideOutcome result error resourceId world.failure now task
  | .cancel => decideCancel now task
  | .finalize report =>
    decideFinalize world.failure world.hasWork now (world.answerOf owner asked report)
      task
  | .deleteExpired cutoff => decideDeleteExpired cutoff task
  | .deleteUser => decideDeleteUser world.hasWork task

end World

/-- A cancel call ends with a snapshot of the task. -/
def Op.reports : Op -> Bool
  | .cancel => true
  | _ => false

/-- The names that the record is read under: a new task has those of its owner. -/
def Op.asked (owner : TaskOwner) (asked : OwnerFilter) : Op -> OwnerFilter
  | .create _ => owner.filter
  | _ => asked

namespace World

variable (owner : TaskOwner)

/-- The call goes on to its next await point, with the lock or without it. -/
def perform (world : World) (call : Nat) (op : Op) (asked : OwnerFilter) :
    Move -> World
  | .write record => world.setThread call (.writing op asked record)
  | .publish record =>
    ((world.setCache (some record)).setLock none).setThread call
      (.done (.task (some record.copy)))
  | .check => (world.setLock none).setThread call (.checking op.reports asked)
  | .delete => world.setThread call (.deleting op)
  | .finish answer => (world.setLock none).setThread call (.done answer)

/-- The cached record is used at once, and another one is read when the whole owner is
given. -/
def loadForUpdate (world : World) (call now : Nat) (op : Op) (asked : OwnerFilter) :
    World :=
  match world.cache with
  | some task =>
    world.perform call op asked (world.decide owner now op asked
      (if owner.matchesOwner asked then some task else none))
  | none =>
    if asked.accountId.isSome && asked.userId.isSome then
      world.setThread call (.reading op asked)
    else world.perform call op asked (world.decide owner now op asked none)

/-- The first look of a call that has the lock.  A deletion goes by the cache alone. -/
def enter (world : World) (call now : Nat) (op : Op) (asked : OwnerFilter) : World :=
  match op with
  | .create _ =>
    match world.cache with
    | some existing =>
      world.perform call op asked (.finish (.task (some existing.copy)))
    | none => world.setThread call (.reading op asked)
  | .deleteExpired _ | .deleteUser =>
    world.perform call op asked (world.decide owner now op asked world.cache)
  | _ => world.loadForUpdate owner call now op asked

/-- The copy in the cache follows the stored record, and the lock is given back. -/
def publish (world : World) (call : Nat) (op : Op) (asked : OwnerFilter)
    (record : TaskRecord) : World :=
  let published := (world.setCache (some record)).setLock none
  match op with
  | .recordOutcome _ _ _ => published.setThread call (.checking false asked)
  | .cancel => published.setThread call (.checking true asked)
  | .finalize report =>
    (published.setFailure none).setThread call
      (.done (published.answerOf owner asked report))
  | .create _ => published.setThread call (.done (.task (some record.copy)))
  | _ => published.setThread call (.done .nothing)

def forget (world : World) (call : Nat) (op : Op) : World :=
  let forgotten := (world.setCache none).setLock none
  match op with
  | .deleteUser => (forgotten.setFailure none).setThread call (.done .nothing)
  | _ => forgotten.setThread call (.done .nothing)

/-- A loaded record replaces a missing or an older copy. -/
def replaces (world : World) (loaded : TaskRecord) : Bool :=
  world.cache.all fun cached => cached.updatedAt < loaded.updatedAt

def mergeLoaded (world : World) : Option TaskRecord -> World
  | some loaded => if world.replaces loaded then world.setCache (some loaded) else world
  | none => world

/-- What a call without the lock does with the cache that it leaves. -/
def afterMerge (world : World) (loaded : Option TaskRecord) : Lookup -> Thread
  | .get asked =>
    .done (.task (if loaded.isSome then world.snapshot owner asked else none))
  | .list asked => .done (.task (world.snapshot owner asked))
  | .deleteUser =>
    match world.cache with
    | none => .done .nothing
    | some task =>
      if task.status.active then .done (.raised (.activeRecord task.taskType))
      else .waiting .deleteUser owner.filter

def beginLookup (world : World) (lookup : Lookup) : Thread :=
  match lookup with
  | .get asked =>
    if world.cache.isSome || asked.accountId.isNone then
      .done (.task (world.snapshot owner asked))
    else .listing lookup
  | .list asked =>
    if asked.accountId.isNone then .done (.task (world.snapshot owner asked))
    else .listing lookup
  | .deleteUser => .listing lookup

def beginOp (world : World) (op : Op) (asked : OwnerFilter) : Thread :=
  match op with
  | .deleteExpired now =>
    if world.cache.any (fun task => task.isExpired now) then .waiting op asked
    else .done .nothing
  | .finalize report => .checking report asked
  | _ => .waiting op asked

def authOf (asked : OwnerFilter) : Option TaskRecord -> Answer
  | some task => .auth (if owner.matchesOwner asked then task.auth else [])
  | none => .auth []

def beginAuth (world : World) (asked : OwnerFilter) : Thread :=
  match world.cache with
  | some task => .done (authOf owner asked (some task))
  | none => .authReading asked

end World

def Lookup.asked (owner : TaskOwner) : Lookup -> OwnerFilter
  | .get asked | .list asked => asked
  | .deleteUser => owner.filter

namespace World

variable (owner : TaskOwner)

/-- A loaded record goes into the cache as it is. -/
def publishLoaded (world : World) (loaded : Option TaskRecord) : World :=
  match loaded with
  | some task => world.setCache (some task)
  | none => world

/-- One call runs to its next await point. -/
def advance (world : World) (call now : Nat) : Thread -> Option World
  | .checking report asked =>
    if world.hasWork then
      some (world.setThread call (.done (world.answerOf owner asked report)))
    else some (world.setThread call (.waiting (.finalize report) asked))
  | .waiting op asked =>
    if world.lock = none then
      some ((world.setLock (some call)).enter owner call now op asked)
    else none
  | .reading op asked =>
    some (world.setThread call
      (.loaded op asked (owner.storeGet world.store (op.asked owner asked))))
  | .loaded op asked task =>
    some (world.perform call op asked (world.decide owner now op asked task))
  | .writing op asked record =>
    some ((world.setStore (some record)).setThread call (.written op asked record))
  | .written op asked record => some (world.publish owner call op asked record)
  | .deleting op => some ((world.setStore none).setThread call (.deleted op))
  | .deleted op => some (world.forget call op)
  | .listing lookup =>
    some (world.setThread call
      (.merging lookup (owner.storeGet world.store (lookup.asked owner))))
  | .merging lookup task =>
    some ((world.mergeLoaded task).setThread call
      ((world.mergeLoaded task).afterMerge owner task lookup))
  | .authReading asked =>
    some (world.setThread call
      (.authPublishing asked (owner.storeGet world.store asked)))
  | .authPublishing asked task =>
    some ((world.publishLoaded task).setThread call (.done (authOf owner asked task)))
  | .done _ => none

/-!
# The work index
-/

def setWork (world : World) (work : List (Str × Str)) : World := { world with work }

def setRunning (world : World) (running : List Nat) : World := { world with running }

def register (world : World) (entry : Str × Str) : World :=
  if world.cancellationRequested then world else world.setWork (world.work.insert entry)

/-- An acknowledged or discarded work item is taken out, and the last one calls for the
finalization of the task. -/
def removeWork (world : World) (entry : Str × Str) (asked : OwnerFilter) : World :=
  let removed := world.setWork (world.work.filter fun other => other != entry)
  if world.work.contains entry && !removed.hasWork then
    removed.spawn (.checking false asked)
  else removed

def rollbackAck (world : World) (entry : Str × Str) : World :=
  world.setWork (world.work.insert entry)

def registerActive (world : World) (coroutine : Nat) : World :=
  if world.cancellationRequested then world
  else world.setRunning (world.running.insert coroutine)

def unregisterActive (world : World) (coroutine : Nat) : World :=
  world.setRunning (world.running.filter fun other => other != coroutine)

def unregisterRunningTask (world : World) (coroutine : Nat) : World :=
  (world.unregisterActive coroutine).spawn (.checking false {})

end World

def step (owner : TaskOwner) (world : World) : Label -> Option World
  | .invoke op asked => some (world.spawn (world.beginOp op asked))
  | .lookup lookup => some (world.spawn (world.beginLookup owner lookup))
  | .getTaskAuth accountId userId =>
    if accountId = [] ∨ userId = [] then none
    else
      some (world.spawn (world.beginAuth owner
        { accountId := some accountId, userId := some userId }))
  | .evict => some (world.setCache none)
  | .register entry => some (world.register entry)
  | .removeWork entry asked => some (world.removeWork entry asked)
  | .rollbackAck entry => some (world.rollbackAck entry)
  | .registerActive coroutine => some (world.registerActive coroutine)
  | .unregisterActive coroutine => some (world.unregisterActive coroutine)
  | .unregisterRunningTask coroutine => some (world.unregisterRunningTask coroutine)
  | .recordFailure error => some (world.setFailure (world.failure.or (some error)))
  | .advance call now =>
    match world.threads[call]? with
    | some thread => world.advance owner call now thread
    | none => none

end Tracker
end OpenViking
