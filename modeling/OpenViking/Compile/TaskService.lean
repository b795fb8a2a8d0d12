import OpenViking.Compile.Task
import OpenViking.Common.Interleaving

/-!
# The compile service

The calls of the service and its runners take turns where they wait.  The
store of the tasks and the counters are written without a wait in between, so
a call, or a runner from one wait to the next, is one step.
-/

namespace OpenViking
namespace Compile

open Paths

structure CompileLimits where
  concurrentTasks : Nat
  acceptedTasks : Nat
  acceptedTasksPerPrincipal : Nat
  terminalTaskRetention : Nat
  terminalTaskRecords : Nat

/-- How the body of `_execute_task` is left.  A failure without a stage takes
the stage of the stored task. -/
inductive Outcome where
  | returned
  | raised (code message : Str) (stage : Option Str)
  | cancelled

/-- Where a runner waits. -/
inductive RunnerPhase where
  | created
  /-- For the target's lock. -/
  | queued (lock : Nat)
  /-- With the target's lock, for the semaphore. -/
  | slotted (lock : Nat)
  | working (lock : Nat)
  | salvaging (lock : Nat)
  | cleaning (lock : Nat) (outcome : Outcome)
  /-- A runner that is cancelled before its first step never runs its body. -/
  | ended (ran : Bool)

structure Runner where
  taskId : Str
  principalScope : Str
  target : Str
  phase : RunnerPhase

structure Service (report : Type) where
  store : CompileTaskStore report
  runners : List Runner
  /-- The tasks whose runner has been cancelled. -/
  cancelRequests : List Str
  admittedTasks : Nat
  admittedByPrincipal : Assoc Str Nat
  /-- The lock of a target, and how many hold a reference to it. -/
  targetLocks : Assoc Str (Nat × Nat)
  locked : Nat -> Bool
  nextLock : Nat
  semaphore : Nat
  /-- Salvages that went on after their grace period. -/
  salvages : List Str
  /-- A task id is not issued twice. -/
  issued : List Str

inductive ServiceStep (report : Type) where
  | create (taskId principalScope target : Str) (now : Nat)
  | resume (previous taskId principalScope : Str) (now : Nat)
  | cancel (taskId principalScope : Str) (now : Nat)
  | start (i : Nat)
  | startCancelled (i : Nat)
  | takeLock (i : Nat)
  | takeSlot (i : Nat) (now : Nat)
  | queueTimeout (i : Nat) (now : Nat)
  | queueCancelled (i : Nat) (now : Nat)
  | setState (i : Nat) (committing : Bool) (stage : Str) (now : Nat)
  | complete (i : Nat) (result : CompileResult report) (now : Nat)
  | raise (i : Nat) (code message : Str) (stage : Option Str)
  | interrupted (i : Nat)
  | salvage (i : Nat) (now : Nat)
  | salvaged (i : Nat) (result : CompileResult report) (now : Nat)
  /-- Past its grace period the salvage goes on by itself. -/
  | salvageTimeout (i : Nat) (code message : Str)
  | salvagedLate (taskId : Str) (result : CompileResult report) (now : Nat)
  | cleanupInterrupted (i : Nat)
  | leave (i : Nat) (now : Nat)
  | restart (now : Nat)

namespace RunnerPhase

def isEnded : RunnerPhase -> Bool
  | .ended _ => true
  | _ => false

/-- The lock that the runner has a reference to. -/
def retained : RunnerPhase -> Option Nat
  | .queued lock => some lock
  | .slotted lock => some lock
  | .working lock => some lock
  | .salvaging lock => some lock
  | .cleaning lock _ => some lock
  | _ => none

def taken : RunnerPhase -> Option Nat
  | .queued _ => none
  | phase => phase.retained

/-- The runner is in `_execute_task`. -/
def executing : RunnerPhase -> Bool
  | .working _ => true
  | .salvaging _ => true
  | .cleaning _ _ => true
  | _ => false

end RunnerPhase

variable {report : Type}

namespace Service

variable (x : Service report)

def setPhase (i : Nat) (r : Runner)
    (phase : RunnerPhase) : Service report :=
  { x with runners := x.runners.set i { r with phase := phase } }

def update (x : Service report) (taskId : Str)
    (mutate : CompileTask report -> CompileTask report) (now : Nat) :
    Service report :=
  { x with store := x.store.update taskId mutate now }

/-!
# Admission
-/

variable (limits : CompileLimits)

/-- `none` when an admission limit is exceeded. -/
def admitTask (x : Service report)
    (principalScope : Str) : Option (Service report) :=
  let principalTasks := (x.admittedByPrincipal.find principalScope).getD 0
  if limits.acceptedTasks ≤ x.admittedTasks ∨
      limits.acceptedTasksPerPrincipal ≤ principalTasks then none
  else some { x with
    admittedTasks := x.admittedTasks + 1
    admittedByPrincipal :=
      x.admittedByPrincipal.put principalScope (principalTasks + 1) }

def releaseAdmission (principalScope : Str) :
    Service report :=
  let principalTasks := (x.admittedByPrincipal.find principalScope).getD 0
  if principalTasks = 0 then x
  else { x with
    admittedByPrincipal :=
      if principalTasks ≤ 1 then x.admittedByPrincipal.del principalScope
      else x.admittedByPrincipal.put principalScope (principalTasks - 1)
    admittedTasks := x.admittedTasks - 1 }

/-!
# Locks of targets
-/

def retainTargetLock (target : Str) :
    Nat × Service report :=
  match x.targetLocks.find target with
  | some (lock, references) =>
    (lock, { x with
      targetLocks := x.targetLocks.put target (lock, references + 1) })
  | none =>
    (x.nextLock, { x with
      targetLocks := x.targetLocks.put target (x.nextLock, 1)
      nextLock := x.nextLock + 1 })

def releaseTargetLock (target : Str) (lock : Nat) :
    Service report :=
  match x.targetLocks.find target with
  | none => x
  | some (current, references) =>
    if current ≠ lock then x
    else { x with
      targetLocks :=
        if references ≤ 1 then x.targetLocks.del target
        else x.targetLocks.put target (lock, references - 1) }

def release (lock : Nat) : Service report :=
  { x with locked := Function.update x.locked lock false }

/-!
# Runners
-/

def pruneTerminalTasks (x : Service report)
    (now : Nat) : Service report :=
  { x with
    store := x.store.pruneTerminal limits.terminalTaskRetention
      limits.terminalTaskRecords now }

/-- The rest of `_run_admitted_task` after `_run_task`. -/
def finishRunner (x : Service report) (i : Nat)
    (r : Runner) (now : Nat) : Service report :=
  (((x.update r.taskId CompileTask.finish now).releaseAdmission
    r.principalScope).pruneTerminalTasks limits now).setPhase i r
      (.ended true)

def failTask (taskId code message : Str)
    (stage : Option Str) (now : Nat) : Service report :=
  let stored := (x.store.find taskId).map CompileTask.stage
  x.update taskId
    (CompileTask.fail
      ⟨code, message, (stage.or stored).getD "agent".toList⟩) now

/-- The handlers of `_run_task` around `_execute_task`. -/
def settle (taskId : Str) (outcome : Outcome)
    (now : Nat) : Service report :=
  match outcome with
  | .raised code message stage => x.failTask taskId code message stage now
  | _ => x

def runnerOf (taskId : Str) : Option Runner :=
  x.runners.find? fun r => r.taskId = taskId && !r.phase.isEnded

/-!
# Calls
-/

def enqueueTask (x : Service report)
    (taskId principalScope target : Str) (resumedFromTaskId : Option Str)
    (now : Nat) : Option (Service report) :=
  if taskId ∈ x.issued then none
  else
    match x.admitTask limits principalScope with
    | none => some x
    | some x => some { x with
        store := Assoc.put x.store taskId
          (CompileTask.create principalScope target resumedFromTaskId now)
        runners := x.runners ++
          [⟨taskId, principalScope, target, .created⟩]
        issued := taskId :: x.issued }

def getTask (taskId principalScope : Str) :
    Option (CompileTask report) :=
  (x.store.find taskId).filter fun t => t.principalScope = principalScope

def resumeTask (x : Service report)
    (previous taskId principalScope : Str) (now : Nat) :
    Option (Service report) :=
  match x.getTask previous principalScope with
  | none => some x
  | some t =>
    if t.resumable then
      x.enqueueTask limits taskId principalScope t.target (some previous) now
    else some x

def cancelTask (taskId principalScope : Str)
    (now : Nat) : Service report :=
  match x.getTask taskId principalScope with
  | none => x
  | some t =>
    if t.terminal then x
    else
      let x := x.update taskId
        (CompileTask.requestCancellation principalScope) now
      match x.runnerOf taskId with
      | none => x.update taskId CompileTask.finish now
      | some _ => { x with cancelRequests := taskId :: x.cancelRequests }

/-- A new process, and its first call. -/
def restarted (x : Service report) (now : Nat) :
    Service report :=
  { x with
    store := (x.store.markInterruptedFailed now).pruneTerminal
      limits.terminalTaskRetention limits.terminalTaskRecords now
    runners := []
    cancelRequests := []
    admittedTasks := 0
    admittedByPrincipal := ∅
    targetLocks := ∅
    locked := fun _ => false
    semaphore := limits.concurrentTasks
    salvages := [] }

/-!
# Steps
-/

def step (x : Service report) :
    ServiceStep report -> Option (Service report)
  | .create taskId principalScope target now =>
    x.enqueueTask limits taskId principalScope target none now
  | .resume previous taskId principalScope now =>
    x.resumeTask limits previous taskId principalScope now
  | .cancel taskId principalScope now =>
    some (x.cancelTask taskId principalScope now)
  | .start i =>
    match x.runners[i]? with
    | some r =>
      match r.phase with
      | .created =>
        if r.taskId ∈ x.cancelRequests then none
        else
          let (lock, x) := x.retainTargetLock r.target
          some (x.setPhase i r (.queued lock))
      | _ => none
    | none => none
  | .startCancelled i =>
    match x.runners[i]? with
    | some r =>
      match r.phase with
      | .created =>
        if r.taskId ∈ x.cancelRequests then some (x.setPhase i r (.ended false))
        else none
      | _ => none
    | none => none
  | .takeLock i =>
    match x.runners[i]? with
    | some r =>
      match r.phase with
      | .queued lock =>
        if x.locked lock then none
        else some
          ({ x with locked := Function.update x.locked lock true }.setPhase
            i r (.slotted lock))
      | _ => none
    | none => none
  | .takeSlot i now =>
    match x.runners[i]? with
    | some r =>
      match r.phase with
      | .slotted lock =>
        if x.semaphore = 0 then none
        else some
          (({ x with semaphore := x.semaphore - 1 }.update r.taskId
            (CompileTask.setState .running "loading_skill".toList)
              now).setPhase i r (.working lock))
      | _ => none
    | none => none
  | .queueTimeout i now =>
    match x.runners[i]? with
    | some r =>
      let failed (x : Service report) := x.failTask r.taskId
        "DEADLINE_EXCEEDED".toList
        "Compile task exceeded its queue wait limit.".toList
        (some "queued".toList) now
      match r.phase with
      | .queued lock => some
          (((failed x).releaseTargetLock r.target lock).finishRunner
            limits i r now)
      | .slotted lock => some
          (((failed (x.release lock)).releaseTargetLock r.target
            lock).finishRunner limits i r now)
      | _ => none
    | none => none
  | .queueCancelled i now =>
    match x.runners[i]? with
    | some r =>
      match r.phase with
      | .queued lock => some
          ((x.releaseTargetLock r.target lock).finishRunner limits i r now)
      | .slotted lock => some
          (((x.release lock).releaseTargetLock r.target lock).finishRunner
            limits i r now)
      | _ => none
    | none => none
  | .setState i committing stage now =>
    match x.runners[i]? with
    | some r =>
      match r.phase with
      | .working _ => some
          (x.update r.taskId (CompileTask.setState
            (if committing then .committing else .running) stage) now)
      | _ => none
    | none => none
  | .complete i result now =>
    match x.runners[i]? with
    | some r =>
      match r.phase with
      | .working lock => some
          ((x.update r.taskId (CompileTask.complete result) now).setPhase
            i r (.cleaning lock .returned))
      | _ => none
    | none => none
  | .raise i code message stage =>
    match x.runners[i]? with
    | some r =>
      match r.phase with
      | .working lock => some
          (x.setPhase i r (.cleaning lock (.raised code message stage)))
      | .salvaging lock => some
          (x.setPhase i r (.cleaning lock (.raised code message stage)))
      | _ => none
    | none => none
  | .interrupted i =>
    match x.runners[i]? with
    | some r =>
      match r.phase with
      | .working lock =>
        some (x.setPhase i r (.cleaning lock .cancelled))
      | _ => none
    | none => none
  | .salvage i now =>
    match x.runners[i]? with
    | some r =>
      match r.phase with
      | .working lock => some
          ((x.update r.taskId (CompileTask.setState .committing
            "salvaging".toList) now).setPhase i r (.salvaging lock))
      | _ => none
    | none => none
  | .salvaged i result now =>
    match x.runners[i]? with
    | some r =>
      match r.phase with
      | .salvaging lock => some
          ((x.update r.taskId (CompileTask.completeSalvaged result)
            now).setPhase i r (.cleaning lock .returned))
      | _ => none
    | none => none
  | .salvageTimeout i code message =>
    match x.runners[i]? with
    | some r =>
      match r.phase with
      | .salvaging lock => some
          ({ x with salvages := r.taskId :: x.salvages }.setPhase i r
            (.cleaning lock
              (.raised code message (some "salvaging".toList))))
      | _ => none
    | none => none
  | .salvagedLate taskId result now =>
    if taskId ∈ x.salvages then
      some ({ x with salvages := x.salvages.erase taskId }.update taskId
        (CompileTask.completeSalvaged result) now)
    else none
  | .cleanupInterrupted i =>
    match x.runners[i]? with
    | some r =>
      match r.phase with
      | .cleaning lock _ =>
        if r.taskId ∈ x.cancelRequests then
          some (x.setPhase i r (.cleaning lock .cancelled))
        else none
      | _ => none
    | none => none
  | .leave i now =>
    match x.runners[i]? with
    | some r =>
      match r.phase with
      | .cleaning lock outcome => some
          ((({ (x.settle r.taskId outcome now).release lock with
            semaphore := x.semaphore + 1 }.releaseTargetLock r.target
              lock)).finishRunner limits i r now)
      | _ => none
    | none => none
  | .restart now => some (x.restarted limits now)

/-- A service over an empty store. -/
def start : Service report where
  store := ∅
  runners := []
  cancelRequests := []
  admittedTasks := 0
  admittedByPrincipal := ∅
  targetLocks := ∅
  locked := fun _ => false
  nextLock := 0
  semaphore := limits.concurrentTasks
  salvages := []
  issued := []

end Service
end Compile
end OpenViking
