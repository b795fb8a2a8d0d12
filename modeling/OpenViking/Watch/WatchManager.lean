import OpenViking.Common.Path
import OpenViking.Common.Segments
import OpenViking.Common.Csr
import Mathlib.Algebra.Order.Ring.Rat
import Mathlib.Logic.Function.Basic

/-!
# Watch tasks

A watch task monitors a resource path and refreshes a target URI in an interval.
-/

namespace OpenViking
namespace Watch

open Paths (Str)
open Segments (stripRight)

/-!
# URIs
-/

def normalizeUri (uri : Str) : Str :=
  stripRight '/' uri

/-- An empty URI is none. -/
def given? (uri : Option Str) : Option Str :=
  uri.filter (fun chars => decide (chars ≠ []))

/-- A URI that is the other one or below it. -/
def uriMatchesPrefix (uri : Option Str) (root : Str) : Bool :=
  match given? uri with
  | none => false
  | some chars =>
    decide (normalizeUri chars = normalizeUri root ∨
      normalizeUri root ++ ['/'] <+: normalizeUri chars)

def rewriteUriPrefix (uri oldRoot newRoot : Str) : Str :=
  if uri = normalizeUri oldRoot then normalizeUri newRoot
  else normalizeUri newRoot ++ uri.drop (normalizeUri oldRoot).length

def parentUri? (uri : Str) : Option Str :=
  let normalized := normalizeUri uri
  if '/' ∉ normalized then none
  else
    let parent := (normalized.rdropWhile (fun c => decide (c ≠ '/'))).dropLast
    if parent = "viking:/".toList ∨ parent = "viking://".toList then none
    else some parent

/-!
# Intervals and times
-/

/-- A float number of minutes. -/
inductive Interval where
  | minutes (count : Rat)
  | infinite (negative : Bool)
  | nan
deriving DecidableEq

def Interval.nonPositive : Interval -> Bool
  | .minutes count => decide (count ≤ 0)
  | .infinite negative => negative
  | .nan => false

def Interval.positive : Interval -> Bool
  | .minutes count => decide (0 < count)
  | .infinite negative => !negative
  | .nan => false

/-- The number of minutes from the first to past the last representable time. -/
def datetimeEnd : Rat := 3652059 * 1440

/-- Times are minutes since the first representable one. -/
structure WatchTask where
  taskId : Nat
  path : Str
  toUri : Option Str
  toIsDirectory : Option Bool
  parentUri : Option Str
  reason : Str
  instruction : Str
  watchInterval : Interval
  buildIndex : Bool
  summarize : Bool
  processingMode : Str
  processorKwargs : Str
  authState : Option Str
  createdAt : Rat
  lastExecutionTime : Option Rat
  nextExecutionTime : Option Rat
  isActive : Bool
  accountId : Str
  userId : Str
  originalRole : Str
deriving DecidableEq

def WatchTask.target? (task : WatchTask) : Option Str :=
  given? task.toUri

/-- The next time, unless it cannot be represented. -/
def WatchTask.calculateNextExecutionTime (task : WatchTask) : Option Rat :=
  match task.watchInterval with
  | .minutes count =>
    let next := task.lastExecutionTime.getD task.createdAt + count
    if 0 ≤ next ∧ next < datetimeEnd then some next else none
  | .infinite _ => none
  | .nan => none

/-!
# Errors
-/

inductive WatchError where
  | valueError (message : String)
  | taskNotFound (taskId : Nat)
  | conflict (resource : Str)
  | movedConflict (resource : Str)
  | permissionDenied (taskId : Nat)
  | timeOutOfRange
  | saveFailed
deriving DecidableEq

def pathRequired : WatchError :=
  .valueError "Path is required"

def intervalNotPositive : WatchError :=
  .valueError "watch_interval must be > 0"

def activeIntervalNotPositive : WatchError :=
  .valueError "watch_interval must be > 0 for active tasks"

/-!
# Updates of one task
-/

/-- The fields an update names; the others stay. -/
structure TaskChanges where
  path : Option Str
  toUri : Option Str
  toIsDirectory : Option Bool
  parentUri : Option Str
  reason : Option Str
  instruction : Option Str
  watchInterval : Option Interval
  buildIndex : Option Bool
  summarize : Option Bool
  processingMode : Option Str
  processorKwargs : Option Str
  authState : Option (Option Str)
  isActive : Option Bool
deriving DecidableEq

namespace WatchTask

def setSource (task : WatchTask) (changes : TaskChanges) : WatchTask :=
  { task with
    path := changes.path.getD task.path
    toUri := changes.toUri.or task.toUri
    toIsDirectory := changes.toIsDirectory.or task.toIsDirectory
    parentUri := changes.parentUri.or task.parentUri
    reason := changes.reason.getD task.reason
    instruction := changes.instruction.getD task.instruction }

def setProcessing (task : WatchTask) (changes : TaskChanges) : WatchTask :=
  { task with
    buildIndex := changes.buildIndex.getD task.buildIndex
    summarize := changes.summarize.getD task.summarize
    processingMode := changes.processingMode.getD task.processingMode
    processorKwargs := changes.processorKwargs.getD task.processorKwargs
    authState := changes.authState.getD task.authState
    isActive := changes.isActive.getD task.isActive }

def deactivate (task : WatchTask) : WatchTask :=
  { task with isActive := false, nextExecutionTime := none }

def setNext (task : WatchTask) (next : Option Rat) : WatchTask :=
  { task with nextExecutionTime := next }

/-- The next time is calculated anew, if it can be. -/
def reschedule (task : WatchTask) : WatchTask × Option WatchError :=
  match task.calculateNextExecutionTime with
  | some next => (task.setNext (some next), none)
  | none => (task, some .timeOutOfRange)

/-- The last part of an update: the next execution time. -/
def schedule (task : WatchTask) (changes : TaskChanges) :
    WatchTask × Option WatchError :=
  match changes.watchInterval, changes.isActive with
  | some _, _ =>
    if task.isActive && task.watchInterval.positive then task.reschedule
    else (task.setNext none, none)
  | none, some _ =>
    if task.isActive then
      if task.watchInterval.nonPositive then (task, some activeIntervalNotPositive)
      else
        match task.nextExecutionTime with
        | some _ => (task, none)
        | none => task.reschedule
    else (task.setNext none, none)
  | none, none => (task, none)

/-- The changes are made one after another; an error keeps those made before it. -/
def update (task : WatchTask) (changes : TaskChanges) : WatchTask × Option WatchError :=
  let sourced := task.setSource changes
  match changes.watchInterval with
  | none => (sourced.setProcessing changes).schedule changes
  | some interval =>
    if interval.nonPositive then
      if changes.isActive = some true then (sourced, some activeIntervalNotPositive)
      else
        (({ sourced.deactivate with watchInterval := interval }).setProcessing
          changes).schedule changes
    else
      (({ sourced with watchInterval := interval }).setProcessing changes).schedule
        changes

/-- The new target after the rewrite of the root above it. -/
def rewriteTarget (task : WatchTask) (target : Str) : WatchTask :=
  { task with
    toUri := some target
    parentUri :=
      if task.parentUri ≠ none ∧ task.parentUri = parentUri? (task.toUri.getD []) then
        parentUri? target
      else task.parentUri }

/-- An active task has a positive interval and a next time, an inactive one has no next
time. -/
structure Scheduled (task : WatchTask) : Prop where
  active : task.isActive = true ->
    task.watchInterval.positive = true ∧ task.nextExecutionTime.isSome = true
  inactive : task.isActive = false -> task.nextExecutionTime = none

end WatchTask

theorem Interval.positive_of_calculated {task : WatchTask} {next : Rat}
    (hnext : task.calculateNextExecutionTime = some next)
    (hnot : task.watchInterval.nonPositive = false) :
    task.watchInterval.positive = true := by
  unfold WatchTask.calculateNextExecutionTime at hnext
  cases hinterval : task.watchInterval with
  | minutes count =>
    rw [hinterval] at hnot
    exact decide_eq_true (not_le.mp (of_decide_eq_false hnot))
  | infinite negative =>
    rw [hinterval] at hnext
    cases hnext
  | nan =>
    rw [hinterval] at hnext
    cases hnext

theorem WatchTask.scheduled_setNext {task : WatchTask} (hactive : task.isActive = true)
    (hpositive : task.watchInterval.positive = true) (next : Rat) :
    (task.setNext (some next)).Scheduled where
  active := fun _ => ⟨hpositive, rfl⟩
  inactive := by
    intro hinactive
    change task.isActive = false at hinactive
    rw [hactive] at hinactive
    cases hinactive

theorem WatchTask.scheduled_setNext_none {task : WatchTask}
    (hinactive : task.isActive = false) : (task.setNext none).Scheduled where
  active := by
    intro hactive
    change task.isActive = true at hactive
    rw [hinactive] at hactive
    cases hactive
  inactive := fun _ => rfl

theorem WatchTask.scheduled_deactivate (task : WatchTask) :
    task.deactivate.Scheduled where
  active := nofun
  inactive := fun _ => rfl

/-!
# The watch manager

The manager keeps the tasks in memory and an index of their targets.  Its calls hold one
lock from their first look at the tasks until the tasks are saved.
-/

/-- An account and a target URI. -/
abbrev TargetKey : Type := Str × Str

/-- The tasks in the order they came, and the task of each target. -/
structure Manager where
  tasks : List WatchTask
  uriToTask : TargetKey -> Option Nat

def Manager.empty : Manager :=
  { tasks := [], uriToTask := fun _ => none }

def hasId (taskId : Nat) (task : WatchTask) : Bool :=
  decide (task.taskId = taskId)

def Manager.get (manager : Manager) (taskId : Nat) : Option WatchTask :=
  manager.tasks.find? (hasId taskId)

/-- The changed task takes the place of the old one. -/
def putTask (task : WatchTask) (tasks : List WatchTask) : List WatchTask :=
  Rows.updateWhere (hasId task.taskId) (fun _ => task) tasks

/-- The index with an entry for a target, if there is one. -/
def enter (uriToTask : TargetKey -> Option Nat) (accountId : Str) (uri : Option Str)
    (taskId : Nat) : TargetKey -> Option Nat :=
  match given? uri with
  | none => uriToTask
  | some target => Function.update uriToTask (accountId, target) (some taskId)

/-- The index without the entry of a target. -/
def leave (uriToTask : TargetKey -> Option Nat) (accountId : Str) (uri : Option Str) :
    TargetKey -> Option Nat :=
  match given? uri with
  | none => uriToTask
  | some target => Function.update uriToTask (accountId, target) none

/-!
# Checks
-/

inductive CallerRole where
  | root
  | admin
  | user
deriving DecidableEq

structure Caller where
  accountId : Str
  userId : Str
  role : CallerRole
deriving DecidableEq

def checkPermission (task : WatchTask) (caller : Caller) : Bool :=
  match caller.role with
  | .root => true
  | .admin => decide (task.accountId = caller.accountId)
  | .user =>
    decide (task.accountId = caller.accountId) && decide (task.userId = caller.userId)

/-- A task other than the excluded one has the target. -/
def Manager.checkUriConflict (manager : Manager) (toUri : Option Str) (accountId : Str)
    (excludeTaskId : Option Nat) : Bool :=
  match given? toUri with
  | none => false
  | some target =>
    match manager.uriToTask (accountId, target) with
    | none => false
    | some existing => decide (excludeTaskId ≠ some existing)

/-!
# Calls
-/

/-- How a call goes on after it has looked at the tasks and changed them. -/
inductive Outcome where
  | returned
  | raised (error : WatchError)
  | saving
deriving DecidableEq

/-- The manager a call leaves, and the one it leaves when its save fails. -/
structure Call where
  after : Manager
  onFailure : Manager
  outcome : Outcome

def Call.leaving (manager : Manager) (outcome : Outcome) : Call :=
  { after := manager, onFailure := manager, outcome := outcome }

structure CreateRequest where
  path : Str
  toUri : Option Str
  toIsDirectory : Option Bool
  parentUri : Option Str
  reason : Str
  instruction : Str
  watchInterval : Interval
  buildIndex : Bool
  summarize : Bool
  processingMode : Str
  processorKwargs : Str
  authState : Option Str
  accountId : Str
  userId : Str
  originalRole : Str
deriving DecidableEq

def CreateRequest.task (request : CreateRequest) (taskId : Nat) (now : Rat) :
    WatchTask :=
  { taskId := taskId
    path := request.path
    toUri := request.toUri
    toIsDirectory := request.toIsDirectory
    parentUri := request.parentUri
    reason := request.reason
    instruction := request.instruction
    watchInterval := request.watchInterval
    buildIndex := request.buildIndex
    summarize := request.summarize
    processingMode := request.processingMode
    processorKwargs := request.processorKwargs
    authState := request.authState
    createdAt := now
    lastExecutionTime := none
    nextExecutionTime := none
    isActive := true
    accountId := request.accountId
    userId := request.userId
    originalRole := request.originalRole }

namespace Manager

variable (manager : Manager)

def createTask (taskId : Nat) (request : CreateRequest) (now : Rat) :
    Call :=
  if request.path = [] then .leaving manager (.raised pathRequired)
  else if request.watchInterval.nonPositive then
    .leaving manager (.raised intervalNotPositive)
  else if manager.checkUriConflict request.toUri request.accountId none then
    .leaving manager (.raised (.conflict (request.toUri.getD [])))
  else
    match (request.task taskId now).reschedule with
    | (_, some error) => .leaving manager (.raised error)
    | (task, none) =>
      .leaving
        { tasks := manager.tasks ++ [task]
          uriToTask := enter manager.uriToTask request.accountId request.toUri taskId }
        .saving

/-- The index after an update: the old target goes when a new one is named. -/
def updateIndex (task : WatchTask) (toUri : Option Str) :
    TargetKey -> Option Nat :=
  match toUri with
  | none => manager.uriToTask
  | some _ =>
    let left :=
      if given? task.toUri ≠ none ∧ task.toUri ≠ toUri then
        leave manager.uriToTask task.accountId task.toUri
      else manager.uriToTask
    enter left task.accountId toUri task.taskId

def updateTask (taskId : Nat) (caller : Caller)
    (changes : TaskChanges) : Call :=
  match manager.get taskId with
  | none => .leaving manager (.raised (.taskNotFound taskId))
  | some task =>
    if checkPermission task caller = false then
      .leaving manager (.raised (.permissionDenied taskId))
    else if manager.checkUriConflict changes.toUri task.accountId (some taskId) then
      .leaving manager (.raised (.conflict (changes.toUri.getD [])))
    else
      match task.update changes with
      | (changed, some error) =>
        .leaving { manager with tasks := putTask changed manager.tasks }
          (.raised error)
      | (changed, none) =>
        .leaving
          { tasks := putTask changed manager.tasks
            uriToTask := manager.updateIndex task changes.toUri }
          .saving

def updateAuthState (taskId : Nat) (authState : Option Str) : Call :=
  match manager.get taskId with
  | none => .leaving manager .returned
  | some task =>
    .leaving
      { manager with
        tasks := putTask { task with authState := authState } manager.tasks }
      .saving

def deleteTask (taskId : Nat) (caller : Caller) : Call :=
  match manager.get taskId with
  | none => .leaving manager .returned
  | some task =>
    if checkPermission task caller = false then
      .leaving manager (.raised (.permissionDenied taskId))
    else
      .leaving
        { tasks := Rows.deleteWhere (hasId taskId) manager.tasks
          uriToTask := leave manager.uriToTask task.accountId task.toUri }
        .saving

/-- The tasks of the account whose target is at or below a URI. -/
def under (accountId uri : Str) (task : WatchTask) : Bool :=
  decide (task.accountId = accountId) && uriMatchesPrefix task.toUri uri

def deactivateTasksUnderUri (uri accountId : Str) : Call :=
  if manager.tasks.any (under accountId uri) then
    .leaving
      { manager with
        tasks := Rows.updateWhere (under accountId uri) WatchTask.deactivate
          manager.tasks }
      .saving
  else .leaving manager .returned

def updateExecutionTime (taskId : Nat) (now : Rat) : Call :=
  match manager.get taskId with
  | none => .leaving manager .returned
  | some task =>
    if task.isActive = false ∨ task.watchInterval.nonPositive = true then
      .leaving { manager with tasks := putTask task.deactivate manager.tasks } .saving
    else
      match ({ task with lastExecutionTime := some now } : WatchTask).reschedule with
      | (changed, some error) =>
        .leaving { manager with tasks := putTask changed manager.tasks }
          (.raised error)
      | (changed, none) =>
        .leaving { manager with tasks := putTask changed manager.tasks } .saving

/-!
# Prefix rewrites
-/

def movedTarget (oldUri newUri : Str) (task : WatchTask) : Str :=
  rewriteUriPrefix (task.toUri.getD []) oldUri newUri

/-- The tasks that move, with their new targets. -/
def plan (oldUri newUri accountId : Str) : List (Nat × Str) :=
  (manager.tasks.filter (under accountId oldUri)).map fun task =>
    (task.taskId, movedTarget oldUri newUri task)

/-- A planned target that a task has already, one that stays or another that moves. -/
def planConflict? (accountId : Str) (planned : List (Nat × Str)) :
    Option WatchError :=
  planned.findSome? fun entry =>
    match manager.uriToTask (accountId, entry.2) with
    | none => none
    | some existing =>
      if existing ∉ planned.map Prod.fst then some (.conflict entry.2)
      else if existing ≠ entry.1 then some (.movedConflict entry.2)
      else none

/-- The old targets leave the index, and then the new ones enter it. -/
def rewriteIndex (oldUri newUri accountId : Str) :
    TargetKey -> Option Nat :=
  let moving := manager.tasks.filter (under accountId oldUri)
  let left := moving.foldl
    (fun index task => leave index accountId task.toUri) manager.uriToTask
  moving.foldl
    (fun index task =>
      Function.update index (accountId, movedTarget oldUri newUri task)
        (some task.taskId))
    left

def restoreTarget (before : Manager) (task : WatchTask) : WatchTask :=
  match before.get task.taskId with
  | none => task
  | some original =>
    { task with toUri := original.toUri, parentUri := original.parentUri }

/-- The targets that the moved tasks had before. -/
def restoreTargets (manager before : Manager) : Manager :=
  { tasks := manager.tasks.map before.restoreTarget
    uriToTask := before.uriToTask }

def rewriteTargetPrefix (oldUri newUri accountId : Str) : Call :=
  let planned := manager.plan oldUri newUri accountId
  match manager.planConflict? accountId planned with
  | some error => .leaving manager (.raised error)
  | none =>
    if planned = [] then .leaving manager .returned
    else
      let after : Manager :=
        { tasks := Rows.updateWhere (under accountId oldUri)
            (fun task => task.rewriteTarget (movedTarget oldUri newUri task))
            manager.tasks
          uriToTask := manager.rewriteIndex oldUri newUri accountId }
      { after := after
        onFailure := after.restoreTargets manager
        outcome := .saving }

/-!
# Loading
-/

/-- A stored task as it is kept, whether that changed it, and none if it cannot be. -/
def loadTask (task : WatchTask) : Option (WatchTask × Bool) :=
  if task.isActive = false then
    if task.nextExecutionTime = none then some (task, false)
    else some (task.setNext none, true)
  else if task.watchInterval.nonPositive then some (task.deactivate, true)
  else
    match task.nextExecutionTime with
    | some _ => some (task, false)
    | none =>
      match task.reschedule with
      | (changed, none) => some (changed, true)
      | (_, some _) => none

/-- A task with the id of an earlier one takes its place. -/
def loadInto (loaded : Manager × Bool) (stored : WatchTask) : Manager × Bool :=
  match loadTask stored with
  | none => loaded
  | some (task, changed) =>
    ({ tasks :=
        if loaded.1.tasks.any (hasId task.taskId) then putTask task loaded.1.tasks
        else loaded.1.tasks ++ [task]
       uriToTask := enter loaded.1.uriToTask task.accountId task.toUri task.taskId },
      loaded.2 || changed)

def load (stored : List WatchTask) : Manager × Bool :=
  stored.foldl loadInto (empty, false)

end Manager

end Watch
end OpenViking
