import OpenViking.Common.Interleaving
import OpenViking.Watch.ConsistentTasks
import OpenViking.Watch.WatchStorage

/-!
# Runs of the watch manager

The calls of the manager come one after another.  The process can stop between calls and
inside every save, and starts again by loading the stored tasks.
-/

namespace OpenViking
namespace Watch

open Paths (Str)

inductive CallResult where
  | returned
  | raised (error : WatchError)
  | crashed
deriving DecidableEq

/-- `manager` is none while the process is down.  `saved` and `attempt` are not state of
the code: the tasks of the last successful save or load, and those of a save that the
process did not survive. -/
structure World where
  manager : Option Manager
  storage : Storage
  saved : List WatchTask
  attempt : Option (List WatchTask)
  result : CallResult

def World.start : World :=
  { manager := none
    storage := .empty
    saved := []
    attempt := none
    result := .returned }

/-- The calls that change tasks, with what the environment gives them. -/
inductive Request where
  | create (taskId : Nat) (request : CreateRequest) (now : Rat)
  | update (taskId : Nat) (caller : Caller) (changes : TaskChanges)
  | updateAuthState (taskId : Nat) (authState : Option Str)
  | delete (taskId : Nat) (caller : Caller)
  | deactivate (uri accountId : Str)
  | updateExecutionTime (taskId : Nat) (now : Rat)
  | rewrite (oldUri newUri accountId : Str)
deriving DecidableEq

inductive Label where
  | call (request : Request) (fate : SaveFate)
  | crash
  | restart (fate : SaveFate)
deriving DecidableEq

def Manager.handle (manager : Manager) : Request -> Call
  | .create taskId request now => manager.createTask taskId request now
  | .update taskId caller changes => manager.updateTask taskId caller changes
  | .updateAuthState taskId authState => manager.updateAuthState taskId authState
  | .delete taskId caller => manager.deleteTask taskId caller
  | .deactivate uri accountId => manager.deactivateTasksUnderUri uri accountId
  | .updateExecutionTime taskId now => manager.updateExecutionTime taskId now
  | .rewrite oldUri newUri accountId =>
    manager.rewriteTargetPrefix oldUri newUri accountId

namespace World

def save (world : World) (call : Call) (fate : SaveFate) : World :=
  let rotated := world.storage.rotate call.after.tasks fate
  match rotated.2 with
  | .saved =>
    { manager := some call.after
      storage := rotated.1
      saved := call.after.tasks
      attempt := none
      result := .returned }
  | .raised =>
    { world with
      manager := some call.onFailure
      storage := rotated.1
      result := .raised .saveFailed }
  | .crashed =>
    { world with
      manager := none
      storage := rotated.1
      attempt := some call.after.tasks
      result := .crashed }

def finish (world : World) (call : Call) (fate : SaveFate) : World :=
  match call.outcome with
  | .returned => { world with manager := some call.after, result := .returned }
  | .raised error => { world with manager := some call.after, result := .raised error }
  | .saving => world.save call fate

/-- The stored tasks are loaded, and saved again when they came from the backup or were
changed.  A failure of that save is passed over. -/
def restart (world : World) (fate : SaveFate) : World :=
  let loaded := Manager.load world.storage.recovered
  let up : World :=
    { world with
      manager := some loaded.1
      saved := world.storage.recovered
      attempt := none
      result := .returned }
  if loaded.2 || world.storage.recoveredFromBackup then
    let saved := up.save (.leaving loaded.1 .saving) fate
    match saved.manager with
    | none => saved
    | some _ => { saved with result := .returned }
  else up

end World

/-- A new task has a new id. -/
def Request.Fresh (manager : Manager) : Request -> Prop
  | .create taskId _ _ => manager.get taskId = none
  | _ => True

instance decidableFresh (manager : Manager) :
    forall request : Request, Decidable (request.Fresh manager)
  | .create taskId _ _ => inferInstanceAs (Decidable (manager.get taskId = none))
  | .update _ _ _ | .updateAuthState _ _ | .delete _ _ | .deactivate _ _
  | .updateExecutionTime _ _ | .rewrite _ _ _ => isTrue trivial

def step (world : World) : Label -> Option World
  | .call request fate =>
    match world.manager with
    | none => none
    | some manager =>
      if request.Fresh manager then some (world.finish (manager.handle request) fate)
      else none
  | .crash => some { world with manager := none, result := .crashed }
  | .restart fate =>
    match world.manager with
    | none => some (world.restart fate)
    | some _ => none

/-!
# The condition
-/

/-- The interval and the activation that an update asks for go together. -/
def ChangesFit (task : WatchTask) (changes : TaskChanges) : Prop :=
  match changes.watchInterval with
  | some interval =>
    if interval.nonPositive then changes.isActive ≠ some true
    else
      changes.isActive.getD task.isActive = true ->
        interval.positive = true ∧
          ({ task with watchInterval := interval } :
            WatchTask).calculateNextExecutionTime ≠ none
  | none =>
    changes.isActive = some true ->
      task.watchInterval.nonPositive = false ∧
        (task.nextExecutionTime = none -> task.calculateNextExecutionTime ≠ none)

/-- What a call asks for: targets are spelled in the normal form, an update that is let
through fits its task, an execution has a next time, and a root is not rewritten away. -/
def Request.Proper (manager : Manager) : Request -> Prop
  | .create _ request _ => Normalized request.toUri
  | .update taskId caller changes =>
    Normalized changes.toUri ∧
      forall task : WatchTask, manager.get taskId = some task ->
        checkPermission task caller = true ->
        manager.checkUriConflict changes.toUri task.accountId (some taskId) = false ->
        ChangesFit task changes
  | .updateExecutionTime taskId now =>
    forall task : WatchTask, manager.get taskId = some task -> task.isActive = true ->
      ({ task with lastExecutionTime := some now } :
        WatchTask).calculateNextExecutionTime ≠ none
  | .rewrite _ newUri _ => normalizeUri newUri ≠ []
  | _ => True

def Request.rewrites : Request -> Bool
  | .rewrite _ _ _ => true
  | _ => false

/-- Calls are proper, saves are safe, and only the save of a rewrite fails. -/
def Orderly (world : World) : Label -> Prop
  | .call request fate =>
    (forall manager : Manager, world.manager = some manager ->
      request.Proper manager) ∧
      fate.Safe world.storage ∧ (request.rewrites = true ∨ fate.raises = false)
  | .crash => True
  | .restart fate => fate.Safe world.storage

end Watch
end OpenViking
