import OpenViking.Compile.TaskService
import Mathlib.Logic.Relation

/-!
# What a step of the service does

Every step is one of a few effects on the store, the runners, the counters and
the locks.
-/

namespace OpenViking
namespace Compile

open Paths CompileTask

variable {report : Type} {limits : CompileLimits}

namespace RunnerPhase

/-- The runner may still write its task. -/
def live : RunnerPhase -> Bool
  | .cleaning _ _ => false
  | .ended _ => false
  | _ => true

end RunnerPhase

/-- The first step of a runner that has been cancelled before it. -/
def ServiceStep.skips : ServiceStep report -> Prop
  | .startCancelled _ => True
  | _ => False

namespace Service

variable {skips : Prop} {x x' : Service report}

/-- A change of a runner's phase that keeps its lock. -/
structure Shift (before after : RunnerPhase) : Prop where
  retained : after.retained = before.retained
  taken : after.taken = before.taken
  notEnded : after.isEnded = false
  wasNotEnded : before.isEnded = false
  live : after.live = true -> before.live = true

/-- A mutator that the runner of an open task may use on the way to a
phase. -/
structure Allowed (mutate : CompileTask report -> CompileTask report)
    (after : RunnerPhase) : Prop where
  settles : forall t : CompileTask report, t.terminal = false ->
    t.Settles (mutate t)
  stays : after.live = true -> forall t : CompileTask report,
    t.terminal = false -> (mutate t).terminal = false

/-- A runner leaves `_execute_task`, or its wait for it. -/
def quit (limits : CompileLimits) (x : Service report) (i : Nat) (r : Runner)
    (lock : Nat) (outcome : Outcome) (now semaphore : Nat)
    (locked : Nat -> Bool) : Service report :=
  ({ x.settle r.taskId outcome now with
    locked := locked
    semaphore := semaphore }.releaseTargetLock r.target lock).finishRunner
      limits i r now

/-- With `skips`, a runner that is cancelled before its first step may take
that step. -/
inductive Effect (limits : CompileLimits) (skips : Prop) (x : Service report) :
    Service report -> Prop where
  | same : Effect limits skips x x
  | enqueue {taskId principalScope target : Str} {resumed : Option Str}
      {now : Nat} {y : Service report} :
      taskId ∉ x.issued -> x.admitTask limits principalScope = some y ->
        Effect limits skips x { y with
          store := Assoc.put y.store taskId
            (CompileTask.create principalScope target resumed now)
          runners := y.runners ++
            [⟨taskId, principalScope, target, .created⟩]
          issued := taskId :: y.issued }
  /-- A write of a task that settles it and does not end it under its
  runner. -/
  | touch {taskId : Str} {mutate : CompileTask report -> CompileTask report}
      {now : Nat} {requests salvages : List Str} :
      (forall t : CompileTask report, t.Settles (mutate t)) ->
        (forall t : CompileTask report, t.terminal = false -> (mutate t).terminal = true ->
          forall r, r ∈ x.runners -> r.taskId = taskId ->
            r.phase.live = false) ->
        salvages ⊆ x.salvages ->
        Effect limits skips x { x.update taskId mutate now with
          cancelRequests := requests
          salvages := salvages }
  /-- A salvage that was left to itself completes its task. -/
  | late {taskId : Str} {result : CompileResult report} {now : Nat} :
      taskId ∈ x.salvages ->
        Effect limits skips x
          ({ x with salvages := x.salvages.erase taskId }.update taskId
            (CompileTask.completeSalvaged result) now)
  | start {i : Nat} {r : Runner} :
      x.runners[i]? = some r -> r.phase = .created ->
        Effect limits skips x ((x.retainTargetLock r.target).2.setPhase i r
          (.queued (x.retainTargetLock r.target).1))
  | startCancelled {i : Nat} {r : Runner} :
      skips -> x.runners[i]? = some r -> r.phase = .created ->
        Effect limits skips x (x.setPhase i r (.ended false))
  | takeLock {i : Nat} {r : Runner} {lock : Nat} :
      x.runners[i]? = some r -> r.phase = .queued lock ->
        x.locked lock = false ->
        Effect limits skips x
          ({ x with locked := Function.update x.locked lock true }.setPhase
            i r (.slotted lock))
  | go {i : Nat} {r : Runner} {after : RunnerPhase}
      {mutate : CompileTask report -> CompileTask report}
      {now semaphore : Nat} :
      x.runners[i]? = some r -> r.phase.live = true -> Shift r.phase after ->
        Allowed mutate after ->
        Effect limits skips x ({ x.update r.taskId mutate now with
          semaphore := semaphore }.setPhase i r after)
  | shift {i : Nat} {r : Runner} {after : RunnerPhase}
      {salvages : List Str} :
      x.runners[i]? = some r -> Shift r.phase after -> after.live = false ->
        salvages ⊆ r.taskId :: x.salvages ->
        Effect limits skips x ({ x with salvages := salvages }.setPhase i r after)
  | quit {i : Nat} {r : Runner} {lock : Nat} (outcome : Outcome)
      {now semaphore : Nat} {locked : Nat -> Bool} :
      x.runners[i]? = some r -> r.phase.retained = some lock ->
        (r.phase.taken = none ∧ locked = x.locked ∨
          r.phase.taken = some lock ∧
            locked = Function.update x.locked lock false) ->
        Effect limits skips x
          (x.quit limits i r lock outcome now semaphore locked)
  | restart {now : Nat} : Effect limits skips x (x.restarted limits now)

theorem effect_of_enqueue {taskId principalScope target : Str}
    {resumed : Option Str} {now : Nat}
    (h : x.enqueueTask limits taskId principalScope target resumed now =
      some x') : Effect limits skips x x' := by
  rw [enqueueTask] at h
  split at h
  case isTrue => cases h
  case isFalse hissued =>
    cases hadmitted : x.admitTask limits principalScope with
    | none =>
      rw [hadmitted] at h
      cases h
      exact .same
    | some y =>
      have hissuedY : y.issued = x.issued := by
        rw [admitTask] at hadmitted
        split at hadmitted
        · cases hadmitted
        · cases hadmitted
          rfl
      rw [hadmitted] at h
      cases h
      exact .enqueue hissued hadmitted

theorem live_of_not_runnerOf {taskId : Str} (h : x.runnerOf taskId = none)
    (r : Runner) (hr : r ∈ x.runners) (heq : r.taskId = taskId) :
    r.phase.live = false := by
  have hnone := List.find?_eq_none.mp h r hr
  rw [heq] at hnone
  cases hphase : r.phase with
  | cleaning lock outcome => rfl
  | ended ran => rfl
  | _ => simp [hphase, RunnerPhase.isEnded] at hnone

theorem allowed_setState {status : Status} (stage : Str)
    (hstatus : status.terminal = false) (after : RunnerPhase) :
    Allowed (setState status stage :
      CompileTask report -> CompileTask report) after :=
  ⟨fun t _ => t.setState_settles status stage,
    fun _ _ h => setState_open stage hstatus h⟩

theorem allowed_of_not_live
    {mutate : CompileTask report -> CompileTask report} {after : RunnerPhase}
    (hsettles : forall t : CompileTask report, t.terminal = false ->
      t.Settles (mutate t)) (hlive : after.live = false) :
    Allowed mutate after := by
  refine ⟨hsettles, ?_⟩
  intro h
  rw [hlive] at h
  cases h

theorem effect_of_cancel (limits : CompileLimits) (skips : Prop)
    (x : Service report) (taskId principalScope : Str) (now : Nat) :
    Relation.ReflTransGen (Effect limits skips) x
      (x.cancelTask taskId principalScope now) := by
  rw [cancelTask]
  cases x.getTask taskId principalScope with
  | none => exact .refl
  | some t =>
    show Relation.ReflTransGen (Effect limits skips) x
      (if t.terminal then x else _)
    cases t.terminal with
    | true => exact .refl
    | false =>
      have hrequest : forall requests, Effect limits skips x
          { x.update taskId
              (requestCancellation principalScope) now with
            cancelRequests := requests } := by
        intro requests
        refine .touch (fun t => t.requestCancellation_settles principalScope) ?_
          (List.Subset.refl _)
        intro t hopen hterminal
        rw [requestCancellation_open principalScope hopen]
          at hterminal
        cases hterminal
      simp only [Bool.false_eq_true, if_false]
      cases hrunner : (x.update taskId
          (requestCancellation principalScope) now).runnerOf
            taskId with
      | none =>
        apply Relation.ReflTransGen.tail (.single (hrequest x.cancelRequests))
        refine .touch finish_settles ?_ (List.Subset.refl _)
        exact fun _ _ _ r hr heq => live_of_not_runnerOf hrunner r hr heq
      | some r => exact .single (hrequest _)

theorem settle_locked (x : Service report) (taskId : Str) (outcome : Outcome)
    (now : Nat) : (x.settle taskId outcome now).locked = x.locked := by
  cases outcome with
  | _ => rfl

theorem exists_runner {i : Nat} {f : Runner -> Option (Service report)}
    (h : (match x.runners[i]? with
      | some r => f r
      | none => none) = some x') :
    exists r, x.runners[i]? = some r ∧ f r = some x' := by
  cases hr : x.runners[i]? with
  | none =>
    rw [hr] at h
    cases h
  | some r =>
    rw [hr] at h
    exact ⟨r, rfl, h⟩

theorem effect_of_step {l : ServiceStep report}
    (h : x.step limits l = some x') :
    Relation.ReflTransGen (Effect limits l.skips) x x' := by
  cases l with
  | create taskId principalScope target now =>
    exact .single (effect_of_enqueue h)
  | resume previous taskId principalScope now =>
    simp only [step, resumeTask] at h
    split at h
    case h_1 =>
      cases h
      exact .refl
    case h_2 t ht =>
      split at h
      case isTrue => exact .single (effect_of_enqueue h)
      case isFalse =>
        cases h
        exact .refl
  | cancel taskId principalScope now =>
    cases h
    exact effect_of_cancel limits _ x taskId principalScope now
  | restart now =>
    cases h
    exact .single .restart
  | salvagedLate taskId result now =>
    simp only [step] at h
    split at h
    case isTrue hmem =>
      cases h
      exact .single (.late hmem)
    case isFalse => cases h
  | start i =>
    simp only [step] at h
    rcases exists_runner h with ⟨r, hr, h⟩
    split at h
    case h_1 hphase =>
      split at h
      case isTrue => cases h
      case isFalse =>
        cases h
        exact .single (.start hr hphase)
    case h_2 => cases h
  | startCancelled i =>
    simp only [step] at h
    rcases exists_runner h with ⟨r, hr, h⟩
    split at h
    case h_1 hphase =>
      split at h
      case isTrue =>
        cases h
        exact .single (.startCancelled trivial hr hphase)
      case isFalse => cases h
    case h_2 => cases h
  | takeLock i =>
    simp only [step] at h
    rcases exists_runner h with ⟨r, hr, h⟩
    split at h
    case h_1 lock hphase =>
      split at h
      case isTrue => cases h
      case isFalse hfree =>
        cases h
        exact .single (.takeLock hr hphase (Bool.not_eq_true _ ▸ hfree))
    case h_2 => cases h
  | takeSlot i now =>
    simp only [step] at h
    rcases exists_runner h with ⟨r, hr, h⟩
    split at h
    case h_1 lock hphase =>
      split at h
      case isTrue => cases h
      case isFalse =>
        cases h
        refine .single
          (.go hr (hphase ▸ rfl) ?_
            (allowed_setState "loading_skill".toList rfl _))
        exact hphase ▸ ⟨rfl, rfl, rfl, rfl, fun _ => rfl⟩
    case h_2 => cases h
  | queueTimeout i now =>
    simp only [step] at h
    rcases exists_runner h with ⟨r, hr, h⟩
    split at h
    case h_1 lock hphase =>
      cases h
      exact .single
        (.quit (.raised _ _ _) hr (hphase ▸ rfl) (Or.inl ⟨hphase ▸ rfl, rfl⟩))
    case h_2 lock hphase =>
      cases h
      exact .single
        (.quit (.raised _ _ _) hr (hphase ▸ rfl) (Or.inr ⟨hphase ▸ rfl, rfl⟩))
    case h_3 => cases h
  | queueCancelled i now =>
    simp only [step] at h
    rcases exists_runner h with ⟨r, hr, h⟩
    split at h
    case h_1 lock hphase =>
      cases h
      exact .single
        (.quit .cancelled hr (hphase ▸ rfl) (Or.inl ⟨hphase ▸ rfl, rfl⟩))
    case h_2 lock hphase =>
      cases h
      exact .single
        (.quit .cancelled hr (hphase ▸ rfl) (Or.inr ⟨hphase ▸ rfl, rfl⟩))
    case h_3 => cases h
  | setState i committing stage now =>
    simp only [step] at h
    rcases exists_runner h with ⟨r, hr, h⟩
    split at h
    case h_1 lock hphase =>
      cases h
      apply Relation.ReflTransGen.single
      refine .touch (fun t => t.setState_settles _ stage) ?_ (List.Subset.refl _)
      intro t hopen hterminal
      rw [setState_open stage _ hopen] at hterminal
      · cases hterminal
      · cases committing with
        | true => rfl
        | false => rfl
    case h_2 => cases h
  | complete i result now =>
    simp only [step] at h
    rcases exists_runner h with ⟨r, hr, h⟩
    split at h
    case h_1 lock hphase =>
      cases h
      refine .single
        (.go hr (hphase ▸ rfl) ?_ (allowed_of_not_live
          (fun t hopen => complete_settles result hopen) rfl))
      exact hphase ▸ ⟨rfl, rfl, rfl, rfl, fun _ => rfl⟩
    case h_2 => cases h
  | raise i code message stage =>
    simp only [step] at h
    rcases exists_runner h with ⟨r, hr, h⟩
    split at h
    case h_1 lock hphase =>
      cases h
      refine .single (.shift hr ?_ rfl (List.subset_cons_self _ _))
      exact hphase ▸ ⟨rfl, rfl, rfl, rfl, fun _ => rfl⟩
    case h_2 lock hphase =>
      cases h
      refine .single (.shift hr ?_ rfl (List.subset_cons_self _ _))
      exact hphase ▸ ⟨rfl, rfl, rfl, rfl, fun _ => rfl⟩
    case h_3 => cases h
  | interrupted i =>
    simp only [step] at h
    rcases exists_runner h with ⟨r, hr, h⟩
    split at h
    case h_1 lock hphase =>
      cases h
      refine .single (.shift hr ?_ rfl (List.subset_cons_self _ _))
      exact hphase ▸ ⟨rfl, rfl, rfl, rfl, fun _ => rfl⟩
    case h_2 => cases h
  | salvage i now =>
    simp only [step] at h
    rcases exists_runner h with ⟨r, hr, h⟩
    split at h
    case h_1 lock hphase =>
      cases h
      refine .single
        (.go hr (hphase ▸ rfl) ?_ (allowed_setState "salvaging".toList rfl _))
      exact hphase ▸ ⟨rfl, rfl, rfl, rfl, fun _ => rfl⟩
    case h_2 => cases h
  | salvaged i result now =>
    simp only [step] at h
    rcases exists_runner h with ⟨r, hr, h⟩
    split at h
    case h_1 lock hphase =>
      cases h
      refine .single
        (.go hr (hphase ▸ rfl) ?_ (allowed_of_not_live
          (fun t _ => t.completeSalvaged_settles result) rfl))
      exact hphase ▸ ⟨rfl, rfl, rfl, rfl, fun _ => rfl⟩
    case h_2 => cases h
  | salvageTimeout i code message =>
    simp only [step] at h
    rcases exists_runner h with ⟨r, hr, h⟩
    split at h
    case h_1 lock hphase =>
      cases h
      refine .single (.shift hr ?_ rfl (List.Subset.refl _))
      exact hphase ▸ ⟨rfl, rfl, rfl, rfl, fun _ => rfl⟩
    case h_2 => cases h
  | cleanupInterrupted i =>
    simp only [step] at h
    rcases exists_runner h with ⟨r, hr, h⟩
    split at h
    case h_1 lock outcome hphase =>
      split at h
      case isTrue =>
        cases h
        refine .single (.shift hr ?_ rfl (List.subset_cons_self _ _))
        exact hphase ▸ ⟨rfl, rfl, rfl, rfl, fun h => h⟩
      case isFalse => cases h
    case h_2 => cases h
  | leave i now =>
    simp only [step] at h
    rcases exists_runner h with ⟨r, hr, h⟩
    split at h
    case h_1 lock outcome hphase =>
      cases h
      exact .single
        (.quit outcome hr (hphase ▸ rfl)
          (Or.inr ⟨hphase ▸ rfl, settle_locked x r.taskId outcome now ▸ rfl⟩))
    case h_2 => cases h

end Service
end Compile
end OpenViking
