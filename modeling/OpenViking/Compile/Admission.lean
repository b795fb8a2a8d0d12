import OpenViking.Compile.TaskLifecycle

/-!
# Admission counters

An admission is held by a runner until its `finally` block has run.  A runner
that is cancelled before its first step has no such block.
-/

namespace OpenViking
namespace Compile

open Paths Assoc

variable {report : Type} {limits : CompileLimits} {skips : Prop}

namespace RunnerPhase

/-- The admission of the runner has not been released. -/
def holdsAdmission : RunnerPhase -> Bool
  | .ended ran => !ran
  | _ => true

theorem holdsAdmission_of_not_ended {phase : RunnerPhase}
    (h : phase.isEnded = false) : phase.holdsAdmission = true := by
  cases phase with
  | ended ran => cases h
  | _ => rfl

end RunnerPhase

namespace Service

variable {x x' y : Service report}

/-- How many of some runners hold an admission. -/
def held (x : Service report) (among : Runner -> Bool) : Nat :=
  x.runners.countP fun r => among r && r.phase.holdsAdmission

def ofPrincipal (principalScope : Str) (r : Runner) : Bool :=
  r.principalScope = principalScope

variable {r : Runner}

theorem ofPrincipal_iff {principalScope : Str} :
    ofPrincipal principalScope r = true <->
      r.principalScope = principalScope :=
  decide_eq_true_iff

structure Counted (limits : CompileLimits) (x : Service report) : Prop where
  total : x.admittedTasks = x.held fun _ => true
  principal : forall principalScope,
    (x.admittedByPrincipal.find principalScope).getD 0 =
      x.held (ofPrincipal principalScope)
  withinTotal : x.admittedTasks ≤ limits.acceptedTasks
  withinPrincipal : forall principalScope,
    (x.admittedByPrincipal.find principalScope).getD 0 ≤
      limits.acceptedTasksPerPrincipal

/-!
# Counts after a change of one runner
-/

theorem held_setPhase {i : Nat} {phase : RunnerPhase}
    (hi : x.runners[i]? = some r)
    (hrunners : y.runners = x.runners.set i { r with phase := phase })
    (among : Runner -> Bool)
    (hamong : among { r with phase := phase } = among r) :
    y.held among + (if among r && r.phase.holdsAdmission then 1 else 0) =
      x.held among + (if among r && phase.holdsAdmission then 1 else 0) := by
  have hcount := Interleaving.countP_set_of_some
    (fun r => among r && r.phase.holdsAdmission)
    { r with phase := phase } hi
  rw [hamong] at hcount
  rw [held, hrunners]
  exact hcount

theorem Counted.setPhase (h : Counted limits x) {i : Nat}
    {phase : RunnerPhase} (hi : x.runners[i]? = some r)
    (hrunners : y.runners = x.runners.set i { r with phase := phase })
    (htotal : y.admittedTasks = x.admittedTasks)
    (hprincipal : y.admittedByPrincipal = x.admittedByPrincipal)
    (hwas : r.phase.holdsAdmission = true)
    (his : phase.holdsAdmission = true) : Counted limits y := by
  have hheld : forall among : Runner -> Bool,
      among { r with phase := phase } = among r ->
        y.held among = x.held among := by
    intro among hamong
    have hcount := held_setPhase hi hrunners among hamong
    rw [hwas, his] at hcount
    exact Nat.add_right_cancel hcount
  constructor
  · rw [htotal, hheld _ rfl]
    exact h.total
  · intro principalScope
    rw [hprincipal, hheld _ rfl]
    exact h.principal principalScope
  · rw [htotal]
    exact h.withinTotal
  · rw [hprincipal]
    exact h.withinPrincipal

theorem Counted.congr (h : Counted limits x)
    (hrunners : y.runners = x.runners)
    (htotal : y.admittedTasks = x.admittedTasks)
    (hprincipal : y.admittedByPrincipal = x.admittedByPrincipal) :
    Counted limits y := by
  constructor
  · rw [htotal, held, hrunners]
    exact h.total
  · intro principalScope
    rw [hprincipal, held, hrunners]
    exact h.principal principalScope
  · rw [htotal]
    exact h.withinTotal
  · rw [hprincipal]
    exact h.withinPrincipal

theorem Counted.empty (hrunners : x.runners = [])
    (htotal : x.admittedTasks = 0) (hprincipal : x.admittedByPrincipal = ∅) :
    Counted limits x := by
  constructor
  · rw [htotal, held, hrunners]
    rfl
  · intro principalScope
    rw [hprincipal, held, hrunners, find_empty]
    rfl
  · rw [htotal]
    exact Nat.zero_le _
  · intro principalScope
    rw [hprincipal, find_empty]
    exact Nat.zero_le _

/-!
# An admission and its release
-/

theorem Counted.enqueue (h : Counted limits x)
    (hadmitted : x.admitTask limits r.principalScope = some x')
    (hphase : r.phase = .created) (hrunners : y.runners = x'.runners ++ [r])
    (htotal : y.admittedTasks = x'.admittedTasks)
    (hprincipal : y.admittedByPrincipal = x'.admittedByPrincipal) :
    Counted limits y := by
  rw [admitTask] at hadmitted
  split at hadmitted
  case isTrue => cases hadmitted
  case isFalse hroom =>
    cases hadmitted
    rw [not_or, Nat.not_le, Nat.not_le] at hroom
    have hheld : forall among : Runner -> Bool,
        y.held among = x.held among + (if among r then 1 else 0) := by
      intro among
      rw [held, hrunners, List.countP_append, List.countP_singleton, hphase]
      simp only [RunnerPhase.holdsAdmission, Bool.and_true]
      rfl
    have hfind : forall principalScope,
        (y.admittedByPrincipal.find principalScope).getD 0 =
          (x.admittedByPrincipal.find principalScope).getD 0 +
            (if ofPrincipal principalScope r then 1 else 0) := by
      intro principalScope
      rw [hprincipal, find_put]
      by_cases heq : principalScope = r.principalScope
      · rw [if_pos heq, heq, if_pos (ofPrincipal_iff.mpr rfl)]
        rfl
      · have hne : ¬ ofPrincipal principalScope r = true :=
          fun hof => heq (ofPrincipal_iff.mp hof).symm
        rw [if_neg heq, if_neg hne]
        rfl
    constructor
    · rw [htotal, hheld]
      exact congrArg (· + 1) h.total
    · intro principalScope
      rw [hfind, hheld, h.principal]
    · rw [htotal]
      exact hroom.1
    · intro principalScope
      rw [hfind]
      split
      case isTrue hof =>
        rw [← ofPrincipal_iff.mp hof]
        exact hroom.2
      case isFalse => exact h.withinPrincipal principalScope

theorem releaseAdmission_find (x : Service report)
    (principalScope scope : Str) :
    (((x.releaseAdmission principalScope).admittedByPrincipal.find
        scope).getD 0) =
      (x.admittedByPrincipal.find scope).getD 0 -
        (if scope = principalScope then 1 else 0) := by
  rw [releaseAdmission]
  split
  case isTrue hzero =>
    by_cases heq : scope = principalScope
    · rw [heq, hzero, Nat.zero_sub]
    · rw [if_neg heq, Nat.sub_zero]
  case isFalse hnonzero =>
    show ((if _ then x.admittedByPrincipal.del principalScope
      else x.admittedByPrincipal.put principalScope _).find scope).getD 0 = _
    by_cases heq : scope = principalScope
    · rw [heq, if_pos rfl]
      split
      case isTrue hone =>
        rw [find_del_self, Nat.sub_eq_zero_of_le hone]
        rfl
      case isFalse =>
        rw [find_put_self]
        rfl
    · rw [if_neg heq, Nat.sub_zero]
      split
      case isTrue => rw [find_del_ne _ heq]
      case isFalse => rw [find_put_ne _ _ heq]

theorem releaseAdmission_total {principalScope : Str}
    (h : (x.admittedByPrincipal.find principalScope).getD 0 ≠ 0) :
    (x.releaseAdmission principalScope).admittedTasks =
      x.admittedTasks - 1 := by
  rw [releaseAdmission, if_neg h]

theorem Counted.release (h : Counted limits x) {i : Nat}
    (hi : x.runners[i]? = some r) (hwas : r.phase.holdsAdmission = true)
    (hrunners : y.runners = x.runners.set i { r with phase := .ended true })
    (htotal : y.admittedTasks =
      (x.releaseAdmission r.principalScope).admittedTasks)
    (hprincipal : y.admittedByPrincipal =
      (x.releaseAdmission r.principalScope).admittedByPrincipal) :
    Counted limits y := by
  have hheld : forall among : Runner -> Bool,
      among { r with phase := .ended true } = among r ->
        y.held among + (if among r then 1 else 0) = x.held among := by
    intro among hamong
    have hcount := held_setPhase hi hrunners among hamong
    rw [hwas, Bool.and_true] at hcount
    simpa only [RunnerPhase.holdsAdmission, Bool.not_true, Bool.and_false,
      Bool.false_eq_true, if_false, Nat.add_zero] using hcount
  have hsome : (x.admittedByPrincipal.find r.principalScope).getD 0 ≠ 0 := by
    have hone := hheld (ofPrincipal r.principalScope) rfl
    rw [if_pos (ofPrincipal_iff.mpr rfl)] at hone
    rw [h.principal, ← hone]
    exact Nat.succ_ne_zero _
  rw [releaseAdmission_total hsome] at htotal
  have hfind : forall scope, (y.admittedByPrincipal.find scope).getD 0 =
      (x.admittedByPrincipal.find scope).getD 0 -
        (if scope = r.principalScope then 1 else 0) := by
    intro scope
    rw [hprincipal]
    exact releaseAdmission_find x r.principalScope scope
  constructor
  · rw [htotal, h.total, ← hheld _ rfl]
    rfl
  · intro scope
    rw [hfind, h.principal, ← hheld _ rfl]
    by_cases heq : scope = r.principalScope
    · rw [if_pos heq, if_pos (ofPrincipal_iff.mpr heq.symm), Nat.add_sub_cancel]
    · have hne : ¬ ofPrincipal scope r = true :=
        fun hof => heq (ofPrincipal_iff.mp hof).symm
      rw [if_neg heq, if_neg hne, Nat.add_zero, Nat.sub_zero]
  · rw [htotal]
    exact (Nat.sub_le _ _).trans h.withinTotal
  · intro scope
    rw [hfind]
    exact (Nat.sub_le _ _).trans (h.withinPrincipal scope)

/-!
# Effects on the counters
-/

structure SameCounters (x y : Service report) : Prop where
  total : y.admittedTasks = x.admittedTasks
  principal : y.admittedByPrincipal = x.admittedByPrincipal

theorem settle_counters (x : Service report) (taskId : Str)
    (outcome : Outcome) (now : Nat) :
    SameCounters x (x.settle taskId outcome now) := by
  cases outcome with
  | _ => exact ⟨rfl, rfl⟩

theorem releaseTargetLock_counters (x : Service report) (target : Str)
    (lock : Nat) : SameCounters x (x.releaseTargetLock target lock) := by
  rw [releaseTargetLock]
  split
  · exact ⟨rfl, rfl⟩
  · split
    case isTrue => exact ⟨rfl, rfl⟩
    case isFalse => exact ⟨rfl, rfl⟩

theorem retainTargetLock_counters (x : Service report) (target : Str) :
    SameCounters x (x.retainTargetLock target).2 := by
  rw [retainTargetLock]
  split
  · exact ⟨rfl, rfl⟩
  · exact ⟨rfl, rfl⟩

theorem releaseAdmission_congr (h : SameCounters x y)
    (principalScope : Str) :
    SameCounters (x.releaseAdmission principalScope)
      (y.releaseAdmission principalScope) := by
  rw [releaseAdmission, releaseAdmission, h.total, h.principal]
  split
  case isTrue => exact h
  case isFalse => exact ⟨rfl, rfl⟩

theorem quit_counters (limits : CompileLimits) (x : Service report) (i : Nat)
    (r : Runner) (lock : Nat) (outcome : Outcome) (now semaphore : Nat)
    (locked : Nat -> Bool) :
    SameCounters (x.releaseAdmission r.principalScope)
      (x.quit limits i r lock outcome now semaphore locked) := by
  have hsettle := settle_counters x r.taskId outcome now
  have hlock := releaseTargetLock_counters
    { x.settle r.taskId outcome now with
      locked := locked
      semaphore := semaphore } r.target lock
  have hfinished : SameCounters x
      (({ x.settle r.taskId outcome now with
        locked := locked
        semaphore := semaphore }.releaseTargetLock r.target lock).update
          r.taskId CompileTask.finish now) :=
    ⟨hlock.total.trans hsettle.total, hlock.principal.trans hsettle.principal⟩
  have hreleased := releaseAdmission_congr hfinished r.principalScope
  exact ⟨hreleased.total, hreleased.principal⟩

theorem Counted.effect (h : Counted limits x) (heffect : Effect limits skips x x')
    : Counted limits x' := by
  cases heffect with
  | same => exact h
  | @enqueue taskId principalScope target resumed now y hfresh hadmitted =>
    exact h.enqueue (r := ⟨taskId, principalScope, target, .created⟩) hadmitted
      rfl rfl rfl rfl
  | touch hsettles hends hsalvages => exact h.congr rfl rfl rfl
  | late hmem => exact h.congr rfl rfl rfl
  | @start i r hi hphase =>
    have hsame := retainTargetLock_counters x r.target
    exact h.setPhase hi
      (congrArg (List.set · i _) (retainTargetLock_same x r.target).runners)
      hsame.total hsame.principal (hphase ▸ rfl) rfl
  | startCancelled hskips hi hphase =>
    exact h.setPhase hi rfl rfl rfl (hphase ▸ rfl) rfl
  | takeLock hi hphase hfree =>
    exact h.setPhase hi rfl rfl rfl (hphase ▸ rfl) rfl
  | go hi hlive hshift hallowed =>
    exact h.setPhase hi rfl rfl rfl
      (RunnerPhase.holdsAdmission_of_not_ended hshift.wasNotEnded)
      (RunnerPhase.holdsAdmission_of_not_ended hshift.notEnded)
  | shift hi hshift hafter hsalvages =>
    exact h.setPhase hi rfl rfl rfl
      (RunnerPhase.holdsAdmission_of_not_ended hshift.wasNotEnded)
      (RunnerPhase.holdsAdmission_of_not_ended hshift.notEnded)
  | @quit i r lock outcome now semaphore locked hi hretained hlocked =>
    have hcounters := quit_counters limits x i r lock outcome now semaphore locked
    have hholds : r.phase.holdsAdmission = true := by
      cases hphase : r.phase with
      | ended ran =>
        rw [hphase] at hretained
        cases hretained
      | _ => rfl
    exact h.release hi hholds
      (quit_eq limits x i r lock outcome now semaphore locked).2.1
      hcounters.total hcounters.principal
  | restart => exact Counted.empty rfl rfl rfl

theorem Counted.start : Counted limits (start limits : Service report) :=
  Counted.empty rfl rfl rfl

end Service
end Compile
end OpenViking
