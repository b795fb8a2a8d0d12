import OpenViking.Compile.Admission
import OpenViking.Compile.TargetLocks

/-!
# The lifecycle over whole runs

The tasks settle and the runners of a target take turns in every run.  The
counters agree with the runners as long as no runner skips its body.
-/

namespace OpenViking
namespace Compile

open Paths Interleaving List

variable {report : Type} {limits : CompileLimits}

namespace Service

variable {skips : Prop} {x x' y : Service report}

/-- How many of some runners have not finished. -/
def unfinished (x : Service report) (among : Runner -> Bool) : Nat :=
  x.runners.countP fun r => among r && !r.phase.isEnded

/-- What holds between a state of a run and a later one. -/
structure Orderly (limits : CompileLimits) (x y : Service report) : Prop where
  terminal : forall taskId t t', x.store.find taskId = some t ->
    y.store.find taskId = some t' -> t.terminal = true ->
      t'.status = t.status ∧ t'.result = t.result
  cancelling : forall taskId t t', x.store.find taskId = some t ->
    y.store.find taskId = some t' -> t.status = .cancelling ->
      t'.status = .cancelling ∨ t'.status = .cancelled
  reported : forall taskId principalScope t t',
    x.getTask taskId principalScope = some t ->
      y.getTask taskId principalScope = some t' -> t.status = .cancelled ->
        t'.status ≠ .completed
  total : y.admittedTasks = y.unfinished fun _ => true
  principal : forall principalScope,
    (y.admittedByPrincipal.find principalScope).getD 0 =
      y.unfinished (ofPrincipal principalScope)
  withinTotal : y.admittedTasks ≤ limits.acceptedTasks
  withinPrincipal : forall principalScope,
    (y.admittedByPrincipal.find principalScope).getD 0 ≤
      limits.acceptedTasksPerPrincipal
  drained : (forall r, r ∈ y.runners -> r.phase.isEnded = true) ->
    y.admittedTasks = 0 ∧ forall principalScope,
      (y.admittedByPrincipal.find principalScope).getD 0 = 0
  exclusive : forall (i j : Nat) (r r' : Runner), y.runners[i]? = some r ->
    y.runners[j]? = some r' -> r.phase.executing = true ->
      r'.phase.executing = true -> r.target = r'.target -> i = j

/-!
# One effect
-/

theorem Effect.issued_subset (h : Effect limits skips x x') :
    x.issued ⊆ x'.issued := by
  cases h with
  | enqueue hfresh hadmitted =>
    rw [← (admitTask_eq hadmitted).2.2.1]
    exact subset_cons_self _ _
  | @start i r hi hphase =>
    have hsame := (retainTargetLock_same x r.target).issued
    exact hsame ▸ List.Subset.refl _
  | @quit i r lock outcome now semaphore locked hi hretained hlocked =>
    rw [(quit_eq limits x i r lock outcome now semaphore locked).2.2.1]
    exact List.Subset.refl _
  | _ => exact List.Subset.refl _

/-- No runner has skipped its body. -/
def AllRan (x : Service report) : Prop :=
  forall r, r ∈ x.runners -> r.phase ≠ .ended false

theorem AllRan.setPhase (h : x.AllRan) {i : Nat} {r : Runner}
    {phase : RunnerPhase} (hphase : phase ≠ .ended false)
    (hrunners : y.runners = x.runners.set i { r with phase := phase }) :
    y.AllRan := by
  intro r' hr'
  rw [hrunners] at hr'
  rcases mem_set hr' with heq | ⟨j, _, hj⟩
  · rw [heq]
    exact hphase
  · exact h r' (mem_of_getElem? hj)

theorem ne_ended {phase : RunnerPhase} {ran : Bool}
    (h : phase.isEnded = false) : phase ≠ .ended ran := by
  intro heq
  rw [heq] at h
  cases h

theorem AllRan.effect (h : x.AllRan) (heffect : Effect limits False x x') :
    x'.AllRan := by
  cases heffect with
  | enqueue hfresh hadmitted =>
    intro r hr
    rcases mem_append.mp hr with hold | hnew
    · rw [(admitTask_eq hadmitted).2.1] at hold
      exact h r hold
    · rw [mem_singleton.mp hnew]
      exact ne_ended rfl
  | @start i r hi hphase =>
    exact h.setPhase (ne_ended rfl) (congrArg (set · i _)
      (retainTargetLock_same x r.target).runners)
  | startCancelled hskips hi hphase => cases hskips
  | takeLock hi hphase hfree => exact h.setPhase (ne_ended rfl) rfl
  | go hi hlive hshift hallowed =>
    exact h.setPhase (ne_ended hshift.notEnded) rfl
  | shift hi hshift hafter hsalvages =>
    exact h.setPhase (ne_ended hshift.notEnded) rfl
  | @quit i r lock outcome now semaphore locked hi hretained hlocked =>
    refine h.setPhase ?_
      (quit_eq limits x i r lock outcome now semaphore locked).2.1
    exact fun heq => by cases heq
  | restart => exact fun r hr => absurd hr not_mem_nil
  | _ => exact h

theorem AllRan.unfinished_eq (h : x.AllRan) (among : Runner -> Bool) :
    x.unfinished among = x.held among := by
  apply countP_congr
  intro r hr
  have hne := h r hr
  cases hphase : r.phase with
  | ended ran =>
    cases ran with
    | false => exact absurd hphase hne
    | true => rfl
  | _ => rfl

/-!
# Runs
-/

structure Invariant (limits : CompileLimits) (x : Service report) : Prop where
  tracked : x.Tracked
  counted : Counted limits x
  locked : x.Locked
  allRan : x.AllRan

theorem Tracked.start : (start limits : Service report).Tracked := by
  constructor
  · intro taskId t hfind
    change (∅ : Assoc Str (CompileTask report)).find taskId = some t at hfind
    rw [Assoc.find_empty] at hfind
    cases hfind
  · exact fun r hr => absurd hr not_mem_nil
  · exact nodup_nil
  · exact fun r hr => absurd hr not_mem_nil
  · exact fun taskId hmem => absurd hmem not_mem_nil

theorem Invariant.start : Invariant limits (start limits : Service report) :=
  ⟨Tracked.start, Counted.start, Locked.start,
    fun _ hr => absurd hr not_mem_nil⟩

/-- What a later state has kept of an earlier one. -/
structure Later (limits : CompileLimits) (x y : Service report) : Prop where
  invariant : Invariant limits y
  issued : x.issued ⊆ y.issued
  settles : CompileTaskStore.Settles x.issued x.store y.store

theorem Invariant.later (h : Invariant limits x) : Later limits x x :=
  ⟨h, List.Subset.refl _, CompileTaskStore.Settles.refl _ _⟩

variable {z : Service report}

theorem Later.effect (h : Later limits x y)
    (heffect : Effect limits False y z) : Later limits x z := by
  have hinv := h.invariant
  constructor
  · exact ⟨hinv.tracked.effect heffect, hinv.counted.effect heffect,
      hinv.locked.effect heffect, hinv.allRan.effect heffect⟩
  · exact List.Subset.trans h.issued heffect.issued_subset
  · have hsettles := hinv.tracked.settles heffect
    exact h.settles.trans fun taskId t hissued =>
      hsettles taskId t (h.issued hissued)

theorem Later.step (h : Later limits x y)
    {l : ServiceStep report} (hruns : ¬ l.skips)
    (hstep : y.step limits l = some z) : Later limits x z := by
  have heffects := effect_of_step hstep
  rw [eq_false hruns] at heffects
  clear hstep
  induction heffects with
  | refl => exact h
  | tail _ heffect ih => exact ih.effect heffect

/-- No runner that is cancelled before its first step takes that step. -/
def RunsBody (_ : Service report) (l : ServiceStep report) : Prop :=
  ¬ l.skips

theorem Later.run (h : Later limits x y) {ls : List (ServiceStep report)}
    (hmeets : Interleaving.Meets (Service.step limits) RunsBody y ls)
    (hrun : run (Service.step limits) y ls = some z) :
    Later limits x z :=
  run_inv (Service.step limits)
    (fun hlater hok hstep => hlater.step hok hstep) h hmeets hrun

theorem Later.orderly (hx : Invariant limits x) (h : Later limits x y) :
    Orderly limits x y := by
  have hinv := h.invariant
  have hkeeps : forall taskId t t', x.store.find taskId = some t ->
      y.store.find taskId = some t' -> t.Settles t' := by
    intro taskId t t' hfind hfind'
    rcases h.settles taskId t' (hx.tracked.known taskId t hfind) hfind' with
      ⟨told, hold, hsettles⟩
    rw [hfind] at hold
    cases hold
    exact hsettles
  have htotal : y.admittedTasks = y.unfinished fun _ => true :=
    hinv.counted.total.trans (hinv.allRan.unfinished_eq _).symm
  have hprincipal : forall principalScope,
      (y.admittedByPrincipal.find principalScope).getD 0 =
        y.unfinished (ofPrincipal principalScope) :=
    fun principalScope => (hinv.counted.principal principalScope).trans
      (hinv.allRan.unfinished_eq _).symm
  constructor
  · exact fun taskId t t' hfind hfind' =>
      (hkeeps taskId t t' hfind hfind').terminal
  · exact fun taskId t t' hfind hfind' =>
      (hkeeps taskId t t' hfind hfind').cancelling
  · intro taskId principalScope t t' hget hget' hcancelled hcompleted
    have hsettles := hkeeps taskId t t' (Option.filter_eq_some_iff.mp hget).1
      (Option.filter_eq_some_iff.mp hget').1
    have hterminal : t.terminal = true := by
      rw [CompileTask.terminal, hcancelled]
      rfl
    rw [(hsettles.terminal hterminal).1, hcancelled] at hcompleted
    cases hcompleted
  · exact htotal
  · exact hprincipal
  · exact hinv.counted.withinTotal
  · exact hinv.counted.withinPrincipal
  · intro hended
    have hnone : forall among, y.unfinished among = 0 := by
      intro among
      apply countP_eq_zero.mpr
      intro r hr hcounted
      rw [hended r hr, Bool.not_true, Bool.and_false] at hcounted
      cases hcounted
    exact ⟨htotal.trans (hnone _),
      fun principalScope => (hprincipal principalScope).trans (hnone _)⟩
  · exact fun i j r r' hi hj => hinv.locked.exclusive hi hj

/-- In a run in which every runner runs its body, each state is orderly after
each earlier one. -/
theorem lifecycle_orderly {ls ls' : List (ServiceStep report)}
    (hmeets : Interleaving.Meets (step limits) RunsBody (start limits) ls)
    (hrun : run (step limits) (start limits) ls = some x)
    (hmeets' : Interleaving.Meets (step limits) RunsBody x ls')
    (hrun' : run (step limits) x ls' = some y) :
    Orderly limits x y := by
  have hx : Invariant limits x :=
    (Invariant.start.later.run hmeets hrun).invariant
  exact Later.orderly hx (hx.later.run hmeets' hrun')

/-- Two tasks of one target: the second one waits for the lock. -/
def firstSteps : List (ServiceStep Unit) :=
  [.create "cmp_1".toList "u".toList "viking://t".toList 0,
    .create "cmp_2".toList "u".toList "viking://t".toList 0,
    .start 0, .takeLock 0, .takeSlot 0 1, .start 1]

/-- The first one is cancelled, and the second one runs and completes. -/
def laterSteps : List (ServiceStep Unit) :=
  [.cancel "cmp_1".toList "u".toList 2, .interrupted 0, .leave 0 3,
    .takeLock 1, .takeSlot 1 4, .complete 1 ⟨true, ()⟩ 5, .leave 1 6]

theorem lifecycle_orderly_completed :
    exists x y : Service Unit,
      run (step ⟨1, 2, 2, 10, 2⟩) (start ⟨1, 2, 2, 10, 2⟩) firstSteps = some x ∧
        run (step ⟨1, 2, 2, 10, 2⟩) x laterSteps = some y ∧
        (y.store.find "cmp_1".toList).map CompileTask.status = some .cancelled ∧
        (y.store.find "cmp_2".toList).map CompileTask.status = some .completed ∧
        Orderly ⟨1, 2, 2, 10, 2⟩ x y := by
  have hsome : (run (step ⟨1, 2, 2, 10, 2⟩) (start ⟨1, 2, 2, 10, 2⟩)
      firstSteps).isSome = true := by
    decide +kernel
  rcases Option.isSome_iff_exists.mp hsome with ⟨x, hx⟩
  have hstatus : ((run (step ⟨1, 2, 2, 10, 2⟩) (start ⟨1, 2, 2, 10, 2⟩)
      firstSteps).bind fun x => run (step ⟨1, 2, 2, 10, 2⟩) x laterSteps).any
        (fun y => (y.store.find "cmp_1".toList).map CompileTask.status ==
            some .cancelled &&
          (y.store.find "cmp_2".toList).map CompileTask.status ==
            some .completed) = true := by
    decide +kernel
  rw [hx] at hstatus
  rcases (Option.any_eq_true _ _).1 hstatus with ⟨y, hy, hboth⟩
  simp only [Bool.and_eq_true, beq_iff_eq] at hboth
  have hruns : forall (x : Service Unit) ls,
      (forall l : ServiceStep Unit, l ∈ ls -> ¬ l.skips) ->
        Interleaving.Meets (step ⟨1, 2, 2, 10, 2⟩) RunsBody x ls :=
    fun x ls h => meets_of_forall _ fun l hl _ => h l hl
  refine ⟨x, y, hx, hy, hboth.1, hboth.2, lifecycle_orderly ?_ hx ?_ hy⟩
  · apply hruns
    simp [firstSteps, ServiceStep.skips]
  · apply hruns
    simp [laterSteps, ServiceStep.skips]

/-- A cancel before the runner's first step: the runner ends, its admission
stays, and the task is cancelling for good. -/
theorem cancelled_before_start_leaks :
    exists y : Service Unit,
      run (step ⟨1, 1, 1, 0, 1⟩) (start ⟨1, 1, 1, 0, 1⟩)
          [.create "cmp_1".toList "u".toList "viking://t".toList 0,
            .cancel "cmp_1".toList "u".toList 1, .startCancelled 0] = some y ∧
        (forall r, r ∈ y.runners -> r.phase.isEnded = true) ∧
        y.admittedTasks = 1 ∧
        (y.unfinished fun _ => true) = 0 ∧
        (y.store.find "cmp_1".toList).map CompileTask.status =
          some .cancelling ∧
        ¬ Orderly ⟨1, 1, 1, 0, 1⟩ (start ⟨1, 1, 1, 0, 1⟩) y := by
  let run := run (step ⟨1, 1, 1, 0, 1⟩)
    (start ⟨1, 1, 1, 0, 1⟩ : Service Unit)
    [.create "cmp_1".toList "u".toList "viking://t".toList 0,
      .cancel "cmp_1".toList "u".toList 1, .startCancelled 0]
  have hsome : run.isSome = true := by
    decide +kernel
  have hall : run.all (fun y => y.runners.all (·.phase.isEnded) &&
      y.admittedTasks == 1 && (y.unfinished fun _ => true) == 0 &&
      (y.store.find "cmp_1".toList).map CompileTask.status ==
        some .cancelling) = true := by
    decide +kernel
  rcases Option.isSome_iff_exists.mp hsome with ⟨y, hy⟩
  rw [hy, Option.all_some] at hall
  simp only [Bool.and_eq_true, List.all_eq_true, beq_iff_eq] at hall
  rcases hall with ⟨⟨⟨hended, htotal⟩, hnone⟩, hstatus⟩
  refine ⟨y, hy, hended, htotal, hnone, hstatus, ?_⟩
  intro h
  have heq := h.total
  rw [htotal, hnone] at heq
  cases heq

end Service
end Compile
end OpenViking
