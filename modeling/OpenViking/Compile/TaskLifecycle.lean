import OpenViking.Compile.ServiceEffects

/-!
# The life of a task

A task whose runner may still write it is neither terminal nor pruned, so the
mutator that completes a task never meets a terminal one.
-/

namespace OpenViking
namespace Compile

open Paths Assoc List CompileTaskStore CompileTask

variable {report : Type} {limits : CompileLimits} {skips : Prop}

namespace Service

variable {x x' : Service report}

structure Tracked (x : Service report) : Prop where
  known : forall taskId t, x.store.find taskId = some t -> taskId ∈ x.issued
  run : forall r, r ∈ x.runners -> r.taskId ∈ x.issued
  distinct : (x.runners.map Runner.taskId).Nodup
  live : forall r, r ∈ x.runners -> r.phase.live = true ->
    exists t, x.store.find r.taskId = some t ∧ t.terminal = false
  salvaged : forall taskId, taskId ∈ x.salvages -> taskId ∈ x.issued ∧
    forall r, r ∈ x.runners -> r.taskId = taskId -> r.phase.live = false

/-!
# One runner
-/

theorem Tracked.eq_of_taskId (h : x.Tracked) {i j : Nat} {r r' : Runner}
    (hi : x.runners[i]? = some r) (hj : x.runners[j]? = some r')
    (heq : r.taskId = r'.taskId) : i = j := by
  have hlt : i < (x.runners.map Runner.taskId).length := by
    rw [List.length_map]
    exact (List.getElem?_eq_some_iff.mp hi).1
  apply (List.getElem?_inj hlt h.distinct).mp
  rw [List.getElem?_map, List.getElem?_map, hi, hj]
  exact congrArg some heq

theorem mem_set {i : Nat} {r' after : Runner}
    (h : r' ∈ x.runners.set i after) :
    r' = after ∨ exists j, j ≠ i ∧ x.runners[j]? = some r' := by
  rcases getElem?_of_mem h with ⟨j, hj⟩
  rcases Interleaving.getElem?_set_cases hj with ⟨_, heq⟩ | ⟨hne, hold⟩
  · exact .inl heq
  · exact .inr ⟨j, hne, hold⟩

/-!
# Effects on the invariant
-/

variable {y : Service report}

/-- A new phase for one runner; the store has the tasks of live runners still
open. -/
theorem Tracked.setPhase (h : x.Tracked) {i : Nat} {r : Runner}
    (hi : x.runners[i]? = some r) {phase : RunnerPhase}
    (hrunners : y.runners = x.runners.set i { r with phase := phase })
    (hissued : y.issued = x.issued)
    (hknown : forall taskId t, y.store.find taskId = some t -> taskId ∈ x.issued)
    (hself : phase.live = true ->
      exists t, y.store.find r.taskId = some t ∧ t.terminal = false)
    (hothers : forall taskId, taskId ≠ r.taskId -> forall t,
      x.store.find taskId = some t -> t.terminal = false ->
        y.store.find taskId = some t)
    (hsalvages : y.salvages ⊆ x.salvages ∨
      phase.live = false ∧ y.salvages ⊆ r.taskId :: x.salvages)
    (hlive : phase.live = true -> r.phase.live = true) : y.Tracked := by
  have hmem := mem_of_getElem? hi
  have hother : forall j r', j ≠ i -> x.runners[j]? = some r' ->
      r'.taskId ≠ r.taskId :=
    fun j r' hne hj heq => hne (h.eq_of_taskId hj hi heq)
  have hcases : forall r', r' ∈ y.runners -> r' = { r with phase := phase } ∨
        r' ∈ x.runners ∧ r'.taskId ≠ r.taskId := by
    intro r' hr'
    rw [hrunners] at hr'
    rcases mem_set hr' with heq | ⟨j, hne, hj⟩
    · exact .inl heq
    · exact .inr ⟨mem_of_getElem? hj, hother j r' hne hj⟩
  constructor
  · rw [hissued]
    exact hknown
  · intro r' hr'
    rw [hissued]
    rcases hcases r' hr' with heq | ⟨hold, _⟩
    · rw [heq]
      exact h.run r hmem
    · exact h.run r' hold
  · have hids : (x.runners.set i { r with phase := phase }).map
        Runner.taskId = x.runners.map Runner.taskId :=
      Interleaving.map_set_of_some Runner.taskId hi rfl
    rw [hrunners, hids]
    exact h.distinct
  · intro r' hr' hphase
    rcases hcases r' hr' with heq | ⟨hold, hne⟩
    · rw [heq] at hphase ⊢
      exact hself hphase
    · rcases h.live r' hold hphase with ⟨t, hfind, hopen⟩
      exact ⟨t, hothers r'.taskId hne t hfind hopen, hopen⟩
  · intro taskId htask
    rw [hissued]
    by_cases heq : taskId = r.taskId
    · rw [heq]
      refine ⟨h.run r hmem, ?_⟩
      intro r' hr' hid
      rcases hcases r' hr' with hr | ⟨_, hne⟩
      · rw [hr]
        rcases hsalvages with hsub | ⟨hphase, _⟩
        · have hwas := (h.salvaged taskId (hsub htask)).2 r hmem heq.symm
          cases hphase : phase.live with
          | false => rfl
          | true =>
            rw [hlive hphase] at hwas
            cases hwas
        · exact hphase
      · exact absurd hid hne
    · have hin : taskId ∈ x.salvages := by
        rcases hsalvages with hsub | ⟨_, hsub⟩
        · exact hsub htask
        · exact (mem_cons.mp (hsub htask)).resolve_left heq
      rcases h.salvaged taskId hin with ⟨hknown, hdone⟩
      refine ⟨hknown, ?_⟩
      intro r' hr' hid
      rcases hcases r' hr' with hr | ⟨hold, _⟩
      · rw [hr] at hid
        exact absurd hid.symm heq
      · exact hdone r' hold hid

variable {mutate : CompileTask report -> CompileTask report}

variable {taskId : Str}

variable {now : Nat}

theorem known_update (h : x.Tracked) (taskId' : Str) (t : CompileTask report)
    (hfind : (x.store.update taskId mutate now).find taskId' = some t) :
    taskId' ∈ x.issued := by
  rw [find_update] at hfind
  split at hfind
  case isTrue heq =>
    rcases Option.map_eq_some_iff.mp hfind with ⟨told, hold, _⟩
    rw [heq]
    exact h.known taskId told hold
  case isFalse => exact h.known taskId' t hfind

variable {s : CompileTaskStore report}

theorem find_update_other {taskId' : Str} (hne : taskId' ≠ taskId) :
    (s.update taskId mutate now).find taskId' = s.find taskId' := by
  rw [find_update, if_neg hne]

theorem find_update_self {t : CompileTask report} (h : s.find taskId = some t) :
    (s.update taskId mutate now).find taskId =
      some { mutate t with updatedAt := now } := by
  rw [find_update, if_pos rfl, h]
  rfl

theorem Tracked.touch (h : x.Tracked)
    (hstore : y.store = x.store.update taskId mutate now)
    (hrunners : y.runners = x.runners) (hissued : y.issued = x.issued)
    (hstays : forall r, r ∈ x.runners -> r.taskId = taskId ->
      r.phase.live = true -> forall t, t.terminal = false ->
        (mutate t).terminal = false)
    (hsalvages : y.salvages ⊆ x.salvages) : y.Tracked := by
  constructor
  · intro taskId' t hfind
    rw [hissued]
    rw [hstore] at hfind
    exact known_update h taskId' t hfind
  · rw [hrunners, hissued]
    exact h.run
  · rw [hrunners]
    exact h.distinct
  · intro r hr hphase
    rw [hrunners] at hr
    rcases h.live r hr hphase with ⟨t, hfind, hopen⟩
    rw [hstore]
    by_cases heq : r.taskId = taskId
    · rw [heq] at hfind ⊢
      exact ⟨_, find_update_self hfind, hstays r hr heq hphase t hopen⟩
    · exact ⟨t, (find_update_other heq).trans hfind, hopen⟩
  · intro taskId' htask
    rw [hrunners, hissued]
    exact h.salvaged taskId' (hsalvages htask)

theorem admitTask_eq {principalScope : Str}
    (h : x.admitTask limits principalScope = some y) :
    y.store = x.store ∧ y.runners = x.runners ∧ y.issued = x.issued ∧
      y.salvages = x.salvages := by
  rw [admitTask] at h
  split at h
  case isTrue => cases h
  case isFalse =>
    cases h
    exact ⟨rfl, rfl, rfl, rfl⟩

theorem Tracked.enqueue (h : x.Tracked) {r : Runner}
    {t : CompileTask report} (hid : r.taskId = taskId)
    (hopen : t.terminal = false) (hfresh : taskId ∉ x.issued) (hstore : y.store = put x.store taskId t)
    (hrunners : y.runners = x.runners ++ [r])
    (hissued : y.issued = taskId :: x.issued)
    (hsalvages : y.salvages = x.salvages) : y.Tracked := by
  have hnot : forall r', r' ∈ x.runners -> r'.taskId ≠ taskId := by
    intro r' hr' heq
    apply hfresh
    rw [← heq]
    exact h.run r' hr'
  constructor
  · intro taskId' t' hfind
    rw [hissued]
    rw [hstore, find_put] at hfind
    split at hfind
    case isTrue heq =>
      rw [heq]
      exact mem_cons_self
    case isFalse => exact mem_cons_of_mem _ (h.known taskId' t' hfind)
  · intro r' hr'
    rw [hissued]
    rw [hrunners] at hr'
    rcases mem_append.mp hr' with hold | hnew
    · exact mem_cons_of_mem _ (h.run r' hold)
    · rw [mem_singleton.mp hnew, hid]
      exact mem_cons_self
  · rw [hrunners, map_append, nodup_append]
    refine ⟨h.distinct, nodup_singleton _, ?_⟩
    intro taskId' hold other hnew heq
    rcases mem_map.mp hold with ⟨r', hr', hid'⟩
    apply hnot r' hr'
    rw [hid', heq, mem_singleton.mp hnew, hid]
  · intro r' hr' hphase
    rw [hrunners] at hr'
    rw [hstore]
    rcases mem_append.mp hr' with hold | hnew
    · rcases h.live r' hold hphase with ⟨t', hfind, hopen'⟩
      refine ⟨t', ?_, hopen'⟩
      rw [find_put_ne _ _ (hnot r' hold)]
      exact hfind
    · rw [mem_singleton.mp hnew, hid]
      exact ⟨t, find_put_self .., hopen⟩
  · intro taskId' htask
    rw [hsalvages] at htask
    rcases h.salvaged taskId' htask with ⟨hknown, hdone⟩
    rw [hissued]
    refine ⟨mem_cons_of_mem _ hknown, ?_⟩
    intro r' hr' hid'
    rw [hrunners] at hr'
    rcases mem_append.mp hr' with hold | hnew
    · exact hdone r' hold hid'
    · rw [mem_singleton.mp hnew, hid] at hid'
      rw [hid'] at hfresh
      exact absurd hknown hfresh

/-!
# What the parts of a step leave alone
-/

structure SameTasks (x y : Service report) : Prop where
  store : y.store = x.store
  runners : y.runners = x.runners
  issued : y.issued = x.issued
  salvages : y.salvages = x.salvages

theorem releaseAdmission_same (x : Service report) (principalScope : Str) :
    SameTasks x (x.releaseAdmission principalScope) := by
  rw [releaseAdmission]
  split
  case isTrue => exact ⟨rfl, rfl, rfl, rfl⟩
  case isFalse => exact ⟨rfl, rfl, rfl, rfl⟩

theorem releaseTargetLock_same (x : Service report) (target : Str)
    (lock : Nat) : SameTasks x (x.releaseTargetLock target lock) := by
  rw [releaseTargetLock]
  split
  · exact ⟨rfl, rfl, rfl, rfl⟩
  · split
    case isTrue => exact ⟨rfl, rfl, rfl, rfl⟩
    case isFalse => exact ⟨rfl, rfl, rfl, rfl⟩

theorem retainTargetLock_same (x : Service report) (target : Str) :
    SameTasks x (x.retainTargetLock target).2 := by
  rw [retainTargetLock]
  split
  · exact ⟨rfl, rfl, rfl, rfl⟩
  · exact ⟨rfl, rfl, rfl, rfl⟩

/-- The store after a runner has left. -/
def quitStore (limits : CompileLimits) (x : Service report) (taskId : Str)
    (outcome : Outcome) (now : Nat) : CompileTaskStore report :=
  ((x.settle taskId outcome now).store.update taskId CompileTask.finish
    now).pruneTerminal limits.terminalTaskRetention
      limits.terminalTaskRecords now

theorem finishRunner_eq (hsame : SameTasks x y)
    (i : Nat) (r : Runner) (now : Nat) :
    (y.finishRunner limits i r now).store =
        ((x.store.update r.taskId finish now).pruneTerminal
          limits.terminalTaskRetention limits.terminalTaskRecords now) ∧
      (y.finishRunner limits i r now).runners =
        x.runners.set i { r with phase := .ended true } ∧
      (y.finishRunner limits i r now).issued = x.issued ∧
      (y.finishRunner limits i r now).salvages = x.salvages := by
  have hadmission := releaseAdmission_same
    (y.update r.taskId finish now) r.principalScope
  refine ⟨?_, ?_, ?_, ?_⟩
  · show pruneTerminal
      ((y.update r.taskId finish now).releaseAdmission
        r.principalScope).store _ _ now = _
    rw [hadmission.store, ← hsame.store]
    rfl
  · show set ((y.update r.taskId finish
      now).releaseAdmission r.principalScope).runners i _ = _
    rw [hadmission.runners, ← hsame.runners]
    rfl
  · exact hadmission.issued.trans hsame.issued
  · exact hadmission.salvages.trans hsame.salvages

theorem settle_settles (x : Service report) (taskId : Str) (outcome : Outcome)
    (now : Nat) (issued : List Str) :
    CompileTaskStore.Settles issued x.store
      (x.settle taskId outcome now).store := by
  cases outcome with
  | returned => exact CompileTaskStore.Settles.refl _ _
  | cancelled => exact CompileTaskStore.Settles.refl _ _
  | raised code message stage =>
    exact update_settles (fun t _ => t.fail_settles _) now

theorem settle_other (x : Service report) {taskId' : Str}
    (outcome : Outcome) (now : Nat) (hne : taskId' ≠ taskId) :
    (x.settle taskId outcome now).store.find taskId' =
      x.store.find taskId' := by
  cases outcome with
  | returned => rfl
  | cancelled => rfl
  | raised code message stage => exact find_update_other hne

theorem settle_same (x : Service report) (taskId : Str) (outcome : Outcome)
    (now : Nat) :
    (x.settle taskId outcome now).runners = x.runners ∧
      (x.settle taskId outcome now).issued = x.issued ∧
      (x.settle taskId outcome now).salvages = x.salvages := by
  cases outcome with
  | _ => exact ⟨rfl, rfl, rfl⟩

theorem quitStore_settles (limits : CompileLimits) (x : Service report)
    (taskId : Str) (outcome : Outcome) (now : Nat) (issued : List Str) :
    CompileTaskStore.Settles issued x.store
      (x.quitStore limits taskId outcome now) :=
  ((settle_settles x taskId outcome now issued).trans
    (update_settles (fun t _ => t.finish_settles) now)).trans
      (pruneTerminal_settles _ _ _ now)

theorem quit_eq (limits : CompileLimits) (x : Service report) (i : Nat)
    (r : Runner) (lock : Nat) (outcome : Outcome) (now semaphore : Nat)
    (locked : Nat -> Bool) :
    let y := x.quit limits i r lock outcome now semaphore locked
    y.store = x.quitStore limits r.taskId outcome now ∧
      y.runners = x.runners.set i { r with phase := .ended true } ∧
      y.issued = x.issued ∧ y.salvages = x.salvages := by
  intro y
  have hlock := releaseTargetLock_same { x.settle r.taskId outcome now with
    locked := locked
    semaphore := semaphore } r.target lock
  rcases finishRunner_eq hlock i r now with
    ⟨hstore, hrunners, hissued, hsalvages⟩
  rcases settle_same x r.taskId outcome now with ⟨hr, his, hsa⟩
  constructor
  · exact hstore
  constructor
  · refine hrunners.trans ?_
    exact congrArg (set · i _) hr
  · exact ⟨hissued.trans his, hsalvages.trans hsa⟩

theorem restarted_settles (limits : CompileLimits) (x : Service report)
    (now : Nat) (issued : List Str) :
    CompileTaskStore.Settles issued x.store (x.restarted limits now).store :=
  (interruptAll_settles now _ x.store).trans
    (pruneTerminal_settles _ _ _ now)

/-!
# Steps
-/

theorem Tracked.effect (h : x.Tracked) (heffect : Effect limits skips x x') :
    x'.Tracked := by
  cases heffect with
  | same => exact h
  | @enqueue taskId principalScope target resumed now y hfresh hadmitted =>
    rcases admitTask_eq hadmitted with ⟨hstore, hrunners, hissued, hsalvages⟩
    refine h.enqueue (r := ⟨taskId, principalScope, target, .created⟩)
      (t := create principalScope target resumed now) rfl rfl
      hfresh ?_ ?_ ?_ hsalvages
    · exact congrArg (put · _ _) hstore
    · exact congrArg (· ++ _) hrunners
    · exact congrArg (_ :: ·) hissued
  | touch hsettles hends hsalvages =>
    refine h.touch rfl rfl rfl ?_ hsalvages
    intro r hr heq hlive t hopen
    rw [← Bool.not_eq_true]
    intro hterminal
    rw [hends t hopen hterminal r hr heq] at hlive
    cases hlive
  | late hmem =>
    refine h.touch rfl rfl rfl ?_ erase_subset
    intro r hr heq hlive
    rw [(h.salvaged _ hmem).2 r hr heq] at hlive
    cases hlive
  | @start i r hi hphase =>
    have hsame := retainTargetLock_same x r.target
    apply h.setPhase hi
      (y := (x.retainTargetLock r.target).2.setPhase i r
        (.queued (x.retainTargetLock r.target).1))
    · exact congrArg (set · i _) hsame.runners
    · exact hsame.issued
    · intro taskId t hfind
      exact h.known taskId t (hsame.store ▸ hfind)
    · intro _
      rcases h.live r (mem_of_getElem? hi) (hphase ▸ rfl) with
        ⟨t, hfind, hopen⟩
      exact ⟨t, hsame.store ▸ hfind, hopen⟩
    · exact fun taskId _ t hfind _ => hsame.store ▸ hfind
    · exact .inl (hsame.salvages ▸ List.Subset.refl _)
    · exact fun _ => hphase ▸ rfl
  | startCancelled hskips hi hphase =>
    refine h.setPhase hi rfl rfl h.known ?_ ?_ (Or.inl (List.Subset.refl _)) ?_
    · exact fun hlive => by cases hlive
    · exact fun _ _ _ hfind _ => hfind
    · exact fun hlive => by cases hlive
  | takeLock hi hphase hfree =>
    refine h.setPhase hi rfl rfl h.known ?_ ?_ (Or.inl (List.Subset.refl _)) ?_
    · exact fun _ => h.live _ (mem_of_getElem? hi) (hphase ▸ rfl)
    · exact fun _ _ _ hfind _ => hfind
    · exact fun _ => hphase ▸ rfl
  | @go i r after mutate now semaphore hi hlive hshift hallowed =>
    refine h.setPhase hi rfl rfl (known_update h) ?_ ?_
      (Or.inl (List.Subset.refl _)) (fun _ => hlive)
    · intro hafter
      rcases h.live r (mem_of_getElem? hi) hlive with ⟨t, hfind, hopen⟩
      exact ⟨_, find_update_self hfind, hallowed.stays hafter t hopen⟩
    · intro taskId hne t hfind _
      exact (find_update_other hne).trans hfind
  | shift hi hshift hafter hsalvages =>
    refine h.setPhase hi rfl rfl h.known ?_ ?_
      (Or.inr ⟨hafter, hsalvages⟩) hshift.live
    · intro hlive
      rw [hafter] at hlive
      cases hlive
    · exact fun _ _ _ hfind _ => hfind
  | @quit i r lock outcome now semaphore locked hi hretained hlocked =>
    rcases quit_eq limits x i r lock outcome now semaphore locked with
      ⟨hstore, hrunners, hissued, hsalvages⟩
    refine h.setPhase hi hrunners hissued ?_ ?_ ?_
      (Or.inl (hsalvages ▸ List.Subset.refl _)) ?_
    · intro taskId t hfind
      rw [hstore] at hfind
      rcases quitStore_settles limits x r.taskId outcome now [taskId] taskId
        t mem_cons_self hfind with ⟨told, hold, _⟩
      exact h.known taskId told hold
    · exact fun hlive => by cases hlive
    · intro taskId hne t hfind hopen
      rw [hstore]
      apply (find_pruneTerminal _ _ _ _).2 _ hopen
      rw [find_update_other hne, settle_other x outcome now hne]
      exact hfind
    · exact fun hlive => by cases hlive
  | @restart now =>
    constructor
    · intro taskId t hfind
      rcases restarted_settles limits x now [taskId] taskId t
        mem_cons_self hfind with ⟨told, hold, _⟩
      exact h.known taskId told hold
    · exact fun r hr => absurd hr not_mem_nil
    · exact nodup_nil
    · exact fun r hr => absurd hr not_mem_nil
    · exact fun taskId hmem => absurd hmem not_mem_nil

theorem Tracked.settles (h : x.Tracked) (heffect : Effect limits skips x x') :
    CompileTaskStore.Settles x.issued x.store x'.store := by
  cases heffect with
  | @enqueue taskId principalScope target resumed now y hfresh hadmitted =>
    intro taskId' t hissued hfind
    have hne : taskId' ≠ taskId := by
      intro heq
      rw [heq] at hissued
      exact hfresh hissued
    refine ⟨t, ?_, CompileTask.Settles.refl t⟩
    change (put y.store taskId _).find taskId' = some t at hfind
    rw [find_put_ne _ _ hne, (admitTask_eq hadmitted).1] at hfind
    exact hfind
  | touch hsettles hends hsalvages =>
    exact update_settles (fun t _ => hsettles t) _
  | late hmem =>
    exact update_settles
      (fun t _ => t.completeSalvaged_settles _) _
  | @start i r hi hphase =>
    show CompileTaskStore.Settles _ _ (x.retainTargetLock r.target).2.store
    rw [(retainTargetLock_same x r.target).store]
    exact CompileTaskStore.Settles.refl _ _
  | @go i r after mutate now semaphore hi hlive hshift hallowed =>
    apply update_settles
    intro t hfind
    rcases h.live r (mem_of_getElem? hi) hlive with ⟨t', hfind', hopen⟩
    rw [hfind] at hfind'
    cases hfind'
    exact hallowed.settles t hopen
  | @quit i r lock outcome now semaphore locked hi hretained hlocked =>
    rw [(quit_eq limits x i r lock outcome now semaphore locked).1]
    exact quitStore_settles limits x r.taskId outcome now x.issued
  | @restart now => exact restarted_settles limits x now x.issued
  | _ => exact CompileTaskStore.Settles.refl _ _

end Service
end Compile
end OpenViking
