import OpenViking.Compile.TaskLifecycle

/-!
# Locks of targets

A lock stays in the table while a runner refers to it, so the runners of one
target agree on its lock.
-/

namespace OpenViking
namespace Compile

open Paths List

variable {report : Type} {limits : CompileLimits} {skips : Prop}

namespace Service

variable {x x' y : Service report}

def refersTo (target : Str) (r : Runner) : Bool :=
  r.target = target && r.phase.retained.isSome

structure Locked (x : Service report) : Prop where
  own : forall r lock, r ∈ x.runners -> r.phase.retained = some lock ->
    exists references, x.targetLocks.find r.target = some (lock, references)
  counted : forall target lock references,
    x.targetLocks.find target = some (lock, references) ->
      references = x.runners.countP (refersTo target)
  fresh : forall target lock references,
    x.targetLocks.find target = some (lock, references) -> lock < x.nextLock
  injective : forall target target' lock references references',
    x.targetLocks.find target = some (lock, references) ->
      x.targetLocks.find target' = some (lock, references') ->
        target = target'
  alone : forall (i j : Nat) (r r' : Runner) (lock : Nat),
    x.runners[i]? = some r -> x.runners[j]? = some r' ->
      r.phase.taken = some lock -> r'.phase.taken = some lock -> i = j
  flag : forall r lock, r ∈ x.runners -> r.phase.taken = some lock ->
    x.locked lock = true

/-!
# One runner
-/

variable {phase : RunnerPhase}

variable {lock : Nat}

theorem retained_of_taken
    (h : phase.taken = some lock) : phase.retained = some lock := by
  cases phase with
  | queued other => cases h
  | created => cases h
  | ended ran => cases h
  | _ => exact h

variable {r : Runner}

theorem refersTo_iff {target : Str} :
    refersTo target r = true <->
      r.target = target ∧ exists lock, r.phase.retained = some lock := by
  rw [refersTo, Bool.and_eq_true, decide_eq_true_iff, Option.isSome_iff_exists]

theorem getElem?_setPhase {i j : Nat} {r r' : Runner}
    (hrunners : y.runners = x.runners.set i { r with phase := phase })
    (hj : y.runners[j]? = some r') :
    (j = i ∧ r' = { r with phase := phase }) ∨
      (j ≠ i ∧ x.runners[j]? = some r') := by
  rw [hrunners] at hj
  exact Interleaving.getElem?_set_cases hj

variable {i : Nat}

theorem countP_setPhase
    (hi : x.runners[i]? = some r)
    (hrunners : y.runners = x.runners.set i { r with phase := phase })
    (target : Str) :
    y.runners.countP (refersTo target) + (if refersTo target r then 1 else 0) =
      x.runners.countP (refersTo target) +
        (if refersTo target { r with phase := phase } then 1 else 0) := by
  rw [hrunners]
  exact Interleaving.countP_set_of_some (refersTo target) _ hi

theorem Locked.alone_setPhase (h : x.Locked)
    (hrunners : y.runners = x.runners.set i { r with phase := phase })
    (hothers : forall (j : Nat) (r' : Runner) (lock : Nat), j ≠ i ->
      x.runners[j]? = some r' ->
      phase.taken = some lock -> r'.phase.taken ≠ some lock)
    (j k : Nat) (r' r'' : Runner) (lock : Nat) (hj : y.runners[j]? = some r')
    (hk : y.runners[k]? = some r'') (htaken : r'.phase.taken = some lock)
    (htaken' : r''.phase.taken = some lock) : j = k := by
  rcases getElem?_setPhase hrunners hj with ⟨hji, hr'⟩ | ⟨hji, hold⟩
  · rcases getElem?_setPhase hrunners hk with ⟨hki, _⟩ | ⟨hki, hold'⟩
    · rw [hji, hki]
    · rw [hr'] at htaken
      exact absurd htaken' (hothers k r'' lock hki hold' htaken)
  · rcases getElem?_setPhase hrunners hk with ⟨_, hr''⟩ | ⟨_, hold'⟩
    · rw [hr''] at htaken'
      exact absurd htaken (hothers j r' lock hji hold htaken')
    · exact h.alone j k r' r'' lock hold hold' htaken htaken'

theorem Locked.congr (h : x.Locked) (hrunners : y.runners = x.runners)
    (htable : y.targetLocks = x.targetLocks) (hlocked : y.locked = x.locked)
    (hnext : y.nextLock = x.nextLock) : y.Locked := by
  constructor
  · rw [hrunners, htable]
    exact h.own
  · rw [hrunners, htable]
    exact h.counted
  · rw [htable, hnext]
    exact h.fresh
  · rw [htable]
    exact h.injective
  · rw [hrunners]
    exact h.alone
  · rw [hrunners, hlocked]
    exact h.flag

theorem Locked.empty (hrunners : x.runners = []) (htable : x.targetLocks = ∅)
    : x.Locked := by
  have hno : forall target b, x.targetLocks.find target ≠ some b := by
    intro target b hfind
    rw [htable, Assoc.find_empty] at hfind
    cases hfind
  constructor
  · intro r lock hr
    rw [hrunners] at hr
    cases hr
  · exact fun target lock references hfind => absurd hfind (hno _ _)
  · exact fun target lock references hfind => absurd hfind (hno _ _)
  · exact fun target target' lock references references' hfind =>
      absurd hfind (hno _ _)
  · intro i j r r' lock hi
    rw [hrunners] at hi
    cases hi
  · intro r lock hr
    rw [hrunners] at hr
    cases hr

/-- A runner that has no lock yet. -/
theorem Locked.enqueue (h : x.Locked) (hphase : r.phase = .created)
    (hrunners : y.runners = x.runners ++ [r])
    (htable : y.targetLocks = x.targetLocks) (hlocked : y.locked = x.locked)
    (hnext : y.nextLock = x.nextLock) : y.Locked := by
  have hold : forall r' lock, r' ∈ y.runners ->
      r'.phase.retained = some lock -> r' ∈ x.runners := by
    intro r' lock hr' hretained
    rw [hrunners] at hr'
    rcases mem_append.mp hr' with hin | hnew
    · exact hin
    · rw [mem_singleton.mp hnew, hphase] at hretained
      cases hretained
  have hget : forall (j : Nat) (r' : Runner) (lock : Nat), y.runners[j]? = some r' ->
      r'.phase.taken = some lock -> x.runners[j]? = some r' := by
    intro j r' lock hj htaken
    rw [hrunners] at hj
    rcases Nat.lt_or_ge j x.runners.length with hlt | hge
    · rw [getElem?_append_left hlt] at hj
      exact hj
    · rw [getElem?_append_right hge] at hj
      rw [mem_singleton.mp (mem_of_getElem? hj), hphase] at htaken
      cases htaken
  constructor
  · intro r' lock hr' hretained
    rw [htable]
    exact h.own r' lock (hold r' lock hr' hretained) hretained
  · intro target lock references hfind
    rw [htable] at hfind
    have hnot : refersTo target r = false := by
      rw [refersTo, hphase]
      exact Bool.and_false _
    rw [hrunners, countP_append, countP_singleton, hnot]
    exact h.counted target lock references hfind
  · rw [htable, hnext]
    exact h.fresh
  · rw [htable]
    exact h.injective
  · intro i j r' r'' lock hi hj htaken htaken'
    exact h.alone i j r' r'' lock (hget i r' lock hi htaken)
      (hget j r'' lock hj htaken') htaken htaken'
  · intro r' lock hr' htaken
    rw [hlocked]
    exact h.flag r' lock (hold r' lock hr' (retained_of_taken htaken)) htaken

/-!
# A runner that keeps its reference
-/

section

variable (h : x.Locked) (hi : x.runners[i]? = some r)

include h hi

theorem Locked.keep
    (hrunners : y.runners = x.runners.set i { r with phase := phase })
    (htable : y.targetLocks = x.targetLocks)
    (hnext : y.nextLock = x.nextLock)
    (hretained : phase.retained = r.phase.retained)
    (hothers : forall (j : Nat) (r' : Runner) (lock : Nat), j ≠ i ->
      x.runners[j]? = some r' ->
      phase.taken = some lock -> r'.phase.taken ≠ some lock)
    (hflag : forall r' lock, r' ∈ y.runners -> r'.phase.taken = some lock ->
      y.locked lock = true) : y.Locked := by
  have hmem := mem_of_getElem? hi
  constructor
  · intro r' lock hr' hheld
    rw [htable]
    rcases getElem?_of_mem hr' with ⟨j, hj⟩
    rcases getElem?_setPhase hrunners hj with ⟨_, heq⟩ | ⟨_, hold⟩
    · rw [heq] at hheld ⊢
      exact h.own r lock hmem (hretained.symm.trans hheld)
    · exact h.own r' lock (mem_of_getElem? hold) hheld
  · intro target lock references hfind
    rw [htable] at hfind
    have hcount := countP_setPhase hi hrunners target
    have hsame : refersTo target { r with phase := phase } =
        refersTo target r := by
      rw [refersTo, refersTo, hretained]
    rw [hsame] at hcount
    rw [Nat.add_right_cancel hcount]
    exact h.counted target lock references hfind
  · rw [htable, hnext]
    exact h.fresh
  · rw [htable]
    exact h.injective
  · exact h.alone_setPhase hrunners hothers
  · exact hflag

theorem Locked.shift
    (hrunners : y.runners = x.runners.set i { r with phase := phase })
    (htable : y.targetLocks = x.targetLocks)
    (hlocked : y.locked = x.locked) (hnext : y.nextLock = x.nextLock)
    (hretained : phase.retained = r.phase.retained)
    (htaken : phase.taken = r.phase.taken) : y.Locked := by
  refine h.keep hi hrunners htable hnext hretained ?_ ?_
  · intro j r' lock hne hj hphase htaken'
    exact hne (h.alone j i r' r lock hj hi htaken' (htaken.symm.trans hphase))
  · intro r' lock hr' hphase
    rw [hlocked]
    rcases getElem?_of_mem hr' with ⟨j, hj⟩
    rcases getElem?_setPhase hrunners hj with ⟨_, heq⟩ | ⟨_, hold⟩
    · rw [heq] at hphase
      exact h.flag r lock (mem_of_getElem? hi) (htaken.symm.trans hphase)
    · exact h.flag r' lock (mem_of_getElem? hold) hphase

theorem Locked.take (hphase : r.phase = .queued lock)
    (hfree : x.locked lock = false)
    (hrunners : y.runners = x.runners.set i { r with phase := .slotted lock })
    (htable : y.targetLocks = x.targetLocks)
    (hlocked : y.locked = Function.update x.locked lock true)
    (hnext : y.nextLock = x.nextLock) : y.Locked := by
  refine h.keep hi hrunners htable hnext (by rw [hphase]; rfl) ?_ ?_
  · intro j r' lock' hne hj heq htaken
    cases heq
    rw [h.flag r' lock (mem_of_getElem? hj) htaken] at hfree
    cases hfree
  intro r' lock' hr' htaken
  rw [hlocked]
  by_cases heq : lock' = lock
  · rw [heq, Function.update_self]
  · rw [Function.update_of_ne heq]
    rcases getElem?_of_mem hr' with ⟨j, hj⟩
    rcases getElem?_setPhase hrunners hj with ⟨_, hself⟩ | ⟨_, hold⟩
    · rw [hself] at htaken
      cases htaken
      exact absurd rfl heq
    · exact h.flag r' lock' (mem_of_getElem? hold) htaken

end

/-!
# References
-/

theorem Locked.refer (h : x.Locked) (lock : Nat)
    (hi : x.runners[i]? = some r) (hphase : r.phase = .created)
    (hrunners : y.runners = x.runners.set i { r with phase := .queued lock })
    (htable : y.targetLocks = x.targetLocks.put r.target
      (lock, x.runners.countP (refersTo r.target) + 1))
    (hlocked : y.locked = x.locked) (hnext : x.nextLock ≤ y.nextLock)
    (hlock : lock < y.nextLock)
    (hown : forall lock' references,
      x.targetLocks.find r.target = some (lock', references) -> lock' = lock)
    (hfresh : forall target references,
      x.targetLocks.find target = some (lock, references) ->
        target = r.target) : y.Locked := by
  have hbefore : forall target, refersTo target r = false := by
    intro target
    rw [refersTo, hphase]
    exact Bool.and_false _
  have hcases : forall target b, y.targetLocks.find target = some b ->
      (target = r.target ∧ b = (lock, x.runners.countP (refersTo r.target) + 1)) ∨
        (target ≠ r.target ∧ x.targetLocks.find target = some b) := by
    intro target b hfind
    rw [htable, Assoc.find_put] at hfind
    split at hfind
    case isTrue heq =>
      cases hfind
      exact .inl ⟨heq, rfl⟩
    case isFalse hne => exact .inr ⟨hne, hfind⟩
  constructor
  · intro r' lock' hr' hheld
    rw [htable, Assoc.find_put]
    rcases getElem?_of_mem hr' with ⟨j, hj⟩
    rcases getElem?_setPhase hrunners hj with ⟨_, heq⟩ | ⟨_, hold⟩
    · rw [heq] at hheld ⊢
      cases hheld
      exact ⟨_, if_pos rfl⟩
    rcases h.own r' lock' (mem_of_getElem? hold) hheld with
      ⟨references, hfind⟩
    split
    case isTrue heq =>
      rw [heq] at hfind
      rw [hown lock' references hfind]
      exact ⟨_, rfl⟩
    case isFalse => exact ⟨references, hfind⟩
  · intro target lock' references hfind
    have hcount := countP_setPhase hi hrunners target
    rw [hbefore target] at hcount
    rcases hcases target _ hfind with ⟨heq, hb⟩ | ⟨hne, hold⟩
    · cases hb
      rw [heq] at hcount ⊢
      have hafter : refersTo r.target { r with phase := .queued lock } = true :=
        refersTo_iff.mpr ⟨rfl, lock, rfl⟩
      rw [hafter] at hcount
      exact hcount.symm
    · have hafter : refersTo target { r with phase := .queued lock } = false := by
        rw [← Bool.not_eq_true]
        exact fun hrefers => hne (refersTo_iff.mp hrefers).1.symm
      rw [hafter] at hcount
      rw [Nat.add_right_cancel hcount]
      exact h.counted target lock' references hold
  · intro target lock' references hfind
    rcases hcases target _ hfind with ⟨_, hb⟩ | ⟨_, hold⟩
    · cases hb
      exact hlock
    · exact (h.fresh target lock' references hold).trans_le hnext
  · intro target target' lock' references references' hfind hfind'
    rcases hcases target _ hfind with ⟨heq, hb⟩ | ⟨hne, hold⟩
    · cases hb
      rcases hcases target' _ hfind' with ⟨heq', _⟩ | ⟨_, hold'⟩
      · rw [heq, heq']
      · rw [heq, hfresh target' references' hold']
    · rcases hcases target' _ hfind' with ⟨heq', hb⟩ | ⟨_, hold'⟩
      · cases hb
        exact absurd (hfresh target references hold) hne
      · exact h.injective target target' lock' references references' hold hold'
  · apply h.alone_setPhase hrunners
    intro j r' lock' _ _ htaken
    cases htaken
  · intro r' lock' hr' htaken
    rw [hlocked]
    rcases getElem?_of_mem hr' with ⟨j, hj⟩
    rcases getElem?_setPhase hrunners hj with ⟨_, heq⟩ | ⟨_, hold⟩
    · rw [heq] at htaken
      cases htaken
    · exact h.flag r' lock' (mem_of_getElem? hold) htaken

theorem Locked.retain (h : x.Locked)
    (hi : x.runners[i]? = some r) (hphase : r.phase = .created) :
    ((x.retainTargetLock r.target).2.setPhase i r
      (.queued (x.retainTargetLock r.target).1)).Locked := by
  rw [retainTargetLock]
  cases hfind : x.targetLocks.find r.target with
  | some b =>
    rcases b with ⟨lock, references⟩
    have hcounted := h.counted r.target lock references hfind
    refine h.refer lock hi hphase rfl ?_ rfl (Nat.le_refl _)
      (h.fresh r.target lock references hfind) ?_ ?_
    · rw [← hcounted]
      rfl
    · intro lock' references' hfind'
      rw [hfind] at hfind'
      cases hfind'
      rfl
    · intro target references' hfind'
      exact h.injective target r.target lock references' references hfind' hfind
  | none =>
    have hnone : x.runners.countP (refersTo r.target) = 0 := by
      apply countP_eq_zero.mpr
      intro r' hr' hrefers
      rcases refersTo_iff.mp hrefers with ⟨htarget, lock, hretained⟩
      rcases h.own r' lock hr' hretained with ⟨references, hsome⟩
      rw [htarget, hfind] at hsome
      cases hsome
    refine h.refer x.nextLock hi hphase rfl ?_ rfl
      (Nat.le_succ _) (Nat.lt_succ_self _) ?_ ?_
    · rw [hnone]
      rfl
    · intro lock' references' hfind'
      rw [hfind] at hfind'
      cases hfind'
    · intro target references' hfind'
      exact absurd (h.fresh target x.nextLock references' hfind')
        (Nat.lt_irrefl _)

theorem releaseTargetLock_find {target : Str} {references : Nat}
    (h : x.targetLocks.find target = some (lock, references + 1))
    (target' : Str) :
    (x.releaseTargetLock target lock).targetLocks.find target' =
      if target' = target then
        (if references = 0 then none else some (lock, references))
      else x.targetLocks.find target' := by
  rw [releaseTargetLock, h]
  show (if lock ≠ lock then x else _).targetLocks.find target' = _
  rw [if_neg (not_not_intro rfl)]
  show (if references + 1 ≤ 1 then x.targetLocks.del target
    else x.targetLocks.put target (lock, references)).find target' = _
  cases references with
  | zero =>
    rw [if_pos (Nat.le_refl 1), Assoc.find_del, if_pos rfl]
  | succ n =>
    rw [if_neg (by omega), Assoc.find_put, if_neg (Nat.succ_ne_zero n)]

/-- A runner gives up its reference, and its lock when it has taken it. -/
theorem Locked.giveUp (h : x.Locked) {ran : Bool} (hi : x.runners[i]? = some r)
    (hretained : r.phase.retained = some lock)
    (hrunners : y.runners = x.runners.set i { r with phase := .ended ran })
    (htable : y.targetLocks = (x.releaseTargetLock r.target lock).targetLocks)
    (hnext : y.nextLock = x.nextLock)
    (hlocked : r.phase.taken = none ∧ y.locked = x.locked ∨
      r.phase.taken = some lock ∧
        y.locked = Function.update x.locked lock false) : y.Locked := by
  have hmem := mem_of_getElem? hi
  have hafter : forall target,
      refersTo target { r with phase := .ended ran } = false :=
    fun target => Bool.and_false _
  have hcount := countP_setPhase hi hrunners r.target
  rw [refersTo_iff.mpr ⟨rfl, lock, hretained⟩, hafter] at hcount
  change y.runners.countP (refersTo r.target) + 1 =
    x.runners.countP (refersTo r.target) at hcount
  rcases h.own r lock hmem hretained with ⟨references, hown⟩
  have hreferences := h.counted r.target lock references hown
  rw [← hcount] at hreferences
  rw [hreferences] at hown
  have hfind := releaseTargetLock_find hown
  rw [← htable] at hfind
  have hbefore : forall target b, y.targetLocks.find target = some b ->
      (target = r.target ∧ b = (lock, y.runners.countP (refersTo r.target))) ∨
        (target ≠ r.target ∧ x.targetLocks.find target = some b) := by
    intro target b hb
    rw [hfind] at hb
    split at hb
    case isTrue heq =>
      split at hb
      case isTrue => cases hb
      case isFalse =>
        cases hb
        exact .inl ⟨heq, rfl⟩
    case isFalse hne => exact .inr ⟨hne, hb⟩
  have hsame : forall target lock' references',
      y.targetLocks.find target = some (lock', references') ->
        exists old, x.targetLocks.find target = some (lock', old) := by
    intro target lock' references' hb
    rcases hbefore target _ hb with ⟨heq, hb'⟩ | ⟨_, hold⟩
    · cases hb'
      rw [heq]
      exact ⟨_, hown⟩
    · exact ⟨references', hold⟩
  constructor
  · intro r' lock' hr' hheld
    have hnonzero : r'.target = r.target ->
        y.runners.countP (refersTo r.target) ≠ 0 := by
      intro heq hzero
      exact countP_eq_zero.mp hzero r' hr'
        (refersTo_iff.mpr ⟨heq, lock', hheld⟩)
    rcases getElem?_of_mem hr' with ⟨j, hj⟩
    rcases getElem?_setPhase hrunners hj with ⟨_, heq⟩ | ⟨_, hold⟩
    · rw [heq] at hheld
      cases hheld
    rcases h.own r' lock' (mem_of_getElem? hold) hheld with
      ⟨references', hfind'⟩
    rw [hfind]
    split
    case isTrue heq =>
      rw [if_neg (hnonzero heq)]
      rw [heq, hown] at hfind'
      cases hfind'
      exact ⟨_, rfl⟩
    case isFalse => exact ⟨references', hfind'⟩
  · intro target lock' references' hb
    rcases hbefore target _ hb with ⟨heq, hb'⟩ | ⟨hne, hold⟩
    · cases hb'
      rw [heq]
    · have hother := countP_setPhase hi hrunners target
      have hnot : refersTo target r = false := by
        rw [← Bool.not_eq_true]
        exact fun hrefers => hne (refersTo_iff.mp hrefers).1.symm
      rw [hnot, hafter] at hother
      rw [Nat.add_right_cancel hother]
      exact h.counted target lock' references' hold
  · intro target lock' references' hb
    rcases hsame target lock' references' hb with ⟨old, hold⟩
    rw [hnext]
    exact h.fresh target lock' old hold
  · intro target target' lock' references' references'' hb hb'
    rcases hsame target lock' references' hb with ⟨old, hold⟩
    rcases hsame target' lock' references'' hb' with ⟨old', hold'⟩
    exact h.injective target target' lock' old old' hold hold'
  · apply h.alone_setPhase hrunners
    intro j r' lock' _ _ htaken
    cases htaken
  · intro r' lock' hr' htaken
    rcases getElem?_of_mem hr' with ⟨j, hj⟩
    rcases getElem?_setPhase hrunners hj with ⟨_, heq⟩ | ⟨hne, hold⟩
    · rw [heq] at htaken
      cases htaken
    have hflag := h.flag r' lock' (mem_of_getElem? hold) htaken
    rcases hlocked with ⟨_, hlocked⟩ | ⟨htaken', hlocked⟩
    · rw [hlocked]
      exact hflag
    · have hother : lock' ≠ lock := by
        intro heq
        rw [heq] at htaken
        exact hne (h.alone j i r' r lock hold hi htaken htaken')
      rw [hlocked, Function.update_of_ne hother]
      exact hflag

/-!
# Effects on the locks
-/

structure SameLocks (x y : Service report) : Prop where
  table : y.targetLocks = x.targetLocks
  locked : y.locked = x.locked
  next : y.nextLock = x.nextLock

theorem settle_locks (x : Service report) (taskId : Str) (outcome : Outcome)
    (now : Nat) : SameLocks x (x.settle taskId outcome now) := by
  cases outcome with
  | _ => exact ⟨rfl, rfl, rfl⟩

theorem admitTask_locks {principalScope : Str}
    (h : x.admitTask limits principalScope = some y) : SameLocks x y := by
  rw [admitTask] at h
  split at h
  case isTrue => cases h
  case isFalse =>
    cases h
    exact ⟨rfl, rfl, rfl⟩

theorem releaseAdmission_locks (x : Service report) (principalScope : Str) :
    SameLocks x (x.releaseAdmission principalScope) := by
  rw [releaseAdmission]
  split
  case isTrue => exact ⟨rfl, rfl, rfl⟩
  case isFalse => exact ⟨rfl, rfl, rfl⟩

theorem releaseTargetLock_locks (x : Service report) (target : Str)
    (lock : Nat) :
    (x.releaseTargetLock target lock).locked = x.locked ∧
      (x.releaseTargetLock target lock).nextLock = x.nextLock := by
  rw [releaseTargetLock]
  split
  · exact ⟨rfl, rfl⟩
  · split
    case isTrue => exact ⟨rfl, rfl⟩
    case isFalse => exact ⟨rfl, rfl⟩

theorem releaseTargetLock_table (h : y.targetLocks = x.targetLocks)
    (target : Str) (lock : Nat) :
    (y.releaseTargetLock target lock).targetLocks =
      (x.releaseTargetLock target lock).targetLocks := by
  rw [releaseTargetLock, releaseTargetLock, h]
  split
  · exact h
  · split
    case isTrue => exact h
    case isFalse => rfl

theorem quit_locks (limits : CompileLimits) (x : Service report) (i : Nat)
    (r : Runner) (lock : Nat) (outcome : Outcome) (now semaphore : Nat)
    (locked : Nat -> Bool) :
    let y := x.quit limits i r lock outcome now semaphore locked
    y.targetLocks = (x.releaseTargetLock r.target lock).targetLocks ∧
      y.locked = locked ∧ y.nextLock = x.nextLock := by
  intro y
  have hsettle := settle_locks x r.taskId outcome now
  let left : Service report := { x.settle r.taskId outcome now with
    locked := locked
    semaphore := semaphore }
  have hlock := releaseTargetLock_locks left r.target lock
  have hadmission := releaseAdmission_locks
    ((left.releaseTargetLock r.target lock).update r.taskId
      CompileTask.finish now) r.principalScope
  have htable : left.targetLocks = x.targetLocks := hsettle.table
  constructor
  · exact hadmission.table.trans (releaseTargetLock_table htable r.target lock)
  constructor
  · exact hadmission.locked.trans hlock.1
  · exact hadmission.next.trans (hlock.2.trans hsettle.next)

theorem Locked.effect (h : x.Locked) (heffect : Effect limits skips x x') :
    x'.Locked := by
  cases heffect with
  | same => exact h
  | @enqueue taskId principalScope target resumed now y hfresh hadmitted =>
    have hsame := admitTask_locks hadmitted
    exact h.enqueue (r := ⟨taskId, principalScope, target, .created⟩) rfl
      (congrArg (· ++ _) (admitTask_eq hadmitted).2.1) hsame.table hsame.locked
      hsame.next
  | touch hsettles hends hsalvages => exact h.congr rfl rfl rfl rfl
  | late hmem => exact h.congr rfl rfl rfl rfl
  | start hi hphase => exact h.retain hi hphase
  | startCancelled hskips hi hphase =>
    exact h.shift hi rfl rfl rfl rfl (hphase ▸ rfl) (hphase ▸ rfl)
  | takeLock hi hphase hfree =>
    exact h.take hi hphase hfree rfl rfl rfl rfl
  | go hi hlive hshift hallowed =>
    exact h.shift hi rfl rfl rfl rfl hshift.retained hshift.taken
  | shift hi hshift hafter hsalvages =>
    exact h.shift hi rfl rfl rfl rfl hshift.retained hshift.taken
  | @quit i r lock outcome now semaphore locked hi hretained hlocked =>
    rcases quit_locks limits x i r lock outcome now semaphore locked with
      ⟨htable, hlock, hnext⟩
    refine h.giveUp hi hretained
      (quit_eq limits x i r lock outcome now semaphore locked).2.1 htable
      hnext ?_
    rw [hlock]
    exact hlocked
  | restart => exact Locked.empty rfl rfl

theorem Locked.start : (start limits : Service report).Locked :=
  Locked.empty rfl rfl

/-!
# Mutual exclusion
-/

theorem taken_of_executing
    (h : phase.executing = true) : exists lock, phase.taken = some lock := by
  cases phase with
  | working lock => exact ⟨lock, rfl⟩
  | salvaging lock => exact ⟨lock, rfl⟩
  | cleaning lock outcome => exact ⟨lock, rfl⟩
  | _ => cases h

theorem Locked.exclusive (h : x.Locked) {i j : Nat} {r r' : Runner}
    (hi : x.runners[i]? = some r) (hj : x.runners[j]? = some r')
    (hexecuting : r.phase.executing = true)
    (hexecuting' : r'.phase.executing = true)
    (htarget : r.target = r'.target) : i = j := by
  rcases taken_of_executing hexecuting with ⟨lock, htaken⟩
  rcases taken_of_executing hexecuting' with ⟨lock', htaken'⟩
  rcases h.own r lock (mem_of_getElem? hi) (retained_of_taken htaken)
    with ⟨references, hfind⟩
  rcases h.own r' lock' (mem_of_getElem? hj) (retained_of_taken htaken')
    with ⟨references', hfind'⟩
  rw [htarget, hfind'] at hfind
  cases hfind
  exact h.alone i j r r' _ hi hj htaken htaken'

end Service
end Compile
end OpenViking
