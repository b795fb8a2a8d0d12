import OpenViking.Lock.RolledBack

/-!
# Refused upgrades

A world remembers the tokens whose replacement was refused.  No step of a call
takes one off this list, whether it succeeds or fails.
-/

namespace OpenViking
namespace Lock

open Paths Attempt World

variable {α β ε : Type} {config : Config} {owner : Str}

def Grows (x : Attempt ε World α) : Prop :=
  forall w : World, w.refusals <:+ (x w).2.refusals

theorem grows_pure (a : α) : Grows (pure a : Attempt ε World α) :=
  fun _ => List.suffix_refl _

theorem grows_fail (e : ε) : Grows (fail e : Attempt ε World α) :=
  fun _ => List.suffix_refl _

theorem Grows.bind {x : Attempt ε World α} {f : α -> Attempt ε World β}
    (hx : Grows x) (hf : forall a : α, Grows (f a)) : Grows (x >>= f) := by
  intro w
  have hfirst := hx w
  cases hstep : x w with
  | mk result mid =>
    rw [hstep] at hfirst
    cases result with
    | ok a =>
      rw [bind_of_ok hstep]
      exact hfirst.trans (hf a mid)
    | error e =>
      rw [bind_of_error hstep]
      exact hfirst

theorem Grows.outcome {ε' : Type} {x : Attempt ε World α} (hx : Grows x) :
    Grows (outcome x : Attempt ε' World (Except ε α)) :=
  hx

theorem grows_remove (owner lockPath other : Str) :
    Grows ((provider owner).removeToken lockPath other) := by
  intro w
  rcases remove_cases { expireNs := 0, hashPrefix := id } owner lockPath other w
    with ⟨e, w', hrun, hfail⟩ | ⟨mid, held, hrun, hpasses, _⟩ |
      ⟨mid, hrun, hpasses⟩
  · rw [hrun]
    exact hfail.left.refusals
  · rw [hrun]
    exact hpasses.refusals
  · rw [hrun]
    exact hpasses.refusals

theorem grows_compareAndWrite (owner lockPath : Str)
    (expected replacement : LockToken) :
    Grows ((provider owner).compareAndWriteToken lockPath expected
      replacement) := by
  intro w
  rcases compareAndWrite_cases { expireNs := 0, hashPrefix := id } owner
      lockPath expected replacement w with
    ⟨e, w', hrun, hfail⟩ | ⟨mid, hrun, hpasses, _⟩ | ⟨mid, hrun, hpasses⟩
  · rw [hrun]
    exact hfail.left.refusals
  · rw [hrun]
    exact hpasses.refusals
  · rw [hrun]
    exact hpasses.refusals.trans (List.suffix_cons _ _)

theorem grows_readToken (owner lockPath : Str) :
    Grows ((provider owner).readToken lockPath) := by
  intro w
  have hquiet : QuietAt { expireNs := 0, hashPrefix := id } owner
      ((provider owner).readToken lockPath) w :=
    quietAt_readToken lockPath w
  exact hquiet.passes.refusals

theorem grows_removeOwnedToken (owner lockPath : Str) :
    Grows (removeOwnedToken (provider owner) lockPath owner) := by
  refine (grows_remove owner lockPath owner).bind fun removed => ?_
  cases removed with
  | true => exact grows_pure true
  | false =>
    refine (grows_readToken owner lockPath).bind fun held => ?_
    cases held with
    | none => exact grows_pure true
    | some token =>
      simp only
      split
      · exact grows_pure false
      · exact grows_fail _

theorem grows_takeBack (owner lockPath : Str) (change : AcquisitionChange) :
    Grows (takeBack (provider owner) owner lockPath change) := by
  cases change with
  | created =>
    exact (grows_removeOwnedToken owner lockPath).bind fun _ => grows_pure ()
  | reentrant => exact grows_pure ()
  | upgraded previous replacement =>
    refine (grows_compareAndWrite owner lockPath replacement previous).bind
      fun written => ?_
    cases written with
    | true => exact grows_pure ()
    | false => exact grows_fail _

theorem grows_takeBackEach (owner : Str) (acquired : Acquired)
    (firstError : Option PathLockError) :
    Grows (takeBackEach (provider owner) owner acquired firstError) := by
  induction acquired generalizing firstError with
  | nil => exact grows_pure firstError
  | cons first rest ih =>
    refine (grows_takeBack owner first.1 first.2).outcome.bind fun r => ?_
    cases r with
    | ok _ => exact ih firstError
    | error e => exact ih _

theorem grows_rollback (owner : Str) (acquired : Acquired) :
    Grows (rollbackAcquisitions (provider owner) owner acquired) := by
  refine (grows_takeBackEach owner acquired.reverse none).bind fun r => ?_
  cases r with
  | some e => exact grows_fail e
  | none => exact grows_pure ()

theorem grows_giveUp (owner : Str) (acquired : Acquired) (e : PathLockError)
    (preConflict : Bool) :
    Grows (giveUp (provider owner) owner acquired e preConflict) := by
  refine (grows_rollback owner acquired).outcome.bind fun r => ?_
  cases r with
  | ok _ => exact grows_fail _
  | error rollback => exact grows_fail _

theorem grows_tryAcquireBatchOnce (config : Config) (owner : Str)
    (requests : List PathLockRequest) :
    Grows (tryAcquireBatchOnce (provider owner) config requests
      owner) := by
  intro w
  rcases tryAcquireBatchOnce_cases config owner requests w with
    ⟨e, acquired, mid, hpasses, _, _, hrun⟩ |
      ⟨e, acquired, mid, hpasses, _, hrun⟩ | ⟨acquired, mid, hpasses, _, hrun⟩
  · rw [hrun]
    exact hpasses.refusals.trans (grows_giveUp owner acquired e true mid)
  · rw [hrun]
    exact hpasses.refusals.trans (grows_giveUp owner acquired e false mid)
  · rw [hrun]
    exact hpasses.refusals

theorem grows_sure {f : World -> α × World}
    (h : forall w : World, w.refusals <:+ (f w).2.refusals) :
    Grows (sure f : Attempt PathLockError World α) :=
  h

theorem grows_pass (owner : Str) : Grows (pass owner) := by
  intro w
  have hnext : Passes { expireNs := 0, hashPrefix := id } owner [] w
      (w.next owner).2 := next_passes w
  exact hnext.refusals

theorem grows_checkDeadline (deadline : Deadline) :
    Grows (checkDeadline deadline) := by
  refine (grows_sure fun _ => List.suffix_refl _).bind fun now => ?_
  split
  · exact grows_fail _
  · exact grows_pure ()

theorem grows_lockOwner (owner : Str) (deadline : Deadline) :
    Grows (lockOwner owner deadline) := by
  refine (grows_pass owner).bind fun event => ?_
  split
  · exact grows_pure true
  · refine (grows_checkDeadline deadline).bind fun _ => ?_
    refine (grows_pass owner).bind fun waited => ?_
    split
    · exact grows_pure false
    · exact (grows_sure fun _ => List.suffix_refl _).bind fun _ => grows_fail _

theorem grows_removeStale (config : Config) (owner : Str)
    (deadline : Deadline) (e : PathLockError) :
    Grows (removeStale config owner deadline e) := by
  cases e with
  | conflict lockPath other kind =>
    refine (grows_readToken owner lockPath).bind fun held => ?_
    cases held with
    | none => exact grows_pure ()
    | some token =>
      refine (grows_sure fun _ => List.suffix_refl _).bind fun now => ?_
      split
      · refine (grows_checkDeadline deadline).bind fun _ => ?_
        exact (grows_remove owner lockPath token.ownerId).bind
          fun _ => grows_pure ()
      · exact grows_pure ()
  | _ => exact grows_pure ()

theorem grows_failCommit (owner : Str) (acquired : Acquired)
    (e : PathLockError) :
    Grows (failCommit owner acquired e : Attempt PathLockError World α) := by
  refine (grows_rollback owner acquired).outcome.bind fun r => ?_
  cases r with
  | ok _ => exact grows_fail e
  | error rollback => exact grows_fail _

theorem grows_modify {f : World -> World}
    (h : forall w : World, (f w).refusals = w.refusals) :
    Grows (modify f : Attempt PathLockError World Unit) := by
  intro w
  show w.refusals <:+ (f w).refusals
  rw [h w]

theorem grows_setRegistry (slot : Nat) (registry : OwnerRegistry) :
    Grows (modify (setRegistry slot registry) :
      Attempt PathLockError World Unit) :=
  grows_modify fun _ => rfl

theorem grows_publishLease (owner : OwnerState) (acquired : Acquired)
    (owned : OwnedPathLockLease) (inserted : OwnerRegistry) :
    Grows (publishLease owner acquired owned inserted) := by
  refine (grows_setRegistry _ _).bind fun _ => ?_
  refine (grows_sure fun _ => List.suffix_refl _).bind fun index => ?_
  split
  · exact (grows_setRegistry _ _).bind fun _ => grows_failCommit _ _ _
  · refine Grows.bind ?_ fun _ => grows_pure _
    exact grows_modify fun _ => rfl

theorem grows_commit (owner : OwnerState) (requests : List PathLockRequest)
    (acquired : Acquired) : Grows (commit owner requests acquired) := by
  refine (grows_pass owner.ownerId).bind fun first => ?_
  refine (grows_pass owner.ownerId).bind fun second => ?_
  refine (grows_sure fun _ => List.suffix_refl _).bind fun registry => ?_
  split
  · exact grows_failCommit _ _ _
  · exact grows_publishLease owner acquired _ _

theorem grows_checkCapability (owner : OwnerState)
    (capability : Option (Str × Str)) :
    Grows (checkCapability owner capability) := by
  cases capability with
  | none => exact grows_pure ()
  | some refs =>
    refine (grows_sure fun _ => List.suffix_refl _).bind fun registry => ?_
    split
    · exact grows_pure ()
    · exact grows_fail _

theorem grows_checkTurn (deadline : Deadline) (atOnce : Bool) :
    Grows (checkTurn deadline atOnce) := by
  rw [checkTurn]
  split
  · exact grows_pure ()
  · exact grows_checkDeadline deadline

theorem grows_waitForRetry (config : Config) (owner : Str)
    (deadline : Deadline) (e : PathLockError) (preConflict : Bool) :
    Grows (waitForRetry config owner deadline e preConflict) := by
  rw [waitForRetry]
  split
  · refine (grows_checkDeadline deadline).bind fun _ => ?_
    split
    · refine (grows_removeStale config owner deadline e).bind fun _ => ?_
      exact (grows_pass owner).bind fun _ => grows_pure ()
    · exact (grows_pass owner).bind fun _ => grows_pure ()
  · exact grows_fail e

theorem grows_acquireLoop (config : Config) (owner : OwnerState)
    (capability : Option (Str × Str)) (deadline : Deadline)
    (requests : List PathLockRequest) (fuel : Nat) (firstAttempt : Bool) :
    Grows (acquireLoop config owner capability deadline requests fuel
      firstAttempt) := by
  induction fuel generalizing firstAttempt with
  | zero => exact grows_pure none
  | succ fuel ih =>
    refine (grows_lockOwner owner.ownerId deadline).bind fun locked => ?_
    refine (grows_checkTurn deadline _).bind fun _ => ?_
    refine (grows_checkCapability owner capability).bind fun _ => ?_
    refine (grows_tryAcquireBatchOnce config owner.ownerId
      requests).outcome.bind fun r => ?_
    cases r with
    | ok acquired =>
      exact (grows_commit owner requests acquired).bind fun _ => grows_pure _
    | error failure =>
      exact (grows_waitForRetry config owner.ownerId deadline failure.1
        failure.2).bind fun _ => ih false

end Lock
end OpenViking
