import OpenViking.Lock.Refusals

/-!
# A failed acquire leaves no trace

However often a call tries, when it fails the owner has the tokens it had, no
lease is registered, and a token of another owner was removed only when stale.
Two things can break this: a token is changed between the look that finds it
stale and its removal, and an upgrade of a token of the owner is refused, after
which the call may take that token for a stale one of somebody else.
-/

namespace OpenViking
namespace Lock

open Paths Attempt Assoc World

variable {α : Type} {config : Config} {owner : Str}

/-- No trace is left of a call that began in one world and failed in another.
The tokens of the owner have the same kinds, and the same times but for the
refreshes in the part of the script that was played. -/
structure LeavesNoTrace (config : Config) (owner : Str) (w w' : World) :
    Prop where
  tokens : exists consumed : List Event, w.script = consumed ++ w'.script ∧
    forall lockPath : Str,
      (own owner w'.tokens lockPath).map LockToken.lockType =
        (own owner w.tokens lockPath).map LockToken.lockType ∧
      (¬ Refreshed consumed lockPath ->
        own owner w'.tokens lockPath = own owner w.tokens lockPath)
  registered : forall slot : Nat,
    OwnerRegistry.Same (w.registryOf slot) (w'.registryOf slot)
  published : w'.index = w.index
  removed : forall r, r ∈ w'.removals -> r.taken.ownerId ≠ owner ->
    isStale config r.taken r.nowNs = true

/-- No token of another owner was changed in the step that removed it, and no
upgrade of an exact token was refused. -/
structure Undisturbed (owner : Str) (w : World) : Prop where
  removals : forall r, r ∈ w.removals -> r.taken.ownerId ≠ owner ->
    r.found = some r.taken
  refusals : forall token, token ∈ w.refusals ->
    token.lockType ≠ .exact

theorem leavesNoTrace_of_passes {w w' : World} {registries : Assoc Nat OwnerRegistry}
    (hstart : w.removals = [])
    (hpasses : Passes config owner [] { w with registries := registries } w')
    (hregistries : forall slot : Nat, OwnerRegistry.Same (w.registryOf slot)
      (registryOf { w with registries := registries } slot))
    (hundisturbed : Undisturbed owner w') :
    LeavesNoTrace config owner w w' where
  tokens := hpasses.tokens
  registered := by
    intro slot
    have hsame := hregistries slot
    rw [registryOf, registryOf, hpasses.registries] at *
    exact hsame
  published := hpasses.index
  removed := by
    have hfair : Fair config owner { w with registries := registries } := by
      intro r hr
      rw [hstart] at hr
      cases hr
    intro r hr hne
    exact hpasses.fair hfair r hr hne (hundisturbed.removals r hr hne)

theorem leavesNoTrace_of_quiet {w w' : World} (hstart : w.removals = [])
    (hpasses : Passes config owner [] w w')
    (hundisturbed : Undisturbed owner w') : LeavesNoTrace config owner w w' :=
  leavesNoTrace_of_passes hstart hpasses
    (fun _ => OwnerRegistry.Same.refl _) hundisturbed

/-!
# The steps between two attempts
-/

theorem quietAt_pass (w : World) : QuietAt config owner (pass owner) w :=
  quietAt_sure (next_passes w)

theorem Deadline.error_ne_conflict (deadline : Deadline) (now : Nat)
    (lockPath other : Str) (kind : PathLockKind) :
    deadline.error now ≠ .conflict lockPath other kind := nofun

theorem quietAt_checkDeadline (deadline : Deadline) (w : World) :
    QuietAt config owner (checkDeadline deadline) w := by
  refine (quietAt_sure (Passes.refl w)).bind fun now mid _ => ?_
  split
  · exact quietAt_fail (blames_of_ne (deadline.error_ne_conflict now) mid)
  · exact quietAt_pure () mid

theorem quietAt_lockOwner (deadline : Deadline) (w : World) :
    QuietAt config owner (lockOwner owner deadline) w := by
  refine (quietAt_pass w).bind fun event mid _ => ?_
  split
  · exact quietAt_pure true mid
  · refine (quietAt_checkDeadline deadline mid).bind fun _ later _ => ?_
    refine (quietAt_pass later).bind fun waited last _ => ?_
    split
    · exact quietAt_pure false last
    · refine (quietAt_sure (Passes.refl last)).bind fun now final _ => ?_
      exact quietAt_fail (blames_of_ne (deadline.error_ne_conflict now) final)

theorem quietAt_checkCapability (state : OwnerState)
    (capability : Option (Str × Str)) (w : World) :
    QuietAt config owner (checkCapability state capability) w := by
  cases capability with
  | none => exact quietAt_pure () w
  | some refs =>
    refine (quietAt_sure (Passes.refl w)).bind fun registry mid _ => ?_
    split
    · exact quietAt_pure () mid
    · apply quietAt_fail
      apply blames_of_ne
      intro lockPath other kind h
      cases h

variable {deadline : Deadline}

theorem checkDeadline_ok {w w' : World}
    (h : checkDeadline deadline w = (.ok (), w')) : w' = w := by
  rcases exists_of_bind_ok h with ⟨now, mid, hnow, hrest⟩
  cases hnow
  split at hrest
  · cases hrest
  · cases hrest
    rfl

variable {e : PathLockError}

theorem quietAt_removeStale
    {w : World}
    (hnone : forall (lockPath other : Str) (kind : PathLockKind),
      e = .conflict lockPath other kind ->
        own owner w.tokens lockPath = none) :
    QuietAt config owner (removeStale config owner deadline e) w := by
  cases e with
  | conflict lockPath other kind =>
    have hquiet : QuietAt config owner
        ((provider owner).readToken lockPath) w :=
      quietAt_readToken lockPath w
    refine hquiet.bind fun held mid hread => ?_
    have hpasses := hquiet.passes
    rw [hread] at hpasses
    have hfind := find_of_readToken hread
    have hmid := (hpasses.own_eq_none_iff lockPath).mpr
      (hnone lockPath other kind rfl)
    cases held with
    | none => exact quietAt_pure () mid
    | some token =>
      have hother : token.ownerId ≠ owner := own_eq_none_iff.mp hmid token hfind
      refine (quietAt_sure (Passes.refl mid)).bind fun now later hnow => ?_
      cases hnow
      split
      · rename_i hstale
        refine (quietAt_checkDeadline deadline mid).bind
          fun _ last hdeadline => ?_
        rw [checkDeadline_ok hdeadline]
        have hremove : QuietAt config owner
            ((provider owner).removeToken lockPath token.ownerId)
            mid := by
          apply quietAt_removeOther hother
          intro stored hstored
          rw [hfind] at hstored
          cases hstored
          exact hstale
        exact hremove.bind fun _ final _ => quietAt_pure () final
      · exact quietAt_pure () mid
  | _ => exact quietAt_pure () w

/-!
# A lease that cannot be registered
-/

variable {acquired : Acquired}

theorem Passes.withRegistries {w w' : World}
    (h : Passes config owner acquired w w')
    (registries : Assoc Nat OwnerRegistry) :
    Passes config owner acquired { w with registries := registries }
      { w' with registries := registries } :=
  { h with
    registries := rfl }

variable {w w' last : World}

theorem failCommit_passes {e e' : PathLockError}
    (hpasses : Passes config owner acquired w w')
    (hholding : Holding owner acquired w')
    (hrun : (failCommit owner acquired e : Attempt PathLockError World α) w' =
      (.error e', last))
    (hreported : forall a b : PathLockError, e' ≠ rollbackError a b) :
    Passes config owner [] w last := by
  rw [failCommit] at hrun
  cases hstep : rollbackAcquisitions (provider owner) owner acquired w' with
  | mk result mid =>
    have houtcome : outcome (rollbackAcquisitions
        (provider owner) owner acquired) w' =
        ((.ok result : Except PathLockError _), mid) := by
      rw [outcome, hstep]
    rw [bind_of_ok houtcome] at hrun
    cases result with
    | error rollback =>
      cases hrun
      exact absurd rfl (hreported e rollback)
    | ok _ =>
      cases hrun
      exact (rollback_undoes
        (fun entry hmem => (hholding entry hmem).left) hpasses hstep).left

theorem holding_next {w w' : World}
    (h : Holding owner acquired w) (hpasses : Passes config owner [] w w') :
    Holding owner acquired w' := by
  intro entry hmem
  have hentry := h entry hmem
  refine ⟨hentry.left, fun hnone => hentry.right ?_⟩
  exact (hpasses.own_eq_none_iff entry.1).mp hnone

variable {kinds : List PathLockKind}

theorem same_registryOf_put {w : World} {slot : Nat}
    {inserted : OwnerRegistry} {expected ownershipRef : Str}
    {lease : PathLockLease}
    (hinsert : (w.registryOf slot).insert expected lease ownershipRef kinds =
      .ok inserted) (other : Nat) :
    OwnerRegistry.Same (w.registryOf other)
      (registryOf
        { w with
          registries := (w.registries.put slot inserted).put slot
            (inserted.rollbackInsert lease.leaseRef) } other) := by
  by_cases h : other = slot
  · subst h
    have hsame := OwnerRegistry.same_rollbackInsert hinsert
    rw [registryOf, registryOf, find_put_self]
    exact hsame
  · rw [registryOf, registryOf, find_put_ne _ _ h,
      find_put_ne _ _ h]
    exact OwnerRegistry.Same.refl _

variable {state : OwnerState}

variable {owned : OwnedPathLockLease}

theorem publishLease_error {inserted : OwnerRegistry} (hstart : w.removals = [])
    (hpasses : Passes config state.ownerId acquired w w')
    (hholding : Holding state.ownerId acquired w')
    (hinsert : (w'.registryOf state.slot).insert state.ownerId owned.lease
      owned.ownershipRef kinds = .ok inserted)
    (hrun : publishLease state acquired owned inserted w' =
      (.error e, last))
    (hreported : forall a b : PathLockError, e ≠ rollbackError a b)
    (hundisturbed : Undisturbed state.ownerId last) :
    LeavesNoTrace config state.ownerId w last := by
  rcases bind_error_cases hrun with h | ⟨_, w1, hset, hrun⟩
  · cases h
  rcases bind_error_cases hrun with h | ⟨index, w2, hindex, hrun⟩
  · cases h
  have hw1 : w1 = setRegistry state.slot inserted w' := by
    cases hset
    rfl
  have hw2 : w2 = w1 ∧ index = w'.index := by
    cases hindex
    rw [hw1]
    exact ⟨rfl, rfl⟩
  rw [hw2.left, hw2.right, hw1] at hrun
  cases hpublish : w'.index.publish owned.lease.leaseRef state with
  | error e' =>
    rw [hpublish] at hrun
    rcases bind_error_cases hrun with h | ⟨_, w3, hback, hrun⟩
    · cases h
    cases hback
    have hwith := hpasses.withRegistries
      ((w'.registries.put state.slot inserted).put state.slot
        (inserted.rollbackInsert owned.lease.leaseRef))
    refine leavesNoTrace_of_passes hstart
      (failCommit_passes hwith hholding hrun hreported) ?_ hundisturbed
    intro slot
    have hkept : w.registryOf slot = w'.registryOf slot := by
      rw [registryOf, registryOf, hpasses.registries]
    rw [hkept]
    exact same_registryOf_put hinsert slot
  | ok published =>
    rw [hpublish] at hrun
    rcases bind_error_cases hrun with h | ⟨_, w3, _, hrun⟩
    · cases h
    · cases hrun

theorem registerLease_error (hstart : w.removals = [])
    (hpasses : Passes config state.ownerId acquired w w')
    (hholding : Holding state.ownerId acquired w')
    (hrun : registerLease state acquired owned kinds w' =
      (.error e, last))
    (hreported : forall a b : PathLockError, e ≠ rollbackError a b)
    (hundisturbed : Undisturbed state.ownerId last) :
    LeavesNoTrace config state.ownerId w last := by
  rcases bind_error_cases hrun with h | ⟨registry, w1, hread, hrun⟩
  · cases h
  cases hread
  cases hinsert : (w'.registryOf state.slot).insert state.ownerId owned.lease
      owned.ownershipRef kinds with
  | error e' =>
    rw [hinsert] at hrun
    exact leavesNoTrace_of_quiet hstart
      (failCommit_passes hpasses hholding hrun hreported) hundisturbed
  | ok inserted =>
    rw [hinsert] at hrun
    exact publishLease_error hstart hpasses hholding hinsert hrun hreported
      hundisturbed

variable {requests : List PathLockRequest}

theorem commit_error
    (hstart : w.removals = [])
    (hpasses : Passes config state.ownerId acquired w w')
    (hholding : Holding state.ownerId acquired w')
    (hrun : commit state requests acquired w' = (.error e, last))
    (hreported : forall a b : PathLockError, e ≠ rollbackError a b)
    (hundisturbed : Undisturbed state.ownerId last) :
    LeavesNoTrace config state.ownerId w last := by
  rcases bind_error_cases hrun with h | ⟨first, w1, hfirst, hrun⟩
  · cases h
  rcases bind_error_cases hrun with h | ⟨second, w2, hsecond, hrun⟩
  · cases h
  cases hfirst
  cases hsecond
  have hnext : Passes config state.ownerId [] w'
      (next state.ownerId (next state.ownerId w').2).2 :=
    (next_passes w').trans (next_passes _)
  have hto := hpasses.trans hnext
  rw [List.append_nil] at hto
  exact registerLease_error hstart hto (holding_next hholding hnext) hrun
    hreported hundisturbed

/-!
# The whole call
-/

theorem QuietAt.trace {β : Type} {x : Attempt PathLockError World β}
    {f : β -> Attempt PathLockError World α} (hstart : w.removals = [])
    (hpasses : Passes config owner [] w w') (hx : QuietAt config owner x w')
    (hrun : (x >>= f) w' = (.error e, last))
    (hundisturbed : Undisturbed owner last)
    (hf : forall (b : β) (mid : World), x w' = (.ok b, mid) ->
      Passes config owner [] w mid -> f b mid = (.error e, last) ->
      LeavesNoTrace config owner w last) :
    LeavesNoTrace config owner w last := by
  have hlater := hx.passes
  rcases bind_error_cases hrun with hfail | ⟨b, mid, hstep, hrest⟩
  · rw [hfail] at hlater
    exact leavesNoTrace_of_quiet hstart (hpasses.trans hlater) hundisturbed
  · rw [hstep] at hlater
    exact hf b mid hstep (hpasses.trans hlater) hrest

theorem quietAt_checkTurn (deadline : Deadline) (atOnce : Bool) (w : World) :
    QuietAt config owner (checkTurn deadline atOnce) w := by
  rw [checkTurn]
  split
  · exact quietAt_pure () w
  · exact quietAt_checkDeadline deadline w

theorem quietAt_waitForRetry
    {preConflict : Bool} {w : World}
    (hnone : preConflict = true ->
      forall (lockPath other : Str) (kind : PathLockKind),
        e = .conflict lockPath other kind ->
          own owner w.tokens lockPath = none) :
    QuietAt config owner
      (waitForRetry config owner deadline e preConflict) w := by
  rw [waitForRetry]
  split
  · refine (quietAt_checkDeadline deadline w).bind fun _ mid hdeadline => ?_
    rw [checkDeadline_ok hdeadline]
    split
    · rename_i hpre
      refine (quietAt_removeStale (hnone hpre)).bind fun _ later _ => ?_
      exact (quietAt_pass later).bind fun _ last _ => quietAt_pure () last
    · exact (quietAt_pass w).bind fun _ last _ => quietAt_pure () last
  · rename_i hretry
    apply quietAt_fail
    apply blames_of_ne
    intro lockPath other kind heq
    rw [heq] at hretry
    exact hretry rfl

theorem acquireLoop_error
    {capability : Option (Str × Str)} {fuel : Nat} {firstAttempt : Bool} (hstart : w.removals = [])
    (hpasses : Passes config state.ownerId [] w w')
    (hrun : acquireLoop config state capability deadline requests fuel
      firstAttempt w' = (.error e, last))
    (hreported : forall a b : PathLockError, e ≠ rollbackError a b)
    (hundisturbed : Undisturbed state.ownerId last) :
    LeavesNoTrace config state.ownerId w last := by
  induction fuel generalizing firstAttempt w' with
  | zero => cases hrun
  | succ fuel ih =>
    refine (quietAt_lockOwner deadline w').trace hstart hpasses hrun
      hundisturbed fun locked w1 _ h1 hrun => ?_
    refine (quietAt_checkTurn deadline _ w1).trace hstart h1 hrun
      hundisturbed fun _ w2 _ h2 hrun => ?_
    refine (quietAt_checkCapability state capability w2).trace hstart h2 hrun
      hundisturbed fun _ w3 _ h3 hrun => ?_
    cases hstep : tryAcquireBatchOnce (provider state.ownerId) config
        requests state.ownerId w3 with
    | mk result mid =>
      have houtcome : outcome (tryAcquireBatchOnce
          (provider state.ownerId) config requests
          state.ownerId) w3 =
          ((.ok result : Except PathLockError _), mid) := by
        rw [outcome, hstep]
      rw [bind_of_ok houtcome] at hrun
      cases result with
      | ok acquired =>
        have hdone := tryAcquireBatchOnce_ok hstep
        have hto := h3.trans hdone.left
        rw [List.nil_append] at hto
        rcases bind_error_cases hrun with
          hcommit | ⟨owned, later, _, hrest⟩
        · exact commit_error hstart hto hdone.right hcommit hreported hundisturbed
        · cases hrest
      | error failure =>
        have hgrown := ((grows_waitForRetry config state.ownerId deadline
          failure.1 failure.2).bind fun _ => grows_acquireLoop config
            state capability deadline requests fuel false) mid
        have hkept : mid.refusals <:+ last.refusals := by
          have hlast := congrArg Prod.snd hrun
          exact Eq.subst (motive := fun final : World =>
            mid.refusals <:+ final.refusals) hlast hgrown
        have hreport : forall a b : PathLockError,
            failure.1 ≠ rollbackError a b := by
          intro a b heq
          have hfail : waitForRetry config state.ownerId deadline
              failure.1 failure.2 mid =
              (.error (rollbackError a b), mid) := by
            rw [heq]
            rfl
          have hend := (bind_of_error hfail).symm.trans hrun
          cases hend
          exact hreported a b rfl
        have hfailed := tryAcquireBatchOnce_error hstep hreport
        have hnone : failure.2 = true ->
            forall (lockPath other : Str) (kind : PathLockKind),
              failure.1 = .conflict lockPath other kind ->
                own state.ownerId mid.tokens lockPath = none := by
          intro hpre lockPath other kind heq
          rcases hfailed.right hpre lockPath other kind heq with h | h
          · exact h
          · rcases h with ⟨token, hmem, hexact⟩
            exact absurd hexact (hundisturbed.refusals token (hkept.mem hmem))
        exact (quietAt_waitForRetry hnone).trace hstart
          (h3.trans hfailed.left) hrun hundisturbed
          fun _ later _ hlater hrest => ih hlater hrest

/-- The owner a call acts for; a call that names no lease of anybody acts for
nobody. -/
def callOwner (index : LeaseIndex) (newOwner : OwnerState)
    (capability : Option (Str × Str)) : OwnerState :=
  match resolveOwnerState index newOwner capability with
  | .ok state => state
  | .error _ => newOwner

theorem acquireBatch_of_owner {requests : List PathLockRequest} {timeout : Nat}
    {capability : Option (Str × Str)} {newOwner state : OwnerState} {fuel : Nat}
    {w : World} (hne : requests ≠ [])
    (hstate : resolveOwnerState w.index newOwner capability = .ok state) :
    acquireBatch config requests timeout capability newOwner fuel w =
      acquireLoop config state capability { start := w.clock, timeout := timeout }
        (normalizeRequests requests) fuel true w := by
  rw [acquireBatch, if_neg hne]
  refine (bind_of_ok rfl).trans ?_
  rw [hstate]
  exact bind_of_ok rfl

/-- A failed acquire leaves no trace in a run that nothing disturbs. -/
theorem failed_acquire_leaves_no_trace {requests : List PathLockRequest}
    {timeout : Nat} {capability : Option (Str × Str)} {newOwner : OwnerState}
    {fuel : Nat} {e : PathLockError} {w w' : World}
    (hstart : w.removals = [])
    (hrun : acquireBatch config requests timeout capability newOwner fuel w =
      (.error e, w'))
    (hreported : forall a b : PathLockError, e ≠ rollbackError a b)
    (hundisturbed :
      Undisturbed (callOwner w.index newOwner capability).ownerId w') :
    LeavesNoTrace config (callOwner w.index newOwner capability).ownerId
      w w' := by
  rw [acquireBatch] at hrun
  split at hrun
  · cases hrun
    exact leavesNoTrace_of_quiet hstart (Passes.refl w) hundisturbed
  rcases bind_error_cases hrun with h | ⟨index, w1, hread, hrun⟩
  · cases h
  cases hread
  rw [callOwner] at hundisturbed ⊢
  cases hstate : resolveOwnerState w.index newOwner capability with
  | error e' =>
    rw [hstate] at hrun hundisturbed
    cases hrun
    exact leavesNoTrace_of_quiet hstart (Passes.refl w) hundisturbed
  | ok state =>
    rw [hstate] at hrun hundisturbed
    rcases bind_error_cases hrun with h | ⟨now, w2, hclock, hrun⟩
    · cases h
    cases hclock
    exact acquireLoop_error hstart (Passes.refl w) hrun hreported hundisturbed

/-!
# Runs
-/

def sampleExpiry : Config where
  expireNs := 30000000000
  hashPrefix := fun _ => "0123456789abcdef".toList

def lockOfD : Str := "/d/.path.ovlock".toList

/-- A directory `/d` with a token, and no leases. -/
def worldWith (token : LockToken) (script : List Event) : World where
  tokens := ofList [(lockOfD, token)]
  clock := 100000000000
  registries := ∅
  index := { byLease := ∅, byOwner := ∅ }
  script := script
  removals := []
  refusals := []

def newSample : OwnerState where
  slot := 0
  ownerId := "a".toList

def liveToken : LockToken where
  ownerId := "b".toList
  timeNs := 100000000000
  lockType := .exact

/-- The owner `a` has an exact token that is past its time. -/
def ownToken : LockToken where
  ownerId := "a".toList
  timeNs := 0
  lockType := .exact

def ownLease : LeaseEntry where
  lease :=
    { leaseRef := "lease".toList, ownerId := "a".toList, lockPaths := [lockOfD]
      coveredPaths := [{ path := "/d".toList, kind := .exact }] }
  ownershipRef := "owned".toList
  pendingHandoff := false
  lockKinds := ofList [(lockOfD, .exact)]

def ownWorld (script : List Event) : World :=
  { worldWith ownToken script with
    registries := ofList [(0,
      { OwnerRegistry.empty with
        entries := ofList [("lease".toList, ownLease)] })]
    index :=
      { byLease := ofList [("lease".toList, newSample)]
        byOwner := ofList [("a".toList, newSample)] } }

def lockOf (dir : String) : Str :=
  dir.toList ++ "/.path.ovlock".toList

/-- Besides, `b` has a stale token and a live one. -/
def mixedWorld : World :=
  { ownWorld [] with
    tokens := ofList [(lockOfD, ownToken),
      (lockOf "/s", { liveToken with timeNs := 0 }), (lockOf "/z", liveToken)] }

def mixedRequests : List PathLockRequest :=
  [{ path := "/d".toList, kind := .tree }, { path := "/n".toList, kind := .exact },
    { path := "/s".toList, kind := .exact }, { path := "/z".toList, kind := .exact }]

theorem normalizeRequests_mixed : normalizeRequests mixedRequests = mixedRequests := by
  have hmerged : mixedRequests.foldl mergeRequest [] = mixedRequests := by
    decide +kernel
  rw [normalizeRequests, hmerged]
  exact List.mergeSort_of_pairwise (by decide +kernel)

/-- The batch upgrades a token, creates one, takes the place of the stale one,
and fails at the last. -/
def mixedRun : Except PathLockError (Option OwnedPathLockLease) × World :=
  acquireLoop sampleExpiry newSample (some ("lease".toList, "owned".toList))
    { start := mixedWorld.clock, timeout := 0 } mixedRequests 1 true mixedWorld

theorem mixed_run_leaves_no_trace :
    LeavesNoTrace sampleExpiry "a".toList mixedWorld mixedRun.2 ∧
      mixedRun.2.removals.map (fun r => r.taken.ownerId) =
        ["a".toList, "a".toList, "b".toList] ∧
      [lockOfD, lockOf "/n", lockOf "/s", lockOf "/z"].map
        mixedRun.2.tokens.find = [some ownToken, none, none, some liveToken] := by
  have herror : mixedRun.1 = .error (.timeout 0) := by
    decide +kernel
  have hbatch : acquireBatch sampleExpiry mixedRequests 0
      (some ("lease".toList, "owned".toList)) { newSample with slot := 1 } 1
      mixedWorld = mixedRun := by
    have hstate : resolveOwnerState mixedWorld.index { newSample with slot := 1 }
        (some ("lease".toList, "owned".toList)) = .ok newSample := rfl
    have hne : mixedRequests ≠ [] := List.cons_ne_nil _ _
    rw [acquireBatch_of_owner hne hstate, normalizeRequests_mixed]
    rfl
  have hrun : mixedRun = (.error (.timeout 0), mixedRun.2) := by
    rw [← herror]
  have hremovals : forall r, r ∈ mixedRun.2.removals ->
      r.taken.ownerId ≠ "a".toList -> r.found = some r.taken := by
    decide +kernel
  have hrefusals : mixedRun.2.refusals = [] := by decide +kernel
  refine ⟨failed_acquire_leaves_no_trace rfl (hbatch.trans hrun) ?_
    ⟨hremovals, ?_⟩,
    by decide +kernel, by decide +kernel⟩
  · nofun
  · intro token htoken
    rw [hrefusals] at htoken
    cases htoken

/-- The token of `b` is stale; it is refreshed just before it is removed, and
then the new token cannot be written. -/
def refreshedRun : Except PathLockError (Option OwnedPathLockLease) × World :=
  acquireBatch sampleExpiry
    [{ path := "/d".toList, kind := .exact }] 0 none newSample 1
    (worldWith { liveToken with timeNs := 0 }
      (List.replicate 7 Event.quiet ++
        [{ Event.quiet with moves := [Move.hold lockOfD liveToken] },
         { Event.quiet with fault := some (Fault.failed "disk full".toList) }]))

def refreshedRemoval : Removal where
  found := some { liveToken with timeNs := 0 }
  taken := liveToken
  nowNs := 100000000000

/-- Its upgrade is refused once, and the call waits until its time is over. -/
def refusedScript : List Event :=
  List.replicate 10 Event.quiet ++
    [{ Event.quiet with miss := true }, Event.quiet, Event.quiet,
     { Event.quiet with elapsedNs := 1000000000 }]

def refusedRun : Except PathLockError (Option OwnedPathLockLease) × World :=
  acquireBatch sampleExpiry
    [{ path := "/d".toList, kind := .tree }] 1000000000
    (some ("lease".toList, "owned".toList)) { newSample with slot := 1 } 2
    (ownWorld refusedScript)

/-- Both calls fail; the first has removed a live token of another owner, and
the second the token that its own owner had. -/
theorem failed_acquire_leaves_traces :
    (refreshedRun.1 = .error (.io "disk full".toList) ∧
      exists r, r ∈ refreshedRun.2.removals ∧ r.taken.ownerId ≠ "a".toList ∧
        isStale sampleExpiry r.taken r.nowNs = false) ∧
    refusedRun.1 = .error (.timeout 1000) ∧
      own "a".toList (ownWorld refusedScript).tokens lockOfD =
        some ownToken ∧
      own "a".toList refusedRun.2.tokens lockOfD = none := by
  have hremovals : refreshedRun.2.removals = [refreshedRemoval] := by
    decide +kernel
  refine ⟨⟨by decide +kernel, refreshedRemoval, ?_, by decide, by decide⟩,
    by decide +kernel, by decide +kernel, by decide +kernel⟩
  rw [hremovals]
  exact List.mem_singleton_self _

end Lock
end OpenViking
