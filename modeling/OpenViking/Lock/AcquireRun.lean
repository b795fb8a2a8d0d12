import OpenViking.Lock.IsLocked

/-!
# One attempt at a batch

An attempt checks and writes the token of every request in order, then checks
every request again.  What it has changed it remembers, and when something
fails it takes the changes back, the last one first.
-/

namespace OpenViking
namespace Lock

open Paths Attempt Assoc

variable {W : Type}

inductive AcquisitionChange where
  | created
  | reentrant
  | upgraded (previous replacement : LockToken)
deriving DecidableEq

/-- The changes of an attempt, each with its lock path. -/
abbrev Acquired : Type := List (Str × AcquisitionChange)

/-!
# The directory of a lock file
-/

/-- The directories to be made for a lock file, the lowest first. -/
def missingDirs (provider : Provider W) :
    Nat -> Str -> Attempt PathLockError W (List Str)
  | 0, _ => return []
  | fuel + 1, current => do
      match ← outcome (provider.statIsDir current) with
      | .ok true => return []
      | _ =>
        match rsplitOnce current with
        | some (parent, _) =>
          if parent = [] then return [current]
          else return current :: (← missingDirs provider fuel parent)
        | none => return [current]

def makeDirs (provider : Provider W) :
    List Str -> Attempt PathLockError W Unit
  | [] => return ()
  | dir :: rest => do
      match ← outcome (provider.mkdir dir) with
      | .ok () => makeDirs provider rest
      | .error mkdirError =>
        match ← outcome (provider.statIsDir dir) with
        | .ok true => makeDirs provider rest
        | _ =>
          fail (.io
            ("failed to create lock dir '".toList ++ dir ++ "': ".toList ++
              mkdirError))

def ensureLockDir (provider : Provider W) (lockPath : Str) :
    Attempt PathLockError W Unit := do
  match rsplitOnce lockPath with
  | none => return ()
  | some (parent, _) =>
    if parent = [] ∨ parent = ['/'] then return ()
    else
      let missing ← missingDirs provider parent.length parent
      makeDirs provider missing.reverse

/-- The lock directory, with the error of the attempt that needs it. -/
def ensureLockDirFor (provider : Provider W) (lockPath : Str) :
    Attempt PathLockError W Unit := do
  match ← outcome (ensureLockDir provider lockPath) with
  | .ok () => return ()
  | .error e =>
    fail (.io
      ("failed to create lock dir: ".toList ++ e.display))

/-!
# One token
-/

def tryAcquireOne (provider : Provider W) (config : Config)
    (lockPath owner : Str) (kind : PathLockKind) :
    Attempt PathLockError W AcquisitionChange := do
  let now ← sure provider.nowNs
  let token : LockToken := { ownerId := owner, timeNs := now, lockType := kind }
  match ← provider.readToken lockPath with
  | some existing =>
    if existing.ownerId = owner then
      if existing.lockType = .exact ∧
          kind = .tree then
        if ← provider.compareAndWriteToken lockPath existing token then
          return .upgraded existing token
        fail
          (.conflict lockPath owner existing.lockType)
      else return .reentrant
    else if isStale config existing now then
      let _ ← provider.removeToken lockPath existing.ownerId
      provider.tryCreateToken lockPath token
      return .created
    else fail (conflictAt lockPath existing)
  | none =>
    provider.tryCreateToken lockPath token
    return .created

/-- `remove_owned_token_with`: a token that is gone counts as removed, and one
of another owner does not matter. -/
def removeOwnedToken (provider : Provider W) (lockPath owner : Str) :
    Attempt PathLockError W Bool := do
  if ← provider.removeToken lockPath owner then
    return true
  match ← provider.readToken lockPath with
  | none => return true
  | some token =>
    if token.ownerId ≠ owner then return false
    else
      fail (.io ("lock path '".toList ++ lockPath ++
        "' changed while releasing".toList))

/-!
# Taking changes back
-/

def takeBack (provider : Provider W) (owner lockPath : Str) :
    AcquisitionChange -> Attempt PathLockError W Unit
  | .created => do
      let _ ← removeOwnedToken provider lockPath owner
      return ()
  | .reentrant => return ()
  | .upgraded previous replacement => do
      if ← provider.compareAndWriteToken lockPath replacement previous then
        return ()
      fail (.io
        ("failed to roll back token upgrade at '".toList ++ lockPath ++
          "'".toList))

/-- Take every change back, and report the first error. -/
def takeBackEach (provider : Provider W) (owner : Str) :
    Acquired -> Option PathLockError ->
      Attempt PathLockError W (Option PathLockError)
  | [], firstError => return firstError
  | (lockPath, change) :: rest, firstError => do
      match ← outcome (takeBack provider owner lockPath change) with
      | .ok () => takeBackEach provider owner rest firstError
      | .error e =>
        takeBackEach provider owner rest
          (match firstError with
            | some earlier => some earlier
            | none => some e)

def rollbackAcquisitions (provider : Provider W) (owner : Str)
    (acquired : Acquired) : Attempt PathLockError W Unit := do
  match ← takeBackEach provider owner acquired.reverse none with
  | some e => fail e
  | none => return ()

/-- Both errors, so that a failed rollback is not retried. -/
def rollbackError (e rollback : PathLockError) : PathLockError :=
  .internal
    (e.display ++ "; rollback failed: ".toList ++ rollback.display)

/-!
# The attempt
-/

/-- The lock paths of the exact requests, as they were when acquired. -/
abbrev Resolutions : Type := Assoc Str ResolvedExactPaths

/-- What an attempt has done so far. -/
structure Progress where
  acquired : Acquired
  resolutions : Resolutions

def acquireRequest (provider : Provider W) (config : Config) (owner : Str)
    (request : PathLockRequest) (progress : Progress) :
    Attempt PathLockError W Progress := do
  match request.kind with
  | .exact =>
    let resolved ← checkExact provider config request.path owner
    let lockPath := resolved.acquireLockPath
    ensureLockDirFor provider lockPath
    let change ←
      tryAcquireOne provider config lockPath owner .exact
    return { acquired := progress.acquired ++ [(lockPath, change)]
             resolutions := progress.resolutions.put request.path resolved }
  | .tree =>
    let lockPath ← resolveTreeLockPath provider config request.path
    checkAncestorTreeLocks provider config request.path owner
    let candidates ← resolveExactPaths provider config request.path
    checkLockPaths provider config candidates.conflictPaths owner
    checkDescendantLocks provider config request.path owner
    ensureLockDirFor provider lockPath
    let change ←
      tryAcquireOne provider config lockPath owner .tree
    return { progress with
             acquired := progress.acquired ++ [(lockPath, change)] }

/-- The requests in order; a failure keeps what was acquired before it. -/
def acquireEach (provider : Provider W) (config : Config) (owner : Str) :
    List PathLockRequest -> Progress ->
      Attempt (PathLockError × Acquired) W Progress
  | [], progress => return progress
  | request :: rest, progress => do
      match ← outcome
          (acquireRequest provider config owner request progress) with
      | .ok next => acquireEach provider config owner rest next
      | .error e => fail (e, progress.acquired)

def verifyRequest (provider : Provider W) (config : Config) (owner : Str)
    (resolutions : Resolutions) (request : PathLockRequest) :
    Attempt PathLockError W Unit := do
  match request.kind with
  | .exact =>
    checkAncestorTreeLocks provider config request.path owner
    match resolutions.find request.path with
    | some resolved =>
      checkLockPaths provider config resolved.conflictPaths owner
    | none =>
      fail (.io
        ("missing cached exact resolution for '".toList ++
          request.path ++ "'".toList))
  | .tree =>
    checkAncestorTreeLocks provider config request.path owner
    let candidates ← resolveExactPaths provider config request.path
    checkLockPaths provider config candidates.conflictPaths owner
    checkDescendantLocks provider config request.path owner

def verifyEach (provider : Provider W) (config : Config) (owner : Str)
    (resolutions : Resolutions) :
    List PathLockRequest -> Attempt PathLockError W Unit
  | [] => return ()
  | request :: rest => do
      verifyRequest provider config owner resolutions request
      verifyEach provider config owner resolutions rest

/-- Take the changes back and fail; a failed rollback is what is reported. -/
def giveUp (provider : Provider W) (owner : Str) (acquired : Acquired)
    (e : PathLockError) (preConflict : Bool) :
    Attempt (PathLockError × Bool) W Acquired := do
  match ← outcome (rollbackAcquisitions provider owner acquired) with
  | .ok () => fail (e, preConflict)
  | .error rollback => fail (rollbackError e rollback, false)

/-- One attempt.  The error says whether it came before the second checks. -/
def tryAcquireBatchOnce (provider : Provider W) (config : Config)
    (requests : List PathLockRequest) (owner : Str) :
    Attempt (PathLockError × Bool) W Acquired := do
  match ← outcome (acquireEach provider config owner requests
      { acquired := [], resolutions := ∅ }) with
  | .error (e, acquired) => giveUp provider owner acquired e true
  | .ok progress =>
    match ← outcome (verifyEach provider config owner
        progress.resolutions requests) with
    | .error e => giveUp provider owner progress.acquired e false
    | .ok () => return progress.acquired

/-!
# Leases

A lease says which lock paths an owner holds for which requests.  The leases of
an owner are in its registry, which also counts how many leases hold a lock
path; an index finds the owner of a lease.
-/

structure PathLockLease where
  leaseRef : Str
  ownerId : Str
  lockPaths : List Str
  coveredPaths : List PathLockRequest
deriving DecidableEq

structure OwnedPathLockLease where
  lease : PathLockLease
  ownershipRef : Str
deriving DecidableEq

structure LeaseEntry where
  lease : PathLockLease
  ownershipRef : Str
  pendingHandoff : Bool
  lockKinds : Assoc Str PathLockKind

def incrementRef (refs : Assoc Str Nat) (lockPath : Str) : Assoc Str Nat :=
  refs.put lockPath ((refs.find lockPath).getD 0 + 1)

def decrementRef (refs : Assoc Str Nat) (lockPath : Str) : Assoc Str Nat :=
  match refs.find lockPath with
  | some count =>
    if 1 < count then refs.put lockPath (count - 1) else refs.del lockPath
  | none => refs

/-- A lock path is counted only while some lease holds it. -/
def Counted (refs : Assoc Str Nat) : Prop :=
  forall (lockPath : Str) (count : Nat),
    refs.find lockPath = some count -> 0 < count

variable {refs : Assoc Str Nat}

theorem counted_incrementRef (h : Counted refs)
    (lockPath : Str) : Counted (incrementRef refs lockPath) := by
  intro other count hfind
  rw [incrementRef, find_put] at hfind
  split at hfind
  · cases hfind
    exact Nat.succ_pos _
  · exact h other count hfind

theorem counted_decrementRef (h : Counted refs)
    (lockPath : Str) : Counted (decrementRef refs lockPath) := by
  intro other count hfind
  rw [decrementRef] at hfind
  split at hfind
  · split at hfind
    · rename_i hlt
      rw [find_put] at hfind
      split at hfind
      · cases hfind
        omega
      · exact h other count hfind
    · rw [find_del] at hfind
      split at hfind
      · cases hfind
      · exact h other count hfind
  · exact h other count hfind

theorem counted_foldl {step : Assoc Str Nat -> Str -> Assoc Str Nat}
    (hstep : forall refs : Assoc Str Nat, Counted refs ->
      forall lockPath : Str, Counted (step refs lockPath))
    (lockPaths : List Str) (h : Counted refs) :
    Counted (lockPaths.foldl step refs) := by
  induction lockPaths generalizing refs with
  | nil => exact h
  | cons lockPath rest ih => exact ih (hstep refs h lockPath)

structure OwnerRegistry where
  entries : Assoc Str LeaseEntry
  lockRefs : Assoc Str Nat
  counted : Counted lockRefs

namespace OwnerRegistry

def empty : OwnerRegistry where
  entries := ∅
  lockRefs := ∅
  counted := by
    intro lockPath count hfind
    rw [find_empty] at hfind
    cases hfind

def insert (registry : OwnerRegistry) (expectedOwner : Str)
    (lease : PathLockLease) (ownershipRef : Str)
    (lockKinds : List PathLockKind) : Except PathLockError OwnerRegistry :=
  if lease.ownerId ≠ expectedOwner then
    .error (.internal ("pathlock lease owner '".toList ++
      lease.ownerId ++ "' does not match owner state '".toList ++
      expectedOwner ++ "'".toList))
  else if (registry.entries.find lease.leaseRef).isSome then
    .error (.internal
      ("duplicate pathlock lease ref '".toList ++ lease.leaseRef ++
        "'".toList))
  else if lease.lockPaths.length ≠ lockKinds.length then
    .error (.internal ("pathlock lease '".toList ++
      lease.leaseRef ++ "' has mismatched lock paths and kinds".toList))
  else .ok
    { entries := registry.entries.put lease.leaseRef
        { lease := lease, ownershipRef := ownershipRef, pendingHandoff := false
          lockKinds := ofList (lease.lockPaths.zip lockKinds) }
      lockRefs := lease.lockPaths.dedup.foldl incrementRef registry.lockRefs
      counted := counted_foldl (fun _ h => counted_incrementRef h) _
        registry.counted }

def rollbackInsert (registry : OwnerRegistry) (leaseRef : Str) :
    OwnerRegistry :=
  match registry.entries.find leaseRef with
  | some entry =>
    { entries := registry.entries.del leaseRef
      lockRefs := entry.lease.lockPaths.dedup.foldl decrementRef
        registry.lockRefs
      counted := counted_foldl (fun _ h => counted_decrementRef h) _
        registry.counted }
  | none => registry

def capabilityMatches (registry : OwnerRegistry)
    (leaseRef ownershipRef : Str) : Bool :=
  (registry.entries.find leaseRef).any fun entry =>
    !entry.pendingHandoff && entry.ownershipRef == ownershipRef

/-- Two registries that answer every question alike. -/
structure Same (a b : OwnerRegistry) : Prop where
  entries : forall leaseRef : Str,
    a.entries.find leaseRef = b.entries.find leaseRef
  lockRefs : forall lockPath : Str,
    a.lockRefs.find lockPath = b.lockRefs.find lockPath

theorem Same.refl (a : OwnerRegistry) : Same a a :=
  ⟨fun _ => rfl, fun _ => rfl⟩

theorem find_foldl_incrementRef {lockPaths : List Str}
    (hnodup : lockPaths.Nodup) (refs : Assoc Str Nat) (lockPath : Str) :
    (lockPaths.foldl incrementRef refs).find lockPath =
      if lockPath ∈ lockPaths then
        some ((refs.find lockPath).getD 0 + 1)
      else refs.find lockPath := by
  induction lockPaths generalizing refs with
  | nil => rfl
  | cons first rest ih =>
    have hrest := List.nodup_cons.mp hnodup
    rw [List.foldl_cons, ih hrest.right, incrementRef, find_put]
    by_cases hfirst : lockPath = first
    · subst hfirst
      simp [hrest.left]
    · simp [hfirst]

theorem find_foldl_decrementRef {lockPaths : List Str}
    (hnodup : lockPaths.Nodup) (refs : Assoc Str Nat) (lockPath : Str) :
    (lockPaths.foldl decrementRef refs).find lockPath =
      if lockPath ∈ lockPaths then
        (refs.find lockPath).bind fun count =>
          if 1 < count then some (count - 1) else none
      else refs.find lockPath := by
  induction lockPaths generalizing refs with
  | nil => rfl
  | cons first rest ih =>
    have hrest := List.nodup_cons.mp hnodup
    have hstep : (decrementRef refs first).find lockPath =
        if lockPath = first then
          (refs.find lockPath).bind fun count =>
            if 1 < count then some (count - 1) else none
        else refs.find lockPath := by
      rw [decrementRef]
      by_cases hfirst : lockPath = first
      · subst hfirst
        cases hfind : refs.find lockPath with
        | none => simp [hfind]
        | some count =>
          simp only [if_true, Option.bind_some]
          split
          · rw [find_put_self]
          · rw [find_del_self]
      · split
        · split <;> simp [find_put, find_del, hfirst]
        · simp [hfirst]
    rw [List.foldl_cons, ih hrest.right, hstep]
    by_cases hfirst : lockPath = first
    · subst hfirst
      simp [hrest.left]
    · simp [hfirst]

/-- Taking back an inserted lease leaves the registry as it was. -/
theorem same_rollbackInsert {registry inserted : OwnerRegistry} {owner : Str}
    {lease : PathLockLease} {ownershipRef : Str} {kinds : List PathLockKind}
    (h : registry.insert owner lease ownershipRef kinds =
      .ok inserted) :
    Same registry (inserted.rollbackInsert lease.leaseRef) := by
  rw [insert] at h
  split at h
  · cases h
  split at h
  · cases h
  rename_i hnew
  split at h
  · cases h
  cases h
  rw [rollbackInsert]
  simp only [find_put_self]
  constructor
  · intro leaseRef
    rw [find_del, find_put]
    split
    · rename_i heq
      rw [heq]
      exact Option.not_isSome_iff_eq_none.mp hnew
    · rfl
  · intro lockPath
    rw [find_foldl_decrementRef (List.nodup_dedup _),
      find_foldl_incrementRef (List.nodup_dedup _)]
    split
    · cases hfind : registry.lockRefs.find lockPath with
      | none => simp
      | some count =>
        have hpos := registry.counted lockPath count hfind
        simp [hpos]
    · rfl

end OwnerRegistry

/-- The state of an owner; `slot` tells two states of one owner apart. -/
structure OwnerState where
  slot : Nat
  ownerId : Str
deriving DecidableEq

structure LeaseIndex where
  byLease : Assoc Str OwnerState
  byOwner : Assoc Str OwnerState

namespace LeaseIndex

def publish (index : LeaseIndex) (leaseRef : Str) (owner : OwnerState) :
    Except PathLockError LeaseIndex :=
  if (index.byLease.find leaseRef).isSome then
    .error
      (.internal "duplicate pathlock lease ref".toList)
  else if (index.byOwner.find owner.ownerId).any fun other =>
      other.slot != owner.slot then
    .error
      (.internal "duplicate pathlock owner state".toList)
  else .ok
    { byLease := index.byLease.put leaseRef owner
      byOwner := index.byOwner.put owner.ownerId owner }

end LeaseIndex

/-!
# Acquiring among others

A call acquires a batch while other owners create, refresh and remove tokens.
What happens around it is a script: before every operation others make their
moves and time passes, and the operation may fail, or answer that it did
nothing, without an effect.  The others leave the tokens of the owner alone,
except that they may refresh them.
-/

/-- What goes wrong with an operation that does nothing. -/
inductive Fault where
  | busy (operation : Str)
  | failed (message : Str)
  | invalidToken (message : Str)
deriving DecidableEq

def Fault.error (lockPath : Str) : Fault -> PathLockError
  | busy operation => .busy lockPath operation
  | failed message => .io message
  | invalidToken message => .invalidToken message

def Fault.text : Fault -> Str
  | busy operation => operation
  | failed message => message
  | invalidToken message => message

inductive Move where
  | hold (lockPath : Str) (token : LockToken)
  | drop (lockPath : Str)
  | refresh (lockPath : Str) (timeNs : Nat)
deriving DecidableEq

/-- One operation: what is done before it, and how it goes. -/
structure Event where
  moves : List Move
  elapsedNs : Nat
  fault : Option Fault
  miss : Bool
  answer : Bool
  text : Str
deriving DecidableEq

def Event.quiet : Event where
  moves := []
  elapsedNs := 0
  fault := none
  miss := false
  answer := true
  text := []

/-- A token that the call removed: what was there before the moves of that
step, what it took, and when. -/
structure Removal where
  found : Option LockToken
  taken : LockToken
  nowNs : Nat
deriving DecidableEq

structure World where
  tokens : TokenTable
  clock : Nat
  registries : Assoc Nat OwnerRegistry
  index : LeaseIndex
  script : List Event
  removals : List Removal
  /-- The tokens that a compare-and-write expected and did not replace. -/
  refusals : List LockToken

def own (owner : Str) (tokens : TokenTable) (lockPath : Str) :
    Option LockToken :=
  (tokens.find lockPath).filter fun token => token.ownerId = owner

def Move.apply (owner : Str) (tokens : TokenTable) : Move -> TokenTable
  | hold lockPath token =>
    if token.ownerId = owner ∨ (own owner tokens lockPath).isSome then tokens
    else tokens.put lockPath token
  | drop lockPath =>
    if (own owner tokens lockPath).isSome then tokens
    else tokens.del lockPath
  | refresh lockPath timeNs =>
    match own owner tokens lockPath with
    | some token => tokens.put lockPath { token with timeNs := timeNs }
    | none => tokens

namespace World

/-- The world when the next operation takes place. -/
def next (owner : Str) (w : World) : Event × World :=
  match w.script with
  | [] => (Event.quiet, w)
  | event :: rest =>
    (event,
      { w with
        tokens := event.moves.foldl (Move.apply owner) w.tokens
        clock := w.clock + event.elapsedNs
        script := rest })

def operate {α : Type} (owner lockPath : Str)
    (act : Event -> World -> α × World) : Attempt PathLockError World α :=
  fun w =>
    match (w.next owner).1.fault with
    | some fault => (.error (fault.error lockPath), (w.next owner).2)
    | none =>
      (.ok (act (w.next owner).1 (w.next owner).2).1,
        (act (w.next owner).1 (w.next owner).2).2)

def readToken (owner lockPath : Str) :
    Attempt PathLockError World (Option LockToken) :=
  operate owner lockPath fun _ w => (w.tokens.find lockPath, w)

def tryCreateToken (owner lockPath : Str) (token : LockToken) :
    Attempt PathLockError World Unit := do
  match ← operate owner lockPath fun _ w =>
      ((TokenTable.tryCreate lockPath token w.tokens).1,
        { w with tokens := (TokenTable.tryCreate lockPath token w.tokens).2 })
    with
  | .ok () => return ()
  | .error e => fail e

def compareAndWriteToken (owner lockPath : Str)
    (expected replacement : LockToken) : Attempt PathLockError World Bool :=
  operate owner lockPath fun event w =>
    if w.tokens.find lockPath = some expected ∧ event.miss = false then
      (true, { w with tokens := w.tokens.put lockPath replacement })
    else (false, { w with refusals := expected :: w.refusals })

def removeToken (owner lockPath other : Str) :
    Attempt PathLockError World Bool :=
  fun before =>
    operate owner lockPath (fun event w =>
      match w.tokens.find lockPath with
      | some held =>
        if held.ownerId = other ∧ event.miss = false then
          (true,
            { w with
              tokens := w.tokens.del lockPath
              removals :=
                { found := before.tokens.find lockPath, taken := held
                  nowNs := w.clock } :: w.removals })
        else (false, w)
      | none => (false, w)) before

def scanDescendantLocks (owner root : Str) :
    Attempt PathLockError World (List Str) :=
  operate owner root fun _ w => (w.tokens.scanDescendants root, w)

/-- An operation of the file system, whose answer is in the script. -/
def askFs {α : Type} (owner : Str) (answer : Event -> α) :
    Attempt Str World α :=
  fun w =>
    match (w.next owner).1.fault with
    | some fault => (.error fault.text, (w.next owner).2)
    | none => (.ok (answer (w.next owner).1), (w.next owner).2)

def provider (owner : Str) : Provider World where
  readToken := readToken owner
  tryCreateToken := tryCreateToken owner
  compareAndWriteToken := compareAndWriteToken owner
  removeToken := removeToken owner
  scanDescendantLocks := scanDescendantLocks owner
  statIsDir := fun _ => askFs owner fun event => event.answer
  mkdir := fun _ => askFs owner fun _ => ()
  nowNs := fun w => (w.clock, w)

def registryOf (w : World) (slot : Nat) : OwnerRegistry :=
  (w.registries.find slot).getD OwnerRegistry.empty

def setRegistry (slot : Nat) (registry : OwnerRegistry) (w : World) : World :=
  { w with registries := w.registries.put slot registry }

end World

/-!
# The call
-/

section Call

variable {α : Type}

/-- Wait, for whatever the script says. -/
def pass (owner : Str) : Attempt PathLockError World Event :=
  sure (World.next owner)

def clockNow : Attempt PathLockError World Nat :=
  sure fun w => (w.clock, w)

/-- The deadline of a call: when it started and how long it may wait. -/
structure Deadline where
  start : Nat
  timeout : Nat

variable (deadline : Deadline)

def Deadline.error (now : Nat) : PathLockError :=
  .timeout ((now - deadline.start) / 1000000)

def Deadline.isOver (now : Nat) : Bool :=
  decide (deadline.timeout ≤ now - deadline.start)

/-- Fail when the time is over. -/
def checkDeadline : Attempt PathLockError World Unit := do
  let now ← clockNow
  if deadline.isOver now then fail (deadline.error now)

/-- Lock the registry of the owner; was it free at once? -/
def lockOwner (owner : Str) (deadline : Deadline) :
    Attempt PathLockError World Bool := do
  let event ← pass owner
  if event.answer then
    return true
  checkDeadline deadline
  let waited ← pass owner
  if waited.answer then
    return false
  let now ← clockNow
  fail (deadline.error now)

/-- Remove the token that stood against an attempt, when it is stale. -/
def removeStale (config : Config) (owner : Str) (deadline : Deadline) :
    PathLockError -> Attempt PathLockError World Unit
  | .conflict lockPath _ _ => do
      match ← (World.provider owner).readToken lockPath with
      | some token =>
        let now ← clockNow
        if isStale config token now then
          checkDeadline deadline
          let _ ← (World.provider owner).removeToken lockPath token.ownerId
          return ()
        else return ()
      | none => return ()
  | _ => return ()

/-- Take the tokens back when the lease cannot be registered. -/
def failCommit (owner : Str) (acquired : Acquired) (e : PathLockError) :
    Attempt PathLockError World α := do
  match ← outcome
      (rollbackAcquisitions (World.provider owner) owner acquired) with
  | .ok () => fail e
  | .error rollback => fail (rollbackError e rollback)

variable (owner : OwnerState)

/-- Put the registered lease in the index. -/
def publishLease (acquired : Acquired)
    (owned : OwnedPathLockLease) (inserted : OwnerRegistry) :
    Attempt PathLockError World OwnedPathLockLease := do
  modify (World.setRegistry owner.slot inserted)
  let index ← sure fun w => (w.index, w)
  match index.publish owned.lease.leaseRef owner with
  | .error e =>
    modify (World.setRegistry owner.slot
      (inserted.rollbackInsert owned.lease.leaseRef))
    failCommit owner.ownerId acquired e
  | .ok published =>
    modify fun w => { w with index := published }
    return owned

def registerLease (acquired : Acquired)
    (owned : OwnedPathLockLease) (kinds : List PathLockKind) :
    Attempt PathLockError World OwnedPathLockLease := do
  let registry ← sure fun w => (World.registryOf w owner.slot, w)
  match registry.insert owner.ownerId owned.lease owned.ownershipRef kinds with
  | .error e => failCommit owner.ownerId acquired e
  | .ok inserted => publishLease owner acquired owned inserted

/-- The lease of a batch, under two new names. -/
def commit (requests : List PathLockRequest)
    (acquired : Acquired) :
    Attempt PathLockError World OwnedPathLockLease := do
  let leaseRef := (← pass owner.ownerId).text
  let ownershipRef := (← pass owner.ownerId).text
  let lease : PathLockLease :=
    { leaseRef := leaseRef, ownerId := owner.ownerId
      lockPaths := acquired.map Prod.fst, coveredPaths := requests }
  registerLease owner acquired
    { lease := lease, ownershipRef := ownershipRef }
    (requests.map PathLockRequest.kind)

def capabilityError (leaseRef : Str) : PathLockError :=
  .invalidRequest
    ("owned lease capability does not match ref '".toList ++ leaseRef ++
      "'".toList)

/-- Does the lease still belong to the caller? -/
def checkCapability :
    Option (Str × Str) -> Attempt PathLockError World Unit
  | some (leaseRef, ownershipRef) => do
      let registry ← sure fun w => (World.registryOf w owner.slot, w)
      if registry.capabilityMatches leaseRef ownershipRef then return ()
      else fail (capabilityError leaseRef)
  | none => return ()

/-- Only a first attempt that did not wait may come after the deadline. -/
def checkTurn (atOnce : Bool) :
    Attempt PathLockError World Unit :=
  if atOnce then return () else checkDeadline deadline

/-- After a failed attempt: give up, or wait for the next one. -/
def waitForRetry (config : Config) (owner : Str) (deadline : Deadline)
    (e : PathLockError) (preConflict : Bool) :
    Attempt PathLockError World Unit := do
  if e.isRetryable then
    checkDeadline deadline
    if preConflict then
      removeStale config owner deadline e
    let _ ← pass owner
  else fail e

/-- The attempts of a call.  `none` is a call that is still trying. -/
def acquireLoop (config : Config) (owner : OwnerState)
    (capability : Option (Str × Str)) (deadline : Deadline)
    (requests : List PathLockRequest) :
    Nat -> Bool -> Attempt PathLockError World (Option OwnedPathLockLease)
  | 0, _ => return none
  | fuel + 1, firstAttempt => do
      let lockedImmediately ← lockOwner owner.ownerId deadline
      checkTurn deadline (firstAttempt && lockedImmediately)
      checkCapability owner capability
      match ← outcome (tryAcquireBatchOnce
          (World.provider owner.ownerId) config requests owner.ownerId) with
      | .ok acquired => return some (← commit owner requests acquired)
      | .error (e, preConflict) =>
        waitForRetry config owner.ownerId deadline e preConflict
        acquireLoop config owner capability deadline requests fuel false

/-- The state of the owner a call acts for; without a lease it is a new one. -/
def resolveOwnerState (index : LeaseIndex) (newOwner : OwnerState) :
    Option (Str × Str) -> Except PathLockError OwnerState
  | some (leaseRef, _) =>
    match index.byLease.find leaseRef with
    | some owner => .ok owner
    | none => .error (capabilityError leaseRef)
  | none => .ok newOwner

def acquireBatch (config : Config) (requests : List PathLockRequest)
    (timeout : Nat) (capability : Option (Str × Str)) (newOwner : OwnerState)
    (fuel : Nat) :
    Attempt PathLockError World (Option OwnedPathLockLease) := do
  if requests = [] then
    fail (.invalidRequest
      "lock request batch must not be empty".toList)
  else
    let index ← sure fun w => (w.index, w)
    match resolveOwnerState index newOwner capability with
    | .error e => fail e
    | .ok owner =>
      let start ← clockNow
      acquireLoop config owner capability
        { start := start, timeout := timeout } (normalizeRequests requests)
        fuel true

end Call

end Lock
end OpenViking
