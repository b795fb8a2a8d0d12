import OpenViking.Lock.LockPath
import OpenViking.Common.Assoc

/-!
# The checks of a lock request

Before the manager writes a token, and again after it, it reads the tokens that
could stand against the request: tree tokens of the directories above, the
tokens of the path itself, and for a tree everything below.
-/

namespace OpenViking
namespace Lock

open Paths Attempt

variable {W : Type}

/-- What the manager asks of its provider, of the file system and of the
clock. -/
structure Provider (W : Type) where
  readToken : Str -> Attempt PathLockError W (Option LockToken)
  tryCreateToken : Str -> LockToken -> Attempt PathLockError W Unit
  compareAndWriteToken :
    Str -> LockToken -> LockToken -> Attempt PathLockError W Bool
  removeToken : Str -> Str -> Attempt PathLockError W Bool
  scanDescendantLocks : Str -> Attempt PathLockError W (List Str)
  statIsDir : Str -> Attempt Str W Bool
  mkdir : Str -> Attempt Str W Unit
  nowNs : W -> Nat × W

/-- The expiry time, and the hash that the names of lock files end with. -/
structure Config where
  expireNs : Nat
  hashPrefix : Str -> Str

def isStale (config : Config) (token : LockToken) (nowNs : Nat) : Bool :=
  decide (config.expireNs < nowNs - token.timeNs)

/-!
# Lock paths of a request
-/

structure ResolvedExactPaths where
  acquireLockPath : Str
  conflictPaths : List Str
deriving DecidableEq

/-- The paths of a request whose target is, or is not, a directory. -/
def exactPaths (config : Config) (path : Str) (isDir : Bool) :
    ResolvedExactPaths :=
  let sidecar := prefixedExactLockPath config.hashPrefix path
  let acquireLockPath := if isDir then pathLockPath path else sidecar
  { acquireLockPath := acquireLockPath
    conflictPaths :=
      if acquireLockPath = pathLockPath path then [acquireLockPath, sidecar]
      else [acquireLockPath, pathLockPath path] }

def resolveExactPaths (provider : Provider W) (config : Config) (path : Str) :
    Attempt PathLockError W ResolvedExactPaths := do
  match ← outcome (provider.statIsDir path) with
  | .ok true => return exactPaths config path true
  | _ => return exactPaths config path false

def resolveTreeLockPath (provider : Provider W) (config : Config)
    (path : Str) : Attempt PathLockError W Str := do
  match ← outcome (provider.statIsDir path) with
  | .ok false => return prefixedExactLockPath config.hashPrefix path
  | _ => return pathLockPath path

/-!
# Conflicts
-/

def conflictAt (lockPath : Str) (token : LockToken) : PathLockError :=
  .conflict lockPath token.ownerId token.lockType

/-- A live token of another owner. -/
def standsAgainst (config : Config) (owner : Str) (nowNs : Nat)
    (token : LockToken) : Bool :=
  token.ownerId != owner && !isStale config token nowNs

/-- Read the lock paths in order, up to the first token that counts. -/
def checkEach (provider : Provider W) (counts : LockToken -> Bool) :
    List Str -> Attempt PathLockError W Unit
  | [] => return ()
  | lockPath :: rest => do
      match ← provider.readToken lockPath with
      | some token =>
        if counts token then fail (conflictAt lockPath token)
        else checkEach provider counts rest
      | none => checkEach provider counts rest

def checkLockPaths (provider : Provider W) (config : Config)
    (lockPaths : List Str) (owner : Str) : Attempt PathLockError W Unit := do
  let now ← sure provider.nowNs
  checkEach provider (standsAgainst config owner now) lockPaths

/-- Only tree locks reach the paths below them. -/
def checkAncestorTreeLocks (provider : Provider W) (config : Config)
    (path owner : Str) : Attempt PathLockError W Unit := do
  let now ← sure provider.nowNs
  checkEach provider
    (fun token => token.lockType == .tree &&
      standsAgainst config owner now token)
    ((ancestors path).map ancestorLock)

def checkDescendantLocks (provider : Provider W) (config : Config)
    (path owner : Str) : Attempt PathLockError W Unit := do
  let descendants ← provider.scanDescendantLocks path
  let now ← sure provider.nowNs
  checkEach provider (standsAgainst config owner now) descendants

/-- The checks of an exact request, before and after its token is written. -/
def checkExact (provider : Provider W) (config : Config) (path owner : Str) :
    Attempt PathLockError W ResolvedExactPaths := do
  checkAncestorTreeLocks provider config path owner
  let resolved ← resolveExactPaths provider config path
  checkLockPaths provider config resolved.conflictPaths owner
  return resolved

/-!
# Is a path locked?

`is_locked` reads the tokens of a path and of the directories above it.  It is
meant to say whether an exact request for the path would meet a live token, but
it takes the path as it is written, and a request is normalized first.
-/

variable {W : Type}

/-- Does one of the lock paths hold a token that counts?  A token that cannot
be read does not. -/
def anyToken (provider : Provider W) (counts : LockToken -> Bool) :
    List Str -> Attempt PathLockError W Bool
  | [] => return false
  | lockPath :: rest => do
      match ← outcome (provider.readToken lockPath) with
      | .ok (some token) =>
        if counts token then return true else anyToken provider counts rest
      | _ => anyToken provider counts rest

def isLocked (provider : Provider W) (config : Config) (path : Str)
    (ignoreStale : Bool) : Attempt PathLockError W Bool := do
  let now ← sure provider.nowNs
  let counts := fun token : LockToken =>
    !ignoreStale || !isStale config token now
  if ← anyToken provider counts [pathLockPath path] then
    return true
  let resolved ← resolveExactPaths provider config path
  if ← anyToken provider counts resolved.conflictPaths then
    return true
  anyToken provider
    (fun token => token.lockType == .tree && counts token)
    ((ancestors path).map ancestorLock)

/-- The checks of a batch of exact requests. -/
def checkRequests (provider : Provider W) (config : Config) (owner : Str) :
    List PathLockRequest -> Attempt PathLockError W Unit
  | [] => return ()
  | request :: rest => do
      let _ ← checkExact provider config request.path owner
      checkRequests provider config owner rest

/-- The checks `acquire_exact` makes for a path. -/
def checkAcquireExact (provider : Provider W) (config : Config)
    (path owner : Str) : Attempt PathLockError W Unit :=
  checkRequests provider config owner
    (normalizeRequests [{ path := path, kind := .exact }])

/-!
# One instant

At one instant the answers of the provider do not depend on what was asked
before.
-/

structure Steady (provider : Provider W) (S : Set W)
    (read : Str -> Except PathLockError (Option LockToken))
    (isDir : Str -> Except Str Bool) (now : Nat) : Prop where
  readToken : forall lockPath : Str,
    Attempt.Gives S (provider.readToken lockPath) (read lockPath)
  statIsDir : forall path : Str,
    Attempt.Gives S (provider.statIsDir path) (isDir path)
  nowNs : forall w : W, w ∈ S ->
    (provider.nowNs w).1 = now ∧ (provider.nowNs w).2 ∈ S
  /-- Failing to read a token is not a conflict. -/
  noConflict : forall (lockPath other owner : Str) (kind : PathLockKind),
    read lockPath ≠ .error (.conflict other owner kind)

/-- A lock file and the tokens in it that count. -/
abbrev Reading : Type := Str × (LockToken -> Bool)

section Readings

variable (read : Str -> Except PathLockError (Option LockToken))

def Found (r : Reading) : Prop :=
  exists token : LockToken,
    read r.1 = .ok (some token) ∧ r.2 token = true

def Unreadable (r : Reading) : Prop :=
  exists e : PathLockError, read r.1 = .error e

/-- A lock file that cannot be read comes before all that count. -/
def StopsUnread : List Reading -> Prop
  | [] => False
  | r :: rest => Unreadable read r ∨ (¬ Found read r ∧ StopsUnread rest)

/-- What reading the lock files in order ends with. -/
def firstStop : List Reading -> Except PathLockError Unit
  | [] => .ok ()
  | r :: rest =>
    match read r.1 with
    | .error e => .error e
    | .ok none => firstStop rest
    | .ok (some token) =>
      if r.2 token then .error (conflictAt r.1 token)
      else firstStop rest

theorem firstStop_append (xs ys : List Reading) :
    firstStop read (xs ++ ys) =
      match firstStop read xs with
      | .ok () => firstStop read ys
      | .error e => .error e := by
  induction xs with
  | nil => rfl
  | cons r rest ih =>
    rw [List.cons_append, firstStop, firstStop]
    cases read r.1 with
    | error e => rfl
    | ok found =>
      cases found with
      | none => exact ih
      | some token =>
        simp only
        split
        · rfl
        · exact ih

theorem firstStop_congr {keys : List Str} {counts counts' : LockToken -> Bool}
    (h : forall (lockPath : Str) (token : LockToken),
      read lockPath = .ok (some token) -> counts token = counts' token) :
    firstStop read (keys.map fun key => (key, counts)) =
      firstStop read (keys.map fun key => (key, counts')) := by
  induction keys with
  | nil => rfl
  | cons key rest ih =>
    rw [List.map_cons, List.map_cons, firstStop, firstStop]
    cases hread : read key with
    | error e => rfl
    | ok found =>
      cases found with
      | none => exact ih
      | some token =>
        simp only
        rw [h key token hread, ih]

theorem firstStop_conflict_iff {readings : List Reading}
    (hread : forall (lockPath other owner : Str) (kind : PathLockKind),
      read lockPath ≠
        .error (.conflict other owner kind)) :
    (exists (lockPath owner : Str) (kind : PathLockKind),
        firstStop read readings =
          .error (.conflict lockPath owner kind)) <->
      (exists r, r ∈ readings ∧ Found read r) ∧ ¬ StopsUnread read readings := by
  induction readings with
  | nil => simp [firstStop]
  | cons r rest ih =>
    rw [firstStop, StopsUnread]
    cases h : read r.1 with
    | error e =>
      have hun : Unreadable read r := ⟨e, h⟩
      constructor
      · intro hstop
        rcases hstop with ⟨lockPath, owner, kind, heq⟩
        cases heq
        exact absurd h (hread _ _ _ _)
      · intro hstop
        exact absurd (Or.inl hun) hstop.right
    | ok found =>
      have hun : ¬ Unreadable read r := by
        intro hun
        rcases hun with ⟨e, he⟩
        rw [h] at he
        cases he
      cases found with
      | none =>
        have hnot : ¬ Found read r := by
          intro hfound
          rcases hfound with ⟨token, htoken, hcounts⟩
          rw [h] at htoken
          cases htoken
        simp only [List.mem_cons, exists_eq_or_imp, hun, hnot, ih,
          false_or, not_false_eq_true, true_and]
      | some token =>
        simp only
        split
        · rename_i hcounts
          have hfound : Found read r := ⟨token, h, hcounts⟩
          constructor
          · intro _
            exact ⟨⟨r, List.mem_cons_self, hfound⟩, by simp [hun, hfound]⟩
          · intro _
            exact ⟨r.1, token.ownerId, token.lockType, rfl⟩
        · rename_i hcounts
          have hnot : ¬ Found read r := by
            intro hfound
            rcases hfound with ⟨other, hother, hcount⟩
            rw [h] at hother
            cases hother
            exact hcounts hcount
          simp only [List.mem_cons, exists_eq_or_imp, hun, hnot, ih,
            false_or, not_false_eq_true, true_and]

end Readings

/-!
# The memory provider

The lock tokens of one process, in a table from lock paths to tokens.
-/

abbrev TokenTable : Type := Assoc Str LockToken

namespace TokenTable

def tryCreate (lockPath : Str) (token : LockToken) (tokens : TokenTable) :
    Except PathLockError Unit × TokenTable :=
  match tokens.find lockPath with
  | some held => (.error (conflictAt lockPath held), tokens)
  | none => (.ok (), tokens.put lockPath token)

def compareAndWrite (lockPath : Str) (expected replacement : LockToken)
    (tokens : TokenTable) : Bool × TokenTable :=
  if tokens.find lockPath = some expected then
    (true, tokens.put lockPath replacement)
  else (false, tokens)

def remove (lockPath owner : Str) (tokens : TokenTable) : Bool × TokenTable :=
  match tokens.find lockPath with
  | some held =>
    if held.ownerId = owner then (true, tokens.del lockPath)
    else (false, tokens)
  | none => (false, tokens)

def scanDescendants (root : Str) (tokens : TokenTable) : List Str :=
  let top := if root.getLast? = some '/' then root else root ++ ['/']
  (tokens.bindings.map Prod.fst).filter fun key => top.isPrefixOf key

end TokenTable

/-- The memory provider, over a file system and a clock that stand still. -/
def memoryProvider (isDir : Str -> Except Str Bool)
    (mkdir : Str -> Except Str Unit) (now : Nat) : Provider TokenTable where
  readToken := fun lockPath tokens => (.ok (tokens.find lockPath), tokens)
  tryCreateToken := TokenTable.tryCreate
  compareAndWriteToken := fun lockPath expected replacement =>
    sure (TokenTable.compareAndWrite lockPath expected replacement)
  removeToken := fun lockPath owner =>
    sure (TokenTable.remove lockPath owner)
  scanDescendantLocks := fun root tokens =>
    (.ok (tokens.scanDescendants root), tokens)
  statIsDir := fun path tokens => (isDir path, tokens)
  mkdir := fun path tokens => (mkdir path, tokens)
  nowNs := fun tokens => (now, tokens)

end Lock
end OpenViking
