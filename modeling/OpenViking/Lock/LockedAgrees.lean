import OpenViking.Lock.IsLocked

/-!
# When is_locked agrees with acquire

A request is checked under the normal form of its path, and `is_locked` reads
the path as it is written.  Both read the lock file in the directory and the
tree tokens above it.  They differ in the name of the lock file beside the
path, which has a hash of the path, and `is_locked` also reads the directory
under every spelling with fewer slashes at the end.
-/

namespace OpenViking
namespace Lock

open Paths Attempt List

variable {W : Type} {S : Set W} {provider : Provider W}
variable {read : Str -> Except PathLockError (Option LockToken)}
variable {isDir : Str -> Except Str Bool} {now : Nat}

/-!
# What the calls give at one instant
-/

theorem Steady.checkEach (hsteady : Steady provider S read isDir now)
    (counts : LockToken -> Bool) (lockPaths : List Str) :
    Attempt.Gives S (checkEach provider counts lockPaths)
      (firstStop read (lockPaths.map fun key => (key, counts))) := by
  induction lockPaths with
  | nil => exact gives_pure ()
  | cons key rest ih =>
    have hkey := hsteady.readToken key
    rw [Lock.checkEach, map_cons, firstStop]
    cases hread : read key with
    | error e =>
      rw [hread] at hkey
      exact hkey.bind_error
    | ok found =>
      rw [hread] at hkey
      refine hkey.bind_ok ?_
      cases found with
      | none => exact ih
      | some token =>
        simp only
        split
        · exact gives_fail _
        · exact ih

/-- The tokens of a lock file that count, as a test. -/
def found (read : Str -> Except PathLockError (Option LockToken))
    (counts : LockToken -> Bool) (key : Str) : Bool :=
  match read key with
  | .ok (some token) => counts token
  | _ => false

theorem found_iff (counts : LockToken -> Bool) (key : Str) :
    found read counts key = true <-> Found read (key, counts) := by
  rw [found, Found]
  constructor
  · intro h
    split at h
    · rename_i token hread
      exact ⟨token, hread, h⟩
    · cases h
  · intro h
    rcases h with ⟨token, hread, hcounts⟩
    simp only at hread
    rw [hread]
    exact hcounts

theorem Steady.anyToken (hsteady : Steady provider S read isDir now)
    (counts : LockToken -> Bool) (lockPaths : List Str) :
    Attempt.Gives S (anyToken provider counts lockPaths)
      (.ok (lockPaths.any (found read counts))) := by
  induction lockPaths with
  | nil => exact gives_pure false
  | cons key rest ih =>
    have hkey := (hsteady.readToken key).outcome (ε := PathLockError)
    rw [Lock.anyToken, any_cons, found]
    refine hkey.bind_ok ?_
    cases read key with
    | error e => exact ih
    | ok stored =>
      cases stored with
      | none => exact ih
      | some token =>
        simp only
        cases counts token with
        | true => exact gives_pure true
        | false => exact ih

def answersDir : Except Str Bool -> Bool
  | .ok true => true
  | _ => false

theorem Steady.resolveExactPaths (hsteady : Steady provider S read isDir now)
    (config : Config) (path : Str) :
    Attempt.Gives S (resolveExactPaths provider config path)
      (.ok (exactPaths config path (answersDir (isDir path)))) := by
  have hstat := (hsteady.statIsDir path).outcome (ε := PathLockError)
  rw [Lock.resolveExactPaths]
  refine hstat.bind_ok ?_
  cases isDir path with
  | error e => exact gives_pure _
  | ok dir =>
    cases dir with
    | true => exact gives_pure _
    | false => exact gives_pure _

/-!
# What the two calls read
-/

variable (config : Config)

def live (now : Nat) (token : LockToken) : Bool :=
  !isStale config token now

def liveTree (now : Nat) (token : LockToken) : Bool :=
  token.lockType == .tree && live config now token

def acquireReadings
    (isDir : Str -> Except Str Bool) (now : Nat) (path : Str) : List Reading :=
  ((ancestors path).map ancestorLock).map
      (fun key => (key, liveTree config now)) ++
    (exactPaths config path (answersDir (isDir path))).conflictPaths.map
      (fun key => (key, live config now))

theorem mem_conflictPaths (path key : Str) (dir : Bool) :
    key ∈ (exactPaths config path dir).conflictPaths <->
      key = pathLockPath path ∨
        key = prefixedExactLockPath config.hashPrefix path := by
  cases dir with
  | true => simp [exactPaths]
  | false =>
    by_cases h : prefixedExactLockPath config.hashPrefix path = pathLockPath path
    · simp [exactPaths, h]
    · simp [exactPaths, h, or_comm]

def Fresh (read : Str -> Except PathLockError (Option LockToken))
    (owner : Str) : Prop :=
  forall (key : Str) (token : LockToken),
    read key = .ok (some token) -> token.ownerId ≠ owner

variable {owner : Str}

theorem Fresh.standsAgainst (hfresh : Fresh read owner)
    (config : Config) (now : Nat) {key : Str} {token : LockToken} (h : read key = .ok (some token)) :
    standsAgainst config owner now token = live config now token := by
  have hne : (token.ownerId != owner) = true := bne_iff_ne.mpr (hfresh key token h)
  rw [Lock.standsAgainst, live, hne, Bool.true_and]

section

variable (hsteady : Steady provider S read isDir now)

include hsteady

theorem Steady.checkAncestorTreeLocks (config : Config) (hfresh : Fresh read owner)
    (path : Str) :
    Attempt.Gives S (checkAncestorTreeLocks provider config path owner)
      (firstStop read (((ancestors path).map ancestorLock).map
        fun key => (key, liveTree config now))) := by
  have hsame : firstStop read (((ancestors path).map ancestorLock).map
        fun key => (key, liveTree config now)) =
      firstStop read (((ancestors path).map ancestorLock).map
        fun key => (key, fun token => token.lockType == .tree &&
          Lock.standsAgainst config owner now token)) := by
    apply firstStop_congr
    intro key token hread
    rw [liveTree, hfresh.standsAgainst config now hread]
  rw [hsame]
  exact (gives_sure hsteady.nowNs).bind_ok (hsteady.checkEach _ _)

theorem Steady.checkLockPaths
    (config : Config) (hfresh : Fresh read owner) (lockPaths : List Str) :
    Attempt.Gives S (checkLockPaths provider config lockPaths owner)
      (firstStop read (lockPaths.map fun key => (key, live config now))) := by
  have hsame : firstStop read (lockPaths.map fun key => (key, live config now)) =
      firstStop read (lockPaths.map fun key =>
        (key, Lock.standsAgainst config owner now)) := by
    apply firstStop_congr
    intro key token hread
    exact (hfresh.standsAgainst config now hread).symm
  rw [hsame]
  exact (gives_sure hsteady.nowNs).bind_ok (hsteady.checkEach _ _)

theorem Steady.checkExact
    (config : Config) (hfresh : Fresh read owner) (path : Str) :
    Attempt.Gives S (checkExact provider config path owner)
      (match firstStop read (acquireReadings config isDir now path) with
        | .ok _ =>
          .ok (exactPaths config path (answersDir (isDir path)))
        | .error e => .error e) := by
  have hancestors := hsteady.checkAncestorTreeLocks config hfresh path
  have hresolved := hsteady.resolveExactPaths config path
  have hpaths := hsteady.checkLockPaths config hfresh
    (exactPaths config path (answersDir (isDir path))).conflictPaths
  rw [acquireReadings, firstStop_append, Lock.checkExact]
  cases hfirst : firstStop read (((ancestors path).map ancestorLock).map
      fun key => (key, liveTree config now)) with
  | error e =>
    rw [hfirst] at hancestors
    exact hancestors.bind_error
  | ok _ =>
    rw [hfirst] at hancestors
    refine hancestors.bind_ok (hresolved.bind_ok ?_)
    simp only
    cases hsecond : firstStop read
        ((exactPaths config path (answersDir (isDir path))).conflictPaths.map
          fun key => (key, live config now)) with
    | error e =>
      rw [hsecond] at hpaths
      exact hpaths.bind_error
    | ok _ =>
      rw [hsecond] at hpaths
      exact hpaths.bind_ok (gives_pure _)

theorem Steady.checkAcquireExact
    (config : Config) (hfresh : Fresh read owner) (path : Str) :
    Attempt.Gives S (checkAcquireExact provider config path owner)
      (firstStop read
        (acquireReadings config isDir now (normalizePath path))) := by
  have hexact := hsteady.checkExact config hfresh (normalizePath path)
  rw [Lock.checkAcquireExact, normalizeRequests_singleton, checkRequests]
  cases hstop : firstStop read
      (acquireReadings config isDir now (normalizePath path)) with
  | error e =>
    rw [hstop] at hexact
    exact hexact.bind_error
  | ok _ =>
    rw [hstop] at hexact
    exact hexact.bind_ok (gives_pure ())

end

/-- What `is_locked` finds at one instant. -/
def lockedNow (read : Str -> Except PathLockError (Option LockToken))
    (isDir : Str -> Except Str Bool) (now : Nat) (config : Config)
    (path : Str) : Bool :=
  [pathLockPath path].any (found read (live config now)) ||
    ((exactPaths config path (answersDir (isDir path))).conflictPaths.any
        (found read (live config now)) ||
      ((ancestors path).map ancestorLock).any
        (found read (liveTree config now)))

theorem Steady.isLocked (hsteady : Steady provider S read isDir now)
    (config : Config) (path : Str) :
    Attempt.Gives S (isLocked provider config path true)
      (.ok (lockedNow read isDir now config path)) := by
  have hown := hsteady.anyToken (live config now) [pathLockPath path]
  have hresolved := hsteady.resolveExactPaths config path
  have hpaths := hsteady.anyToken (live config now)
    (exactPaths config path (answersDir (isDir path))).conflictPaths
  have htrees := hsteady.anyToken (liveTree config now)
    ((ancestors path).map ancestorLock)
  refine (gives_sure hsteady.nowNs).bind_ok (hown.bind_ok ?_)
  rw [lockedNow]
  cases [pathLockPath path].any (found read (live config now)) with
  | true => exact gives_pure true
  | false =>
    refine hresolved.bind_ok (hpaths.bind_ok ?_)
    cases (exactPaths config path (answersDir (isDir path))).conflictPaths.any
          (found read (live config now)) with
    | true => exact gives_pure true
    | false => exact htrees

theorem lockedNow_iff (path : Str) : lockedNow read isDir now config path = true <->
      Found read (pathLockPath path, live config now) ∨
      Found read (prefixedExactLockPath config.hashPrefix path,
        live config now) ∨
      exists parent, parent ∈ ancestors path ∧
        Found read (ancestorLock parent, liveTree config now) := by
  have hpaths :
      ((exactPaths config path (answersDir (isDir path))).conflictPaths.any
        (found read (live config now)) = true <->
      Found read (pathLockPath path, live config now) ∨
        Found read (prefixedExactLockPath config.hashPrefix path,
          live config now)) := by
    rw [any_eq_true]
    simp only [mem_conflictPaths, found_iff, or_and_right, exists_or,
      exists_eq_left]
  have htrees : (((ancestors path).map ancestorLock).any
        (found read (liveTree config now)) = true <->
      exists parent, parent ∈ ancestors path ∧
        Found read (ancestorLock parent, liveTree config now)) := by
    rw [any_eq_true]
    simp only [mem_map, found_iff, exists_exists_and_eq_and]
  rw [lockedNow, Bool.or_eq_true, Bool.or_eq_true, hpaths, htrees,
    any_cons, any_nil, Bool.or_false, found_iff, or_assoc,
    <- or_assoc, or_self]

theorem exists_acquireReading_iff (path : Str) :
    (exists r, r ∈ acquireReadings config isDir now path ∧ Found read r) <->
      Found read (pathLockPath path, live config now) ∨
      Found read (prefixedExactLockPath config.hashPrefix path,
        live config now) ∨
      exists parent, parent ∈ ancestors path ∧
        Found read (ancestorLock parent, liveTree config now) := by
  simp only [acquireReadings, mem_append, mem_map, or_and_right,
    exists_or, mem_conflictPaths, exists_exists_and_eq_and, exists_eq_left,
    exists_eq_left']
  rw [or_comm, or_assoc]

/-!
# The spelling of a path
-/

theorem pathLockPath_normalizePath (path : Str) :
    pathLockPath (normalizePath path) = pathLockPath path := by
  rw [pathLockPath, pathLockPath, trimSlashes_normalizePath]

theorem ancestorLock_normalizePath (path : Str) :
    ancestorLock (normalizePath path) = pathLockPath path := by
  rw [ancestorLock, pathLockPath, normalizePath]
  split
  · rename_i hnil
    rw [if_pos rfl, hnil, nil_append]
  rename_i hne
  have hroot : trimSlashes path ≠ ['/'] := by
    intro hroot
    have hidem : trimSlashes (trimSlashes path) = trimSlashes path :=
      rdropWhile_idempotent _ _
    rw [hroot] at hidem
    exact absurd hidem (by decide)
  rw [if_neg hroot]

theorem ancestorLock_slashes (path : Str) {i : Nat} (hi : 0 < i) :
    ancestorLock (normalizePath path ++ replicate i '/') =
      normalizePath path ++ replicate i '/' ++ '/' :: pathLockFile := by
  have hroot : normalizePath path ++ replicate i '/' ≠ ['/'] := by
    intro heq
    have hlen := congrArg length heq
    have hpos := length_pos_iff.mpr (normalizePath_ne_nil path)
    rw [length_append, length_replicate, length_singleton] at hlen
    omega
  rw [ancestorLock, if_neg hroot]

/-- With slashes at its end, a path is also looked for under the spellings
with fewer of them. -/
theorem exists_ancestor_iff {path : Str} (habs : path.head? = some '/')
    (holds : Str -> Prop) :
    (exists parent, parent ∈ ancestors path ∧ holds (ancestorLock parent)) <->
      (exists parent, parent ∈ ancestors (normalizePath path) ∧
        holds (ancestorLock parent)) ∨
      (normalizePath path ≠ path ∧ holds (pathLockPath path)) ∨
      exists i, 0 < i ∧ (normalizePath path).length + i < path.length ∧
        holds (normalizePath path ++ replicate i '/' ++
          '/' :: pathLockFile) := by
  obtain ⟨k, hk⟩ := exists_slashes habs
  have hlen : path.length = (normalizePath path).length + k := by
    rw [congrArg length hk, length_append, length_replicate]
  have hne : normalizePath path ≠ path <-> 0 < k := by
    constructor
    · intro hne
      cases k with
      | zero => exact absurd (hk.trans (append_nil _)).symm hne
      | succ n => exact Nat.succ_pos n
    · intro hpos heq
      rw [<- congrArg length heq] at hlen
      omega
  have hmem : forall parent : Str, parent ∈ ancestors path <->
      (exists i, i < k ∧ normalizePath path ++ replicate i '/' = parent) ∨
      parent ∈ ancestors (normalizePath path) := by
    intro parent
    rw [congrArg ancestors hk,
      ancestors_append_slashes (normalizePath_ne_nil path), mem_append,
      mem_map]
    simp only [mem_reverse, mem_range]
  rw [hne]
  constructor
  · intro h
    rcases h with ⟨parent, hparent, hholds⟩
    rcases (hmem parent).mp hparent with hslashes | habove
    · rcases hslashes with ⟨i, hi, rfl⟩
      cases i with
      | zero =>
        rw [replicate_zero, append_nil,
          ancestorLock_normalizePath] at hholds
        exact .inr (.inl ⟨hi, hholds⟩)
      | succ n =>
        rw [ancestorLock_slashes path (Nat.succ_pos n)] at hholds
        exact .inr (.inr ⟨n + 1, Nat.succ_pos n, by omega, hholds⟩)
    · exact .inl ⟨parent, habove, hholds⟩
  · intro h
    rcases h with habove | hown | hslashes
    · rcases habove with ⟨parent, hparent, hholds⟩
      exact ⟨parent, (hmem parent).mpr (.inr hparent), hholds⟩
    · refine ⟨normalizePath path, (hmem _).mpr (.inl ⟨0, hown.left, ?_⟩), ?_⟩
      · exact append_nil _
      · rw [ancestorLock_normalizePath]
        exact hown.right
    · rcases hslashes with ⟨i, hpos, hi, hholds⟩
      refine ⟨_, (hmem _).mpr (.inl ⟨i, by omega, rfl⟩), ?_⟩
      rw [ancestorLock_slashes path hpos]
      exact hholds

/-!
# The agreement
-/

/-- The exact request of an owner would meet a token of another one. -/
def FindsConflict (provider : Provider W) (config : Config)
    (path owner : Str) (w : W) : Prop :=
  exists (lockPath other : Str) (kind : PathLockKind),
    (checkAcquireExact provider config path owner w).1 =
      .error (.conflict lockPath other kind)

/-- A live token in the directory, or a live tree token above it. -/
def HeldEitherWay (read : Str -> Except PathLockError (Option LockToken))
    (now : Nat) (config : Config) (path : Str) : Prop :=
  Found read (pathLockPath path, live config now) ∨
    exists parent, parent ∈ ancestors (normalizePath path) ∧
      Found read (ancestorLock parent, liveTree config now)

/-- A live token that is looked for under the path as it is written: beside it,
or a tree token under a spelling with fewer slashes. -/
def HeldAsWritten (read : Str -> Except PathLockError (Option LockToken))
    (now : Nat) (config : Config) (path : Str) : Prop :=
  Found read
      (prefixedExactLockPath config.hashPrefix path, live config now) ∨
    exists i, 0 < i ∧ (normalizePath path).length + i < path.length ∧
      Found read (normalizePath path ++ List.replicate i '/' ++
        '/' :: pathLockFile, liveTree config now)

def HeldBeside (read : Str -> Except PathLockError (Option LockToken))
    (now : Nat) (config : Config) (path : Str) : Prop :=
  Found read (prefixedExactLockPath config.hashPrefix (normalizePath path),
    live config now)

theorem lockedNow_iff_held {path : Str} (habs : path.head? = some '/') :
    lockedNow read isDir now config path = true <->
      HeldEitherWay read now config path ∨
        HeldAsWritten read now config path := by
  have hspelled := exists_ancestor_iff habs
    (fun key => Found read (key, liveTree config now))
  have htree : Found read (pathLockPath path, liveTree config now) ->
      Found read (pathLockPath path, live config now) := by
    intro h
    rcases h with ⟨token, hread, hcounts⟩
    have hboth := (Bool.and_eq_true _ _).mp hcounts
    exact ⟨token, hread, hboth.right⟩
  rw [lockedNow_iff, hspelled, HeldEitherWay, HeldAsWritten]
  constructor
  · intro h
    rcases h with hown | hbeside | habove | hown | hslashes
    · exact .inl (.inl hown)
    · exact .inr (.inl hbeside)
    · exact .inl (.inr habove)
    · exact .inl (.inl (htree hown.right))
    · exact .inr (.inr hslashes)
  · intro h
    rcases h with (hown | habove) | (hbeside | hslashes)
    · exact .inl hown
    · exact .inr (.inr (.inl habove))
    · exact .inr (.inl hbeside)
    · exact .inr (.inr (.inr (.inr hslashes)))

theorem findsConflict_iff_held (hsteady : Steady provider S read isDir now)
    (config : Config) (hfresh : Fresh read owner) (path : Str)
    {w : W} (hw : w ∈ S) :
    FindsConflict provider config path owner w <->
      (HeldEitherWay read now config path ∨
        HeldBeside read now config path) ∧
      ¬ StopsUnread read
        (acquireReadings config isDir now (normalizePath path)) := by
  rw [FindsConflict,
    (hsteady.checkAcquireExact config hfresh path w hw).left,
    firstStop_conflict_iff read hsteady.noConflict,
    exists_acquireReading_iff, pathLockPath_normalizePath, HeldEitherWay,
    HeldBeside]
  refine and_congr_left fun _ => ?_
  rw [or_assoc]
  exact or_congr_right or_comm

theorem not_stopsUnread
    (hread : forall key : Str, exists held, read key = .ok held)
    (readings : List Reading) : ¬ StopsUnread read readings := by
  induction readings with
  | nil => exact id
  | cons r rest ih =>
    intro hstop
    rcases hstop with hun | hlater
    · rcases hun with ⟨e, he⟩
      rcases hread r.1 with ⟨held, hheld⟩
      rw [he] at hheld
      cases hheld
    · exact ih hlater.right

theorem heldAsWritten_iff_of_normal {path : Str}
    (hnormal : normalizePath path = path) :
    HeldAsWritten read now config path <-> HeldBeside read now config path := by
  rw [HeldAsWritten, HeldBeside, hnormal]
  constructor
  · intro h
    rcases h with hbeside | hslashes
    · exact hbeside
    · rcases hslashes with ⟨i, hpos, hi, _⟩
      omega
  · exact .inl

private theorem agree_iff {a b c u : Prop} :
    ((a ∨ b <-> (a ∨ c) ∧ ¬ u) <->
      (u -> ¬ a ∧ ¬ b) ∧ (¬ u -> a ∨ (b <-> c))) := by
  by_cases hu : u
  · simp [hu]
  · by_cases ha : a
    · simp [hu, ha]
    · simp [hu, ha]

/-- `is_locked` agrees with an exact request of a fresh owner exactly when what
each looks for alone makes no difference. -/
theorem is_locked_agrees_iff (hsteady : Steady provider S read isDir now)
    (config : Config) {owner : Str} (hfresh : Fresh read owner) {path : Str}
    (habs : path.head? = some '/') {w : W} (hw : w ∈ S) :
    ((isLocked provider config path true w).1 = .ok true <->
        FindsConflict provider config path owner w) <->
      (StopsUnread read
          (acquireReadings config isDir now (normalizePath path)) ->
        ¬ HeldEitherWay read now config path ∧
          ¬ HeldAsWritten read now config path) ∧
      (¬ StopsUnread read
          (acquireReadings config isDir now (normalizePath path)) ->
        HeldEitherWay read now config path ∨
          (HeldAsWritten read now config path <->
            HeldBeside read now config path)) := by
  have hlocked : (isLocked provider config path true w).1 = .ok true <->
      HeldEitherWay read now config path ∨
        HeldAsWritten read now config path := by
    rw [(hsteady.isLocked config path w hw).left, Except.ok.injEq]
    exact lockedNow_iff_held config habs
  rw [hlocked, findsConflict_iff_held hsteady config hfresh path hw]
  exact agree_iff

theorem memoryProvider_steady (isDir : Str -> Except Str Bool)
    (mkdir : Str -> Except Str Unit) (now : Nat) (tokens : TokenTable) :
    Steady (memoryProvider isDir mkdir now) {tokens}
      (fun key => .ok (tokens.find key)) isDir now where
  readToken := by
    intro key w hw
    cases hw
    exact ⟨rfl, rfl⟩
  statIsDir := fun _ _ hw => ⟨rfl, hw⟩
  nowNs := fun _ hw => ⟨rfl, hw⟩
  noConflict := nofun

/-- What SHA-1 gives for `/a` and `/a/`. -/
def sampleHash (path : Str) : Str :=
  if path = "/a/".toList then "75cd27c7dbc8cdb9".toList
  else "2256c6ac80d3eb26".toList

def sampleConfig : Config where
  expireNs := 300000000000
  hashPrefix := sampleHash

/-- An exact lock of the path `/a`, which does not exist. -/
def sampleTable : TokenTable :=
  Assoc.ofList [("//.exact.ovlock.a.2256c6ac80d3eb26".toList,
    { ownerId := "holder".toList, timeNs := 7, lockType := .exact })]

def sampleProvider : Provider TokenTable :=
  memoryProvider (fun _ => .error "not found".toList)
    (fun _ => .ok ()) 8

theorem sampleProvider_steady : Steady sampleProvider {sampleTable}
    (fun key => .ok (sampleTable.find key))
    (fun _ => .error "not found".toList) 8 :=
  memoryProvider_steady _ _ 8 sampleTable

theorem sampleTable_fresh :
    Fresh (fun key => .ok (sampleTable.find key)) "other".toList := by
  intro key token hread
  have hfind : sampleTable.find key = some token := Except.ok.inj hread
  have hmem := Assoc.mem_bindings.mpr hfind
  have hbindings : sampleTable.bindings =
      [("//.exact.ovlock.a.2256c6ac80d3eb26".toList,
        { ownerId := "holder".toList, timeNs := 7,
          lockType := .exact })] := by
    decide +kernel
  rw [hbindings, mem_singleton] at hmem
  cases hmem
  decide

/-- Without slashes at its end the lock is found. -/
theorem is_locked_agrees_sample :
    ((isLocked sampleProvider sampleConfig "/a".toList true sampleTable).1 =
        .ok true <->
      FindsConflict sampleProvider sampleConfig "/a".toList "other".toList
        sampleTable) := by
  refine (is_locked_agrees_iff sampleProvider_steady sampleConfig
    sampleTable_fresh rfl rfl).mpr ⟨fun hstop => ?_, fun _ => .inr ?_⟩
  · exact absurd hstop (not_stopsUnread (fun key => ⟨_, rfl⟩) _)
  · exact heldAsWritten_iff_of_normal sampleConfig (by decide)

/-- Nothing is found for `/a/`, and a request for it meets the lock. -/
theorem slash_hides_lock :
    (isLocked sampleProvider sampleConfig "/a/".toList true sampleTable).1 =
      .ok false ∧
    FindsConflict sampleProvider sampleConfig "/a/".toList "other".toList
      sampleTable := by
  constructor
  · decide +kernel
  · refine ⟨"//.exact.ovlock.a.2256c6ac80d3eb26".toList, "holder".toList,
      .exact, ?_⟩
    rw [checkAcquireExact, normalizeRequests_singleton]
    decide +kernel

end Lock
end OpenViking
