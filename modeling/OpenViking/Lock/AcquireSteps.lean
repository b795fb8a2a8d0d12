import OpenViking.Lock.AcquireRun

/-!
# The tokens of one owner

What an owner holds is compared before and after a step up to the refreshes
others have made.  The changes of an attempt are undone on these tokens in the
order in which a rollback takes them back.
-/

namespace OpenViking
namespace Lock

open Paths Function Attempt World List Option

/-- The tokens an owner holds, by lock path. -/
abbrev View : Type := Str -> Option LockToken

def Alike (refreshed : Prop) (a b : Option LockToken) : Prop :=
  a.map LockToken.lockType = b.map LockToken.lockType ∧
    (¬ refreshed -> a = b)

theorem Alike.refl (refreshed : Prop) (a : Option LockToken) :
    Alike refreshed a a :=
  ⟨rfl, fun _ => rfl⟩

variable {a b : Option LockToken}

theorem Alike.trans {r s : Prop} {c : Option LockToken}
    (hab : Alike r a b) (hbc : Alike s b c) : Alike (r ∨ s) a c := by
  constructor
  · exact hab.left.trans hbc.left
  · intro h
    rw [not_or] at h
    exact (hab.right h.left).trans (hbc.right h.right)

theorem Alike.mono {r s : Prop} (hrs : r -> s) (h : Alike r a b) : Alike s a b :=
  ⟨h.left, fun hs => h.right fun hr => hs (hrs hr)⟩

theorem Alike.eq_none_iff {r : Prop} (h : Alike r a b) : a = none <-> b = none := by
  have hmap := congrArg isNone h.left
  rw [isNone_map, isNone_map] at hmap
  rw [<- isNone_iff_eq_none, <- isNone_iff_eq_none, hmap]

/-!
# Moves of others
-/

/-- The script has a refresh of the token at a lock path. -/
def Refreshed (events : List Event) (lockPath : Str) : Prop :=
  exists event, event ∈ events ∧
    exists timeNs : Nat, .refresh lockPath timeNs ∈ event.moves

theorem refreshed_append (xs ys : List Event) (lockPath : Str) :
    Refreshed (xs ++ ys) lockPath <->
      Refreshed xs lockPath ∨ Refreshed ys lockPath := by
  simp only [Refreshed, mem_append, or_and_right, exists_or]

variable {lockPath : Str}

theorem own_eq_some_iff {owner : Str} {tokens : TokenTable} {token : LockToken} :
    own owner tokens lockPath = some token <->
      tokens.find lockPath = some token ∧ token.ownerId = owner := by
  rw [own, filter_eq_some_iff]
  simp

theorem own_eq_none_iff {owner : Str} {tokens : TokenTable} :
    own owner tokens lockPath = none <->
      forall token : LockToken,
        tokens.find lockPath = some token -> token.ownerId ≠ owner := by
  rw [eq_none_iff_forall_ne_some]
  simp only [ne_eq, own_eq_some_iff, not_and]

theorem own_put (owner : Str) (tokens : TokenTable) (lockPath other : Str)
    (token : LockToken) :
    own owner (tokens.put lockPath token) other =
      if other = lockPath then
        (if token.ownerId = owner then some token else none)
      else own owner tokens other := by
  rw [own, Assoc.find_put]
  split
  · simp [filter_some]
  · rfl

theorem own_del (owner : Str) (tokens : TokenTable) (lockPath other : Str) :
    own owner (tokens.del lockPath) other =
      if other = lockPath then none else own owner tokens other := by
  rw [own, Assoc.find_del]
  split
  · rfl
  · rfl

theorem Move.alike (owner : Str) (tokens : TokenTable) (move : Move)
    (lockPath : Str) :
    Alike (exists timeNs : Nat, move = Move.refresh lockPath timeNs)
      (own owner (move.apply owner tokens) lockPath)
      (own owner tokens lockPath) := by
  cases move with
  | hold other token =>
    rw [Move.apply]
    split
    · exact Alike.refl _ _
    rename_i h
    rw [not_or, Bool.not_eq_true, isSome_eq_false_iff,
      isNone_iff_eq_none] at h
    rw [own_put]
    split
    · rename_i heq
      rw [if_neg h.left, heq, h.right]
      exact Alike.refl _ _
    · exact Alike.refl _ _
  | drop other =>
    rw [Move.apply]
    split
    · exact Alike.refl _ _
    rename_i h
    rw [Bool.not_eq_true, isSome_eq_false_iff,
      isNone_iff_eq_none] at h
    rw [own_del]
    split
    · rename_i heq
      rw [heq, h]
      exact Alike.refl _ _
    · exact Alike.refl _ _
  | refresh other timeNs =>
    rw [Move.apply]
    split
    · rename_i token htoken
      have howner := (own_eq_some_iff.mp htoken).right
      rw [own_put, if_pos howner]
      split
      · rename_i heq
        subst heq
        rw [htoken]
        exact ⟨rfl, fun h => absurd ⟨timeNs, rfl⟩ h⟩
      · exact Alike.refl _ _
    · exact Alike.refl _ _

theorem moves_alike (owner : Str) (tokens : TokenTable) (moves : List Move)
    (lockPath : Str) :
    Alike (exists timeNs : Nat, Move.refresh lockPath timeNs ∈ moves)
      (own owner (moves.foldl (Move.apply owner) tokens) lockPath)
      (own owner tokens lockPath) := by
  induction moves generalizing tokens with
  | nil => exact Alike.refl _ _
  | cons move rest ih =>
    rw [foldl_cons]
    refine ((ih _).trans (move.alike owner tokens lockPath)).mono ?_
    intro h
    rcases h with hrest | hfirst
    · rcases hrest with ⟨timeNs, hmem⟩
      exact ⟨timeNs, mem_cons_of_mem _ hmem⟩
    · rcases hfirst with ⟨timeNs, rfl⟩
      exact ⟨timeNs, mem_cons_self⟩

/-!
# Undoing changes
-/

def undoOne (view : View) (lockPath : Str) : AcquisitionChange -> View
  | .created => update view lockPath none
  | .reentrant => view
  | .upgraded previous _ =>
    update view lockPath (some previous)

/-- Undo changes, the last one first. -/
def undone : Acquired -> View -> View
  | [], view => view
  | (lockPath, change) :: rest, view =>
    undoOne (undone rest view) lockPath change

theorem undone_append (xs ys : Acquired) (view : View) :
    undone (xs ++ ys) view = undone xs (undone ys view) := by
  induction xs with
  | nil => rfl
  | cons first rest ih =>
    rw [cons_append, undone, undone, ih]

theorem undoOne_alike {refreshed : Str -> Prop} {a b : View}
    (h : forall key : Str, Alike (refreshed key) (a key) (b key))
    (lockPath : Str) (change : AcquisitionChange) (key : Str) :
    Alike (refreshed key) (undoOne a lockPath change key)
      (undoOne b lockPath change key) := by
  cases change with
  | created =>
    rw [undoOne, undoOne, update_apply, update_apply]
    split
    · exact Alike.refl _ _
    · exact h key
  | reentrant => exact h key
  | upgraded previous replacement =>
    rw [undoOne, undoOne, update_apply, update_apply]
    split
    · exact Alike.refl _ _
    · exact h key

theorem undone_alike {refreshed : Str -> Prop} {a b : View}
    (h : forall key : Str, Alike (refreshed key) (a key) (b key))
    (acquired : Acquired) (key : Str) :
    Alike (refreshed key) (undone acquired a key) (undone acquired b key) := by
  induction acquired generalizing key with
  | nil => exact h key
  | cons first rest ih => exact undoOne_alike ih first.1 first.2 key

theorem undone_of_notMem {acquired : Acquired} {view : View} {key : Str}
    (h : forall change, change ∈ acquired -> change.1 ≠ key) :
    undone acquired view key = view key := by
  induction acquired with
  | nil => rfl
  | cons first rest ih =>
    have hne : key ≠ first.1 := (h first mem_cons_self).symm
    have hrest := ih fun change hmem => h change (mem_cons_of_mem _ hmem)
    rw [undone]
    cases first.2 with
    | created => rw [undoOne, update_of_ne hne, hrest]
    | reentrant => exact hrest
    | upgraded previous replacement =>
      rw [undoOne, update_of_ne hne, hrest]

/-!
# What the steps of an attempt do to the owner's tokens

Every operation of an attempt passes from one world to a later one in which
undoing the changes made so far gives back the tokens the owner had.  Most of
them change nothing, and fail with a conflict only over a path where the owner
has no token.
-/

variable {α β : Type} {config : Config} {owner : Str}

/-- A token of another owner that was removed as it had been found is stale. -/
def Fair (config : Config) (owner : Str) (w : World) : Prop :=
  forall r, r ∈ w.removals -> r.taken.ownerId ≠ owner ->
    r.found = some r.taken -> isStale config r.taken r.nowNs = true

/-- From one world to a later one, with these changes in between. -/
structure Passes (config : Config) (owner : Str) (acquired : Acquired)
    (w w' : World) : Prop where
  tokens : exists consumed : List Event, w.script = consumed ++ w'.script ∧
    forall key : Str, Alike (Refreshed consumed key)
      (undone acquired (own owner w'.tokens) key) (own owner w.tokens key)
  clock : w.clock ≤ w'.clock
  registries : w'.registries = w.registries
  index : w'.index = w.index
  removals : w.removals <:+ w'.removals
  refusals : w.refusals <:+ w'.refusals
  fair : Fair config owner w -> Fair config owner w'

theorem Passes.refl (w : World) : Passes config owner [] w w where
  tokens := ⟨[], rfl, fun _ => Alike.refl _ _⟩
  clock := Nat.le_refl _
  registries := rfl
  index := rfl
  removals := suffix_refl _
  refusals := suffix_refl _
  fair := id

variable {w : World}

theorem Passes.trans {xs ys : Acquired} {mid w' : World}
    (hfirst : Passes config owner xs w mid)
    (hsecond : Passes config owner ys mid w') :
    Passes config owner (xs ++ ys) w w' where
  tokens := by
    rcases hfirst.tokens with ⟨before, hbefore, halike⟩
    rcases hsecond.tokens with ⟨after, hafter, halike'⟩
    refine ⟨before ++ after, ?_, ?_⟩
    · rw [hbefore, hafter, append_assoc]
    · intro key
      rw [undone_append]
      refine ((undone_alike halike' xs key).trans (halike key)).mono ?_
      rw [refreshed_append]
      exact Or.symm
  clock := Nat.le_trans hfirst.clock hsecond.clock
  registries := hsecond.registries.trans hfirst.registries
  index := hsecond.index.trans hfirst.index
  removals := hfirst.removals.trans hsecond.removals
  refusals := hfirst.refusals.trans hsecond.refusals
  fair := fun h => hsecond.fair (hfirst.fair h)

theorem Passes.own_eq_none_iff {w' : World}
    (h : Passes config owner [] w w') (key : Str) :
    own owner w'.tokens key = none <-> own owner w.tokens key = none := by
  rcases h.tokens with ⟨consumed, _, halike⟩
  exact (halike key).eq_none_iff

theorem next_passes (w : World) :
    Passes config owner [] w (w.next owner).2 := by
  rw [World.next]
  split
  · exact Passes.refl w
  rename_i event rest hscript
  constructor
  case tokens =>
    refine ⟨[event], hscript, fun key => ?_⟩
    refine (moves_alike owner w.tokens event.moves key).mono ?_
    intro h
    exact ⟨event, mem_singleton_self event, h⟩
  case clock => exact Nat.le_add_right _ _
  case registries => rfl
  case index => rfl
  case removals => exact suffix_refl _
  case refusals => exact suffix_refl _
  case fair => exact id

/-!
# Steps that change nothing
-/

/-- The path of a conflict is not the owner's, unless an upgrade was
refused. -/
def Blames (owner : Str) (e : PathLockError) (w : World) : Prop :=
  forall (lockPath other : Str) (kind : PathLockKind),
    e = .conflict lockPath other kind ->
      own owner w.tokens lockPath = none ∨
        exists token, token ∈ w.refusals ∧
          token.lockType = .exact

def Still {ε : Type} (config : Config) (owner : Str)
    (x : Attempt ε World α) : Prop :=
  forall w : World, Passes config owner [] w (x w).2

/-- From this world the step changes nothing. -/
structure QuietAt (config : Config) (owner : Str)
    (x : Attempt PathLockError World α) (w : World) : Prop where
  passes : Passes config owner [] w (x w).2
  blames : forall e : PathLockError,
    (x w).1 = .error e -> Blames owner e (x w).2

theorem quietAt_pure (a : α) (w : World) :
    QuietAt config owner (pure a : Attempt PathLockError World α) w where
  passes := Passes.refl w
  blames := nofun

theorem blames_of_ne {e : PathLockError}
    (h : forall (lockPath other : Str) (kind : PathLockKind),
      e ≠ .conflict lockPath other kind) (w : World) :
    Blames owner e w :=
  fun lockPath other kind heq => absurd heq (h lockPath other kind)

theorem quietAt_fail {e : PathLockError} (h : Blames owner e w) :
    QuietAt config owner
      (fail e : Attempt PathLockError World α) w where
  passes := Passes.refl w
  blames := by
    intro e' he
    cases he
    exact h

theorem QuietAt.bind {x : Attempt PathLockError World α}
    {f : α -> Attempt PathLockError World β}
    (hx : QuietAt config owner x w)
    (hf : forall (a : α) (mid : World), x w = (.ok a, mid) ->
      QuietAt config owner (f a) mid) :
    QuietAt config owner (x >>= f) w := by
  cases hstep : x w with
  | mk r mid =>
    have hpasses := hx.passes
    have hblames := hx.blames
    rw [hstep] at hpasses hblames
    cases r with
    | ok a =>
      have hrun : (x >>= f) w = f a mid := bind_of_ok hstep
      have hrest := hf a mid hstep
      constructor
      · rw [hrun]
        exact hpasses.trans hrest.passes
      · intro e he
        rw [hrun] at he ⊢
        exact hrest.blames e he
    | error e =>
      have hrun : (x >>= f) w = (.error e, mid) := bind_of_error hstep
      constructor
      · rw [hrun]
        exact hpasses
      · intro e' he
        rw [hrun] at he ⊢
        cases he
        exact hblames e rfl

theorem Still.outcome {ε : Type} {x : Attempt ε World α}
    (h : Still config owner x) (w : World) :
    QuietAt config owner
      (outcome x : Attempt PathLockError World (Except ε α)) w where
  passes := h w
  blames := nofun

theorem quietAt_sure {f : World -> α × World}
    (h : Passes config owner [] w (f w).2) :
    QuietAt config owner
      (sure f : Attempt PathLockError World α) w where
  passes := h
  blames := nofun

/-!
# Operations of the provider
-/

theorem Fault.error_ne_conflict (fault : Fault) (asked lockPath other : Str)
    (kind : PathLockKind) :
    fault.error asked ≠ .conflict lockPath other kind := by
  cases fault with
  | _ =>
    intro h
    cases h

theorem quietAt_operate {act : Event -> World -> α × World}
    (h : Passes config owner [] (w.next owner).2
      (act (w.next owner).1 (w.next owner).2).2) :
    QuietAt config owner (operate owner lockPath act) w := by
  have hnext : Passes config owner [] w (w.next owner).2 := next_passes w
  constructor
  · rw [operate]
    split
    · exact hnext
    · exact hnext.trans h
  · intro e he
    rw [operate] at he
    split at he
    · rename_i fault hfault
      cases he
      exact blames_of_ne (fault.error_ne_conflict lockPath) _
    · cases he

theorem quietAt_readToken (lockPath : Str) (w : World) :
    QuietAt config owner ((provider owner).readToken lockPath) w := by
  show QuietAt config owner (readToken owner lockPath) w
  rw [readToken]
  exact quietAt_operate (Passes.refl _)

theorem quietAt_scan (root : Str) (w : World) :
    QuietAt config owner
      ((provider owner).scanDescendantLocks root) w := by
  show QuietAt config owner (scanDescendantLocks owner root) w
  rw [scanDescendantLocks]
  exact quietAt_operate (Passes.refl _)

theorem find_of_readToken {w' : World} {held : Option LockToken}
    (h : (provider owner).readToken lockPath w = (.ok held, w')) :
    w'.tokens.find lockPath = held := by
  change readToken owner lockPath w = _ at h
  rw [readToken, operate] at h
  split at h
  · cases h
  · cases h
    rfl

theorem still_askFs (answer : Event -> α) :
    Still config owner (askFs owner answer) := by
  intro w
  rw [askFs]
  split
  · exact next_passes w
  · exact next_passes w

/-!
# Checks
-/

theorem quietAt_checkEach {counts : LockToken -> Bool}
    (hcounts : forall token : LockToken,
      counts token = true -> token.ownerId ≠ owner)
    (lockPaths : List Str) (w : World) :
    QuietAt config owner
      (checkEach (provider owner) counts lockPaths) w := by
  induction lockPaths generalizing w with
  | nil => exact quietAt_pure () w
  | cons lockPath rest ih =>
    rw [checkEach]
    refine (quietAt_readToken lockPath w).bind ?_
    intro held mid hread
    have hfind := find_of_readToken hread
    cases held with
    | none => exact ih mid
    | some token =>
      simp only
      split
      · rename_i hcount
        apply quietAt_fail
        intro asked other kind heq
        rw [conflictAt] at heq
        cases heq
        refine Or.inl (own_eq_none_iff.mpr ?_)
        intro stored hstored
        rw [hfind] at hstored
        cases hstored
        exact hcounts token hcount
      · exact ih mid

theorem standsAgainst_ne {nowNs : Nat} {token : LockToken}
    (h : standsAgainst config owner nowNs token = true) :
    token.ownerId ≠ owner := by
  rw [standsAgainst, Bool.and_eq_true] at h
  exact bne_iff_ne.mp h.left

theorem quietAt_checkLockPaths (lockPaths : List Str) (w : World) :
    QuietAt config owner
      (checkLockPaths (provider owner) config lockPaths owner) w :=
  (quietAt_sure (Passes.refl w)).bind fun _ mid _ =>
    quietAt_checkEach (fun _ h => standsAgainst_ne h) lockPaths mid

theorem quietAt_checkAncestors (path : Str) (w : World) :
    QuietAt config owner
      (checkAncestorTreeLocks (provider owner) config path owner) w := by
  refine (quietAt_sure (Passes.refl w)).bind ?_
  intro now mid _
  apply quietAt_checkEach
  intro token h
  rw [Bool.and_eq_true] at h
  exact standsAgainst_ne h.right

theorem quietAt_checkDescendants (path : Str) (w : World) :
    QuietAt config owner
      (checkDescendantLocks (provider owner) config path owner) w := by
  refine (quietAt_scan path w).bind ?_
  intro descendants mid _
  refine (quietAt_sure (Passes.refl mid)).bind ?_
  intro now later _
  exact quietAt_checkEach (fun _ h => standsAgainst_ne h) descendants later

theorem quietAt_resolveExactPaths (path : Str) (w : World) :
    QuietAt config owner
      (resolveExactPaths (provider owner) config path) w := by
  refine ((still_askFs _).outcome w).bind ?_
  intro answer mid _
  split
  · exact quietAt_pure _ mid
  · exact quietAt_pure _ mid

theorem quietAt_resolveTreeLockPath (path : Str) (w : World) :
    QuietAt config owner
      (resolveTreeLockPath (provider owner) config path) w := by
  refine ((still_askFs _).outcome w).bind ?_
  intro answer mid _
  split
  · exact quietAt_pure _ mid
  · exact quietAt_pure _ mid

theorem quietAt_checkExact (path : Str) (w : World) :
    QuietAt config owner
      (checkExact (provider owner) config path owner) w := by
  refine (quietAt_checkAncestors path w).bind fun _ mid _ => ?_
  refine (quietAt_resolveExactPaths path mid).bind fun resolved later _ => ?_
  refine (quietAt_checkLockPaths _ later).bind fun _ last _ => ?_
  exact quietAt_pure resolved last

/-!
# The directory of a lock file
-/

theorem quietAt_missingDirs (fuel : Nat) (current : Str) (w : World) :
    QuietAt config owner
      (missingDirs (provider owner) fuel current) w := by
  induction fuel generalizing current w with
  | zero => exact quietAt_pure [] w
  | succ fuel ih =>
    rw [missingDirs]
    refine ((still_askFs _).outcome w).bind fun answer mid _ => ?_
    split
    · exact quietAt_pure [] mid
    · split
      · split
        · exact quietAt_pure _ mid
        · refine (ih _ mid).bind fun above later _ => ?_
          exact quietAt_pure _ later
      · exact quietAt_pure _ mid

theorem io_ne_conflict (message lockPath other : Str) (kind : PathLockKind) :
    PathLockError.io message ≠
      PathLockError.conflict lockPath other kind := nofun

theorem quietAt_makeDirs (dirs : List Str) (w : World) :
    QuietAt config owner (makeDirs (provider owner) dirs) w := by
  induction dirs generalizing w with
  | nil => exact quietAt_pure () w
  | cons dir rest ih =>
    rw [makeDirs]
    refine ((still_askFs _).outcome w).bind fun answer mid _ => ?_
    split
    · exact ih mid
    · refine ((still_askFs _).outcome mid).bind fun isDir later _ => ?_
      split
      · exact ih later
      · exact quietAt_fail (blames_of_ne (io_ne_conflict _) later)

theorem quietAt_ensureLockDir (lockPath : Str) (w : World) :
    QuietAt config owner (ensureLockDir (provider owner) lockPath) w := by
  rw [ensureLockDir]
  split
  · exact quietAt_pure () w
  · split
    · exact quietAt_pure () w
    · refine (quietAt_missingDirs _ _ w).bind fun missing mid _ => ?_
      exact quietAt_makeDirs _ mid

theorem quietAt_ensureLockDirFor (lockPath : Str) (w : World) :
    QuietAt config owner
      (ensureLockDirFor (provider owner) lockPath) w := by
  have hstill : Still config owner
      (ensureLockDir (provider owner) lockPath) :=
    fun start => (quietAt_ensureLockDir lockPath start).passes
  refine (hstill.outcome w).bind fun answer mid _ => ?_
  split
  · exact quietAt_pure () mid
  · exact quietAt_fail (blames_of_ne (io_ne_conflict _) mid)

end Lock
end OpenViking
