import OpenViking.Lock.AcquireSteps

/-!
# The changes of an attempt and their rollback

A token is created, taken over after a stale one, or upgraded.  Whatever an
attempt has changed when it fails, a rollback that succeeds undoes it.
-/

namespace OpenViking
namespace Lock

open Paths Attempt World

variable {α : Type} {config : Config} {owner lockPath : Str}

variable {w : World}

theorem passes_of_tokens {acquired : Acquired}
    {tokens : TokenTable}
    (h : forall key : Str,
      undone acquired (own owner tokens) key = own owner w.tokens key) :
    Passes config owner acquired w { w with tokens := tokens } where
  tokens := by
    refine ⟨[], rfl, fun key => ?_⟩
    rw [h key]
    exact Alike.refl _ _
  clock := Nat.le_refl _
  registries := rfl
  index := rfl
  removals := List.suffix_refl _
  refusals := List.suffix_refl _
  fair := id

/-!
# What the operations do
-/

/-- An operation that fails has done nothing. -/
def FailsStill (config : Config) (owner : Str) (w : World)
    (e : PathLockError) (w' : World) : Prop :=
  Passes config owner [] w w' ∧
    forall (lockPath other : Str) (kind : PathLockKind),
      e ≠ .conflict lockPath other kind

theorem FailsStill.blames {w w' : World} {e : PathLockError}
    (h : FailsStill config owner w e w') :
    Passes config owner [] w w' ∧ Blames owner e w' :=
  ⟨h.left, blames_of_ne h.right w'⟩

theorem operate_cases (config : Config) (owner lockPath : Str)
    (act : Event -> World -> α × World) (w : World) :
    (exists (e : PathLockError) (w' : World),
      operate owner lockPath act w = (.error e, w') ∧
        FailsStill config owner w e w') ∨
    exists (event : Event) (mid : World),
      operate owner lockPath act w =
        (.ok (act event mid).1, (act event mid).2) ∧
        Passes config owner [] w mid := by
  have hnext : Passes config owner [] w (w.next owner).2 := next_passes w
  rw [operate]
  split
  · rename_i fault hfault
    exact .inl ⟨_, _, rfl, hnext, fault.error_ne_conflict lockPath⟩
  · exact .inr ⟨_, _, rfl, hnext⟩

theorem compareAndWrite_cases (config : Config) (owner lockPath : Str)
    (expected replacement : LockToken) (w : World) :
    (exists (e : PathLockError) (w' : World),
      (provider owner).compareAndWriteToken lockPath expected
          replacement w = (.error e, w') ∧
        FailsStill config owner w e w') ∨
    (exists mid : World,
      (provider owner).compareAndWriteToken lockPath expected
          replacement w =
        (.ok true,
          { mid with tokens := mid.tokens.put lockPath replacement }) ∧
        Passes config owner [] w mid ∧
        mid.tokens.find lockPath = some expected) ∨
    exists mid : World,
      (provider owner).compareAndWriteToken lockPath expected
          replacement w =
        (.ok false, { mid with refusals := expected :: mid.refusals }) ∧
        Passes config owner [] w mid := by
  have hcases := operate_cases config owner lockPath (fun event w =>
    if w.tokens.find lockPath = some expected ∧ event.miss = false then
      (true, { w with tokens := w.tokens.put lockPath replacement })
    else (false, { w with refusals := expected :: w.refusals })) w
  rcases hcases with hfail | ⟨event, mid, hrun, hpasses⟩
  · exact .inl hfail
  · by_cases htest : mid.tokens.find lockPath = some expected ∧ event.miss = false
    · rw [if_pos htest] at hrun
      exact .inr (.inl ⟨mid, hrun, hpasses, htest.left⟩)
    · rw [if_neg htest] at hrun
      exact .inr (.inr ⟨mid, hrun, hpasses⟩)

theorem remove_cases (config : Config) (owner lockPath other : Str)
    (w : World) :
    (exists (e : PathLockError) (w' : World),
      (provider owner).removeToken lockPath other w =
        (.error e, w') ∧ FailsStill config owner w e w') ∨
    (exists (mid : World) (held : LockToken),
      (provider owner).removeToken lockPath other w =
        (.ok true,
          { mid with
            tokens := mid.tokens.del lockPath
            removals :=
              { found := w.tokens.find lockPath, taken := held
                nowNs := mid.clock } :: mid.removals }) ∧
        Passes config owner [] w mid ∧
        mid.tokens.find lockPath = some held ∧ held.ownerId = other) ∨
    exists mid : World, (provider owner).removeToken lockPath other w =
        (.ok false, mid) ∧ Passes config owner [] w mid := by
  rw [show (provider owner).removeToken lockPath other w =
    removeToken owner lockPath other w from rfl, removeToken]
  apply (operate_cases config owner lockPath _ w).elim
  · exact Or.inl
  rintro ⟨event, mid, hrun, hpasses⟩
  cases hfind : mid.tokens.find lockPath with
  | none =>
    simp only [hfind] at hrun
    exact .inr (.inr ⟨mid, hrun, hpasses⟩)
  | some held =>
    simp only [hfind] at hrun
    by_cases htest : held.ownerId = other ∧ event.miss = false
    · rw [if_pos htest] at hrun
      exact .inr (.inl ⟨mid, held, hrun, hpasses, hfind, htest.left⟩)
    · rw [if_neg htest] at hrun
      exact .inr (.inr ⟨mid, hrun, hpasses⟩)

/-!
# Acquiring one token
-/

/-- What a change would put back is a token of the owner. -/
def AcquisitionChange.Owned (owner : Str) : AcquisitionChange -> Prop
  | upgraded previous _ => previous.ownerId = owner
  | _ => True

/-- A step that acquires a lock path, or fails having done nothing. -/
structure Acquires (config : Config) (owner lockPath : Str)
    (x : Attempt PathLockError World AcquisitionChange) (w : World) :
    Prop where
  ok : forall (change : AcquisitionChange) (w' : World),
    x w = (.ok change, w') ->
      Passes config owner [(lockPath, change)] w w' ∧
        own owner w'.tokens lockPath ≠ none ∧ change.Owned owner
  error : forall (e : PathLockError) (w' : World),
    x w = (.error e, w') ->
      Passes config owner [] w w' ∧ Blames owner e w'

theorem acquires_fail {e : PathLockError}
    (h : Blames owner e w) :
    Acquires config owner lockPath (fail e) w where
  ok := nofun
  error := by
    intro e' w' hrun
    cases hrun
    exact ⟨Passes.refl w, h⟩

theorem QuietAt.acquires {β : Type} {x : Attempt PathLockError World β}
    {f : β -> Attempt PathLockError World AcquisitionChange}
    (hx : QuietAt config owner x w)
    (hf : forall (b : β) (mid : World), x w = (.ok b, mid) ->
      Acquires config owner lockPath (f b) mid) :
    Acquires config owner lockPath (x >>= f) w := by
  have hpasses := hx.passes
  constructor
  · intro change w' hrun
    rcases exists_of_bind_ok hrun with ⟨b, mid, hstep, hrest⟩
    rw [hstep] at hpasses
    have hacquired := (hf b mid hstep).ok change w' hrest
    exact ⟨hpasses.trans hacquired.left, hacquired.right⟩
  · intro e w' hrun
    rcases bind_error_cases hrun with hstep | ⟨b, mid, hstep, hrest⟩
    · have hblames := hx.blames e
      rw [hstep] at hpasses hblames
      exact ⟨hpasses, hblames rfl⟩
    · rw [hstep] at hpasses
      have hfailed := (hf b mid hstep).error e w' hrest
      exact ⟨hpasses.trans hfailed.left, hfailed.right⟩

theorem acquires_create {token : LockToken} (htoken : token.ownerId = owner)
    (hnone : own owner w.tokens lockPath = none) :
    Acquires config owner lockPath (do
      (provider owner).tryCreateToken lockPath token
      return .created) w := by
  have hcases := operate_cases config owner lockPath (fun _ w =>
    ((TokenTable.tryCreate lockPath token w.tokens).1,
      { w with tokens := (TokenTable.tryCreate lockPath token w.tokens).2 })) w
  rcases hcases with ⟨e, w', hrun, hfail⟩ | ⟨event, mid, hrun, hpasses⟩
  · have hcreate : (provider owner).tryCreateToken lockPath token w =
        (.error e, w') := bind_of_error hrun
    constructor
    · intro change last h
      rw [bind_of_error hcreate] at h
      cases h
    · intro e' last h
      rw [bind_of_error hcreate] at h
      cases h
      exact hfail.blames
  · have hmid := (hpasses.own_eq_none_iff lockPath).mpr hnone
    cases hfind : mid.tokens.find lockPath with
    | some held =>
      simp only [TokenTable.tryCreate, hfind] at hrun
      have hcreate : (provider owner).tryCreateToken lockPath token w =
          (.error (conflictAt lockPath held), mid) :=
        bind_of_ok hrun
      constructor
      · intro change last h
        rw [bind_of_error hcreate] at h
        cases h
      intro e' last h
      rw [bind_of_error hcreate] at h
      cases h
      refine ⟨hpasses, ?_⟩
      intro asked other kind heq
      rw [conflictAt] at heq
      cases heq
      exact .inl hmid
    | none =>
      simp only [TokenTable.tryCreate, hfind] at hrun
      have hcreate : (provider owner).tryCreateToken lockPath token w =
          (.ok (), { mid with tokens := mid.tokens.put lockPath token }) :=
        bind_of_ok hrun
      constructor
      · intro change last h
        rw [bind_of_ok hcreate] at h
        cases h
        have hput : Passes config owner [(lockPath, .created)] mid
            { mid with tokens := mid.tokens.put lockPath token } := by
          apply passes_of_tokens
          intro key
          rw [undone, undone, undoOne, Function.update_apply]
          split
          · rename_i heq
            rw [heq, hmid]
          · rename_i hne
            rw [own_put, if_neg hne]
        refine ⟨hpasses.trans hput, ?_, trivial⟩
        rw [own_put, if_pos rfl, if_pos htoken]
        exact Option.some_ne_none token
      · intro e last h
        rw [bind_of_ok hcreate] at h
        cases h

theorem isStale_mono {token : LockToken} {now later : Nat} (hle : now ≤ later)
    (h : isStale config token now = true) :
    isStale config token later = true := by
  rw [isStale, decide_eq_true_eq] at h ⊢
  omega

theorem quietAt_removeOther {other : Str} (hother : other ≠ owner)
    (hstale : forall token : LockToken, w.tokens.find lockPath = some token ->
      isStale config token w.clock = true) :
    QuietAt config owner
      ((provider owner).removeToken lockPath other) w := by
  rcases remove_cases config owner lockPath other w with
    ⟨e, w', hrun, hfail⟩ | ⟨mid, held, hrun, hpasses, hfind, howner⟩ |
      ⟨mid, hrun, hpasses⟩
  · constructor
    · rw [hrun]
      exact hfail.left
    · intro e' he
      rw [hrun] at he ⊢
      cases he
      exact blames_of_ne hfail.right w'
  · have hremoved : Passes config owner [] mid
        { mid with
          tokens := mid.tokens.del lockPath
          removals :=
            { found := w.tokens.find lockPath, taken := held
              nowNs := mid.clock } :: mid.removals } := by
      constructor
      case tokens =>
        refine ⟨[], rfl, fun key => ?_⟩
        rw [undone, own_del]
        split
        · rename_i heq
          have hnone : own owner mid.tokens key = none := by
            apply own_eq_none_iff.mpr
            intro token htoken
            rw [heq, hfind] at htoken
            cases htoken
            rw [howner]
            exact hother
          rw [hnone]
          exact Alike.refl _ _
        · exact Alike.refl _ _
      case clock => exact Nat.le_refl _
      case registries => rfl
      case index => rfl
      case removals => exact List.suffix_cons _ _
      case refusals => exact List.suffix_refl _
      case fair =>
        intro hfair r hr hne hfound
        rcases List.mem_cons.mp hr with hnew | hold
        · subst hnew
          exact isStale_mono hpasses.clock (hstale held hfound)
        · exact hfair r hold hne hfound
    constructor
    · rw [hrun]
      exact hpasses.trans hremoved
    · intro e he
      rw [hrun] at he
      cases he
  · constructor
    · rw [hrun]
      exact hpasses
    · intro e he
      rw [hrun] at he
      cases he

theorem acquires_reentrant
    (h : own owner w.tokens lockPath ≠ none) :
    Acquires config owner lockPath (pure .reentrant) w where
  ok := by
    intro change w' hrun
    cases hrun
    exact ⟨passes_of_tokens fun _ => rfl, h, trivial⟩
  error := nofun

theorem acquires_upgrade {existing token : LockToken}
    (hexisting : existing.ownerId = owner)
    (hexact : existing.lockType = .exact)
    (htoken : token.ownerId = owner) (w : World) :
    Acquires config owner lockPath (do
      if ← (provider owner).compareAndWriteToken lockPath existing
          token then
        return .upgraded existing token
      fail
        (.conflict lockPath owner existing.lockType)) w := by
  rcases compareAndWrite_cases config owner lockPath existing token w with
    ⟨e, w', hrun, hfail⟩ | ⟨mid, hrun, hpasses, hfind⟩ | ⟨mid, hrun, hpasses⟩
  · constructor
    · intro change last h
      rw [bind_of_error hrun] at h
      cases h
    · intro e' last h
      rw [bind_of_error hrun] at h
      cases h
      exact hfail.blames
  · constructor
    · intro change last h
      rw [bind_of_ok hrun] at h
      cases h
      have hput : Passes config owner [(lockPath, .upgraded existing token)] mid
          { mid with tokens := mid.tokens.put lockPath token } := by
        apply passes_of_tokens
        intro key
        rw [undone, undone, undoOne, Function.update_apply]
        split
        · rename_i heq
          rw [heq]
          exact (own_eq_some_iff.mpr ⟨hfind, hexisting⟩).symm
        · rename_i hne
          rw [own_put, if_neg hne]
      refine ⟨hpasses.trans hput, ?_, hexisting⟩
      rw [own_put, if_pos rfl, if_pos htoken]
      exact Option.some_ne_none token
    · intro e last h
      rw [bind_of_ok hrun] at h
      cases h
  · constructor
    · intro change last h
      rw [bind_of_ok hrun] at h
      cases h
    intro e last h
    rw [bind_of_ok hrun] at h
    cases h
    have hrefused : Passes config owner [] mid
        { mid with refusals := existing :: mid.refusals } := by
      constructor
      case tokens => exact ⟨[], rfl, fun _ => Alike.refl _ _⟩
      case clock => exact Nat.le_refl _
      case registries => rfl
      case index => rfl
      case removals => exact List.suffix_refl _
      case refusals => exact List.suffix_cons _ _
      case fair => exact id
    refine ⟨hpasses.trans hrefused, ?_⟩
    intro asked other kind _
    exact .inr ⟨existing, List.mem_cons_self, hexact⟩

theorem acquires_one (config : Config) (owner lockPath : Str)
    (kind : PathLockKind) (w : World) :
    Acquires config owner lockPath
      (tryAcquireOne (provider owner) config lockPath owner kind) w := by
  rw [tryAcquireOne]
  refine (quietAt_sure (Passes.refl w)).acquires ?_
  intro now mid hnow
  cases hnow
  have hquiet : QuietAt config owner
      ((provider owner).readToken lockPath) w :=
    quietAt_readToken lockPath w
  refine hquiet.acquires ?_
  intro held later hread
  have hpasses := hquiet.passes
  rw [hread] at hpasses
  have hfind := find_of_readToken hread
  have htoken : ({ ownerId := owner, timeNs := w.clock, lockType := kind } :
      LockToken).ownerId = owner := rfl
  cases held with
  | none =>
    have hnone : own owner later.tokens lockPath = none := by
      apply own_eq_none_iff.mpr
      intro token hheld
      rw [hfind] at hheld
      cases hheld
    exact acquires_create htoken hnone
  | some existing =>
    simp only
    split
    · rename_i howner
      split
      · rename_i hupgrade
        exact acquires_upgrade howner hupgrade.left rfl later
      · apply acquires_reentrant
        rw [own_eq_some_iff.mpr ⟨hfind, howner⟩]
        exact Option.some_ne_none existing
    · rename_i howner
      have hnone : own owner later.tokens lockPath = none := by
        apply own_eq_none_iff.mpr
        intro token htoken
        rw [hfind] at htoken
        cases htoken
        exact howner
      split
      · rename_i hstale
        have hother : QuietAt config owner
            ((provider owner).removeToken lockPath existing.ownerId)
            later := by
          apply quietAt_removeOther howner
          intro token htoken
          rw [hfind] at htoken
          cases htoken
          exact isStale_mono hpasses.clock hstale
        refine hother.acquires ?_
        intro removed last hremove
        have hremoved := hother.passes
        rw [hremove] at hremoved
        have hlast := (hremoved.own_eq_none_iff lockPath).mpr hnone
        exact acquires_create htoken hlast
      · apply acquires_fail
        intro asked other held heq
        rw [conflictAt] at heq
        cases heq
        exact .inl hnone

end Lock
end OpenViking
