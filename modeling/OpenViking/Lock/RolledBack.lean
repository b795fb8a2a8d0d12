import OpenViking.Lock.AcquireUndone

/-!
# A failed attempt is rolled back

A rollback that reports no error takes back every change, so the attempt has
passed to a world where the owner's tokens are what they were.
-/

namespace OpenViking
namespace Lock

open Paths Function Attempt World List

variable {config : Config} {owner : Str}

/-!
# The rollback
-/

theorem Passes.retoken {xs ys : Acquired} {w mid : World}
    (h : Passes config owner xs w mid) {tokens : TokenTable}
    (hview : undone ys (own owner tokens) = undone xs (own owner mid.tokens)) :
    Passes config owner ys w { mid with tokens := tokens } :=
  { h with
    tokens := by
      rcases h.tokens with ⟨consumed, hscript, halike⟩
      refine ⟨consumed, hscript, fun key => ?_⟩
      rw [congrFun hview key]
      exact halike key }

variable {acquired : Acquired}

theorem Passes.removed {w w' : World}
    (h : Passes config owner acquired w w') {r : Removal}
    (hr : r.taken.ownerId = owner) :
    Passes config owner acquired w
      { w' with removals := r :: w'.removals } :=
  { h with
    removals := h.removals.trans (suffix_cons _ _)
    fair := by
      intro hfair q hq hne hfound
      rcases mem_cons.mp hq with hnew | hold
      · subst hnew
        exact absurd hr hne
      · exact h.fair hfair q hold hne hfound }

theorem undone_snoc (acquired : Acquired) (lockPath : Str)
    (change : AcquisitionChange) (view : View) :
    undone (acquired ++ [(lockPath, change)]) view =
      undone acquired (undoOne view lockPath change) := by
  rw [undone_append]
  rfl

theorem own_del_eq_update (tokens : TokenTable) (lockPath : Str) :
    own owner (tokens.del lockPath) =
      update (own owner tokens) lockPath none := by
  funext key
  rw [own_del, update_apply]

theorem own_put_eq_update (tokens : TokenTable) (lockPath : Str)
    {token : LockToken} (htoken : token.ownerId = owner) :
    own owner (tokens.put lockPath token) =
      update (own owner tokens) lockPath (some token) := by
  funext key
  rw [own_put, if_pos htoken, update_apply]

variable {w w' last : World}

variable {lockPath : Str}

/-- A removal that succeeds leaves the owner no token there. -/
theorem removeOwnedToken_undoes {removed : Bool} (hpasses : Passes config owner
      (acquired ++ [(lockPath, AcquisitionChange.created)]) w w')
    (hrun : removeOwnedToken (provider owner) lockPath owner w' =
      (.ok removed, last)) :
    Passes config owner acquired w last ∧ w'.refusals <:+ last.refusals := by
  rw [removeOwnedToken] at hrun
  rcases remove_cases config owner lockPath owner w' with
    ⟨e, mid, hremove, hfail⟩ | ⟨mid, held, hremove, hmid, hfind, howner⟩ |
      ⟨mid, hremove, hmid⟩
  · rw [bind_of_error hremove] at hrun
    cases hrun
  · rw [bind_of_ok hremove] at hrun
    cases hrun
    have hto := hpasses.trans hmid
    rw [append_nil] at hto
    have hdeleted : Passes config owner acquired w
        { mid with tokens := mid.tokens.del lockPath } := by
      apply hto.retoken
      rw [undone_snoc, undoOne, own_del_eq_update]
    exact ⟨hdeleted.removed howner, hmid.refusals⟩
  · rw [bind_of_ok hremove] at hrun
    rcases exists_of_bind_ok hrun with ⟨held, later, hread, hrest⟩
    have hquiet : QuietAt config owner
        ((provider owner).readToken lockPath) mid :=
      quietAt_readToken lockPath mid
    have hlater := hquiet.passes
    rw [hread] at hlater
    have hfind := find_of_readToken hread
    have hboth : Passes config owner [] w' later := hmid.trans hlater
    have hto := hpasses.trans hboth
    rw [append_nil] at hto
    have hnone : own owner later.tokens lockPath = none ∧ later = last := by
      cases held with
      | none =>
        cases hrest
        refine ⟨own_eq_none_iff.mpr ?_, rfl⟩
        intro token htoken
        rw [hfind] at htoken
        cases htoken
      | some token =>
        simp only at hrest
        split at hrest
        · rename_i hne
          cases hrest
          refine ⟨own_eq_none_iff.mpr ?_, rfl⟩
          intro stored hstored
          rw [hfind] at hstored
          cases hstored
          exact hne
        · cases hrest
    have hkept : Passes config owner acquired w
        { later with tokens := later.tokens } := by
      apply hto.retoken
      rw [undone_snoc, undoOne, <- hnone.left, update_eq_self]
    rw [<- hnone.right]
    exact ⟨hkept, hboth.refusals⟩

variable {change : AcquisitionChange}

theorem takeBack_undoes (howned : change.Owned owner)
    (hpasses : Passes config owner (acquired ++ [(lockPath, change)]) w w')
    (hrun : takeBack (provider owner) owner lockPath change w' =
      (.ok (), last)) :
    Passes config owner acquired w last ∧ w'.refusals <:+ last.refusals := by
  cases change with
  | created =>
    rcases exists_of_bind_ok hrun with ⟨removed, mid, hremove, hrest⟩
    cases hrest
    exact removeOwnedToken_undoes hpasses hremove
  | reentrant =>
    cases hrun
    have hkept : Passes config owner acquired w
        { w' with tokens := w'.tokens } := by
      apply hpasses.retoken
      rw [undone_snoc, undoOne]
    exact ⟨hkept, suffix_refl _⟩
  | upgraded previous replacement =>
    rw [takeBack] at hrun
    rcases compareAndWrite_cases config owner lockPath replacement previous
        w' with ⟨e, mid, hwrite, hfail⟩ | ⟨mid, hwrite, hmid, hfind⟩ |
          ⟨mid, hwrite, hmid⟩
    · rw [bind_of_error hwrite] at hrun
      cases hrun
    · rw [bind_of_ok hwrite] at hrun
      cases hrun
      have hto := hpasses.trans hmid
      rw [append_nil] at hto
      refine ⟨hto.retoken ?_, hmid.refusals⟩
      rw [undone_snoc, undoOne, own_put_eq_update mid.tokens lockPath howned]
    · rw [bind_of_ok hwrite] at hrun
      cases hrun

variable {e : PathLockError}

theorem takeBackEach_some {w last : World} {reported : Option PathLockError}
    (hrun : takeBackEach (provider owner) owner acquired (some e) w =
      (.ok reported, last)) : reported ≠ none := by
  induction acquired generalizing w with
  | nil =>
    cases hrun
    exact Option.some_ne_none e
  | cons first rest ih =>
    rw [takeBackEach] at hrun
    rcases exists_of_bind_ok hrun with ⟨result, mid, _, hrest⟩
    cases result with
    | ok _ => exact ih hrest
    | error e' => exact ih hrest

theorem takeBackEach_undoes {reversed : Acquired}
    (howned : forall entry, entry ∈ reversed -> entry.2.Owned owner)
    (hpasses : Passes config owner reversed.reverse w w')
    (hrun : takeBackEach (provider owner) owner reversed none w' =
      (.ok none, last)) :
    Passes config owner [] w last ∧ w'.refusals <:+ last.refusals := by
  induction reversed generalizing w' with
  | nil =>
    cases hrun
    exact ⟨hpasses, suffix_refl _⟩
  | cons first rest ih =>
    rw [takeBackEach] at hrun
    rcases exists_of_bind_ok hrun with ⟨result, mid, hstep, hrest⟩
    cases result with
    | error e => exact absurd rfl (takeBackEach_some hrest)
    | ok _ =>
      have htake : takeBack (provider owner) owner first.1 first.2
          w' = (.ok (), mid) := by
        rw [outcome, Prod.mk.injEq, Except.ok.injEq] at hstep
        exact Prod.ext hstep.left hstep.right
      rw [reverse_cons] at hpasses
      have hundone := takeBack_undoes (howned first mem_cons_self)
        hpasses htake
      have hlater := ih
        (fun entry hmem => howned entry (mem_cons_of_mem _ hmem))
        hundone.left hrest
      exact ⟨hlater.left, hundone.right.trans hlater.right⟩

theorem rollback_undoes
    (howned : forall entry, entry ∈ acquired -> entry.2.Owned owner)
    (hpasses : Passes config owner acquired w w')
    (hrun : rollbackAcquisitions (provider owner) owner acquired w' =
      (.ok (), last)) :
    Passes config owner [] w last ∧ w'.refusals <:+ last.refusals := by
  rcases exists_of_bind_ok hrun with ⟨reported, mid, htake, hrest⟩
  cases reported with
  | some e => cases hrest
  | none =>
    cases hrest
    rw [<- reverse_reverse acquired] at hpasses
    exact takeBackEach_undoes
      (fun entry hmem => howned entry (mem_reverse.mp hmem))
      hpasses htake

/-!
# The requests of a batch
-/

/-- The owner still has a token under every path it has acquired. -/
def Holding (owner : Str) (acquired : Acquired) (w : World) : Prop :=
  forall entry, entry ∈ acquired ->
    entry.2.Owned owner ∧ own owner w.tokens entry.1 ≠ none

theorem Passes.own_ne_none {w w' : World}
    {key : Str}
    (h : Passes config owner [(lockPath, change)] w w')
    (hnew : own owner w'.tokens lockPath ≠ none)
    (hkey : own owner w.tokens key ≠ none) :
    own owner w'.tokens key ≠ none := by
  by_cases heq : key = lockPath
  · rw [heq]
    exact hnew
  rcases h.tokens with ⟨consumed, _, halike⟩
  have hsame : undone [(lockPath, change)] (own owner w'.tokens) key =
      own owner w'.tokens key := by
    apply undone_of_notMem
    intro entry hmem
    rw [mem_singleton] at hmem
    rw [hmem]
    exact Ne.symm heq
  have hnone := (halike key).eq_none_iff
  rw [hsame] at hnone
  exact fun h => hkey (hnone.mp h)

/-- A step of an attempt that has already acquired something. -/
structure Extends (config : Config) (owner : Str) (acquired : Acquired)
    (x : Attempt PathLockError World Progress) (w : World) : Prop where
  ok : forall (next : Progress) (w' : World), x w = (.ok next, w') ->
    exists (lockPath : Str) (change : AcquisitionChange),
      next.acquired = acquired ++ [(lockPath, change)] ∧
        Passes config owner [(lockPath, change)] w w' ∧
        own owner w'.tokens lockPath ≠ none ∧ change.Owned owner
  error : forall (e : PathLockError) (w' : World),
    x w = (.error e, w') ->
      Passes config owner [] w w' ∧ Blames owner e w'

theorem QuietAt.extends {β : Type} {x : Attempt PathLockError World β}
    {f : β -> Attempt PathLockError World Progress}
    {w : World} (hx : QuietAt config owner x w)
    (hf : forall (b : β) (mid : World), x w = (.ok b, mid) ->
      Extends config owner acquired (f b) mid) :
    Extends config owner acquired (x >>= f) w := by
  have hpasses := hx.passes
  constructor
  · intro next w' hrun
    rcases exists_of_bind_ok hrun with ⟨b, mid, hstep, hrest⟩
    rw [hstep] at hpasses
    rcases (hf b mid hstep).ok next w' hrest with
      ⟨lockPath, change, hnext, hlater, hrest⟩
    exact ⟨lockPath, change, hnext, hpasses.trans hlater, hrest⟩
  · intro e w' hrun
    rcases bind_error_cases hrun with hstep | ⟨b, mid, hstep, hrest⟩
    · have hblames := hx.blames e
      rw [hstep] at hpasses hblames
      exact ⟨hpasses, hblames rfl⟩
    · rw [hstep] at hpasses
      have hfailed := (hf b mid hstep).error e w' hrest
      exact ⟨hpasses.trans hfailed.left, hfailed.right⟩

theorem Acquires.extends
    {x : Attempt PathLockError World AcquisitionChange} {w : World}
    (hx : Acquires config owner lockPath x w) (acquired : Acquired)
    (resolutions : Resolutions) :
    Extends config owner acquired (do
      let change ← x
      return { acquired := acquired ++ [(lockPath, change)]
               resolutions := resolutions }) w := by
  constructor
  · intro next w' hrun
    rcases exists_of_bind_ok hrun with ⟨change, mid, hstep, hrest⟩
    cases hrest
    exact ⟨lockPath, change, rfl, hx.ok change _ hstep⟩
  · intro e w' hrun
    rcases bind_error_cases hrun with hstep | ⟨b, mid, hstep, hrest⟩
    · exact hx.error e w' hstep
    · cases hrest

theorem extends_acquireRequest (request : PathLockRequest)
    (progress : Progress) (w : World) :
    Extends config owner progress.acquired
      (acquireRequest (provider owner) config owner request progress)
      w := by
  rw [acquireRequest]
  cases request.kind with
  | exact =>
    refine (quietAt_checkExact _ w).extends fun resolved mid _ => ?_
    refine (quietAt_ensureLockDirFor _ mid).extends fun _ later _ => ?_
    exact (acquires_one config owner _ _ later).extends _ _
  | tree =>
    refine (quietAt_resolveTreeLockPath _ w).extends fun lockPath w1 _ => ?_
    refine (quietAt_checkAncestors _ w1).extends fun _ w2 _ => ?_
    refine (quietAt_resolveExactPaths _ w2).extends fun candidates w3 _ => ?_
    refine (quietAt_checkLockPaths _ w3).extends fun _ w4 _ => ?_
    refine (quietAt_checkDescendants _ w4).extends fun _ w5 _ => ?_
    refine (quietAt_ensureLockDirFor _ w5).extends fun _ w6 _ => ?_
    exact (acquires_one config owner _ _ w6).extends _ _

theorem acquireEach_passes {progress : Progress} {w w' : World}
    (hpasses : Passes config owner progress.acquired w w')
    (hholding : Holding owner progress.acquired w')
    (requests : List PathLockRequest) (last : World) :
    (forall final : Progress,
      acquireEach (provider owner) config owner requests progress w' =
        (.ok final, last) ->
      Passes config owner final.acquired w last ∧
        Holding owner final.acquired last) ∧
    (forall (e : PathLockError) (acquired : Acquired),
      acquireEach (provider owner) config owner requests progress w' =
        (.error (e, acquired), last) ->
      Passes config owner acquired w last ∧ Holding owner acquired last ∧
        Blames owner e last) := by
  induction requests generalizing progress w' with
  | nil =>
    constructor
    · intro final hrun
      cases hrun
      exact ⟨hpasses, hholding⟩
    · nofun
  | cons request rest ih =>
    have hextends : Extends config owner progress.acquired
        (acquireRequest (provider owner) config owner request progress)
        w' := extends_acquireRequest request progress w'
    rw [acquireEach]
    cases hstep : acquireRequest (provider owner) config owner request
        progress w' with
    | mk result mid =>
      have houtcome : outcome (acquireRequest
          (provider owner) config owner request progress) w' =
          ((.ok result : Except (PathLockError × Acquired) _), mid) := by
        rw [outcome, hstep]
      cases result with
      | ok next =>
        rcases hextends.ok next mid hstep with
          ⟨lockPath, change, hnext, hlater, hnew, howned⟩
        have hto := hpasses.trans hlater
        rw [<- hnext] at hto
        have hall : Holding owner next.acquired mid := by
          intro entry hmem
          rw [hnext, mem_append, mem_singleton] at hmem
          rcases hmem with hold | hlast
          · have hentry := hholding entry hold
            exact ⟨hentry.left, hlater.own_ne_none hnew hentry.right⟩
          · rw [hlast]
            exact ⟨howned, hnew⟩
        have hrest := ih hto hall
        constructor
        · intro final hrun
          rw [bind_of_ok houtcome] at hrun
          exact hrest.left final hrun
        · intro e acquired hrun
          rw [bind_of_ok houtcome] at hrun
          exact hrest.right e acquired hrun
      | error failure =>
        have hfailed := hextends.error failure mid hstep
        constructor
        · intro final hrun
          rw [bind_of_ok houtcome] at hrun
          cases hrun
        intro e acquired hrun
        rw [bind_of_ok houtcome] at hrun
        cases hrun
        have hto := hpasses.trans hfailed.left
        rw [append_nil] at hto
        refine ⟨hto, ?_, hfailed.right⟩
        intro entry hmem
        have hentry := hholding entry hmem
        refine ⟨hentry.left, fun hnone => hentry.right ?_⟩
        exact (hfailed.left.own_eq_none_iff entry.1).mp hnone

theorem quietAt_verifyRequest (resolutions : Resolutions)
    (request : PathLockRequest) (w : World) :
    QuietAt config owner (verifyRequest (provider owner) config owner
      resolutions request) w := by
  rw [verifyRequest]
  cases request.kind with
  | exact =>
    refine (quietAt_checkAncestors _ w).bind fun _ mid _ => ?_
    split
    · exact quietAt_checkLockPaths _ mid
    · exact quietAt_fail (blames_of_ne (io_ne_conflict _) mid)
  | tree =>
    refine (quietAt_checkAncestors _ w).bind fun _ w1 _ => ?_
    refine (quietAt_resolveExactPaths _ w1).bind fun candidates w2 _ => ?_
    refine (quietAt_checkLockPaths _ w2).bind fun _ w3 _ => ?_
    exact quietAt_checkDescendants _ w3

theorem quietAt_verifyEach (resolutions : Resolutions)
    (requests : List PathLockRequest) (w : World) :
    QuietAt config owner (verifyEach (provider owner) config owner
      resolutions requests) w := by
  induction requests generalizing w with
  | nil => exact quietAt_pure () w
  | cons request rest ih =>
    exact (quietAt_verifyRequest resolutions request w).bind fun _ mid _ => ih mid

/-!
# The attempt
-/

/-- A failed attempt that is not a reported rollback failure. -/
theorem giveUp_passes {e' : PathLockError} {preConflict pre : Bool}
    (hpasses : Passes config owner acquired w w')
    (hholding : Holding owner acquired w')
    (hrun : giveUp (provider owner) owner acquired e preConflict w' =
      (.error (e', pre), last))
    (hreported : forall a b : PathLockError, e' ≠ rollbackError a b) :
    Passes config owner [] w last ∧ e' = e ∧ pre = preConflict ∧
      (Blames owner e w' -> Blames owner e last) := by
  rw [giveUp] at hrun
  cases hstep : rollbackAcquisitions (provider owner) owner acquired w' with
  | mk result mid =>
    have houtcome : outcome (rollbackAcquisitions
        (provider owner) owner acquired) w' =
        ((.ok result : Except (PathLockError × Bool) _), mid) := by
      rw [outcome, hstep]
    rw [bind_of_ok houtcome] at hrun
    cases result with
    | error rollback =>
      cases hrun
      exact absurd rfl (hreported e rollback)
    | ok _ =>
      cases hrun
      have hundone := rollback_undoes
        (fun entry hmem => (hholding entry hmem).left) hpasses hstep
      refine ⟨hundone.left, rfl, rfl, ?_⟩
      intro hblames lockPath other kind heq
      rcases hblames lockPath other kind heq with hnone | hrefused
      · apply Or.inl
        rcases hpasses.tokens with ⟨consumed, _, halike⟩
        have hsame : undone acquired (own owner w'.tokens) lockPath =
            own owner w'.tokens lockPath := by
          apply undone_of_notMem
          intro entry hmem hentry
          rw [<- hentry] at hnone
          exact (hholding entry hmem).right hnone
        have hbefore := (halike lockPath).eq_none_iff
        rw [hsame] at hbefore
        exact (hundone.left.own_eq_none_iff lockPath).mpr (hbefore.mp hnone)
      · rcases hrefused with ⟨token, hmem, hexact⟩
        exact .inr ⟨token, hundone.right.mem hmem, hexact⟩

/-- Nothing is acquired at the start. -/
def Progress.start : Progress where
  acquired := []
  resolutions := ∅

theorem start_passes (w : World) :
    Passes config owner Progress.start.acquired w w :=
  Passes.refl w

theorem start_holding (w : World) : Holding owner Progress.start.acquired w := nofun

/-- What the requests come to, and the second checks after them. -/
theorem tryAcquireBatchOnce_cases (config : Config) (owner : Str)
    (requests : List PathLockRequest) (w : World) :
    (exists (e : PathLockError) (acquired : Acquired) (mid : World),
      Passes config owner acquired w mid ∧ Holding owner acquired mid ∧
        Blames owner e mid ∧
        tryAcquireBatchOnce (provider owner) config requests owner w =
          giveUp (provider owner) owner acquired e true mid) ∨
    (exists (e : PathLockError) (acquired : Acquired) (mid : World),
      Passes config owner acquired w mid ∧ Holding owner acquired mid ∧
        tryAcquireBatchOnce (provider owner) config requests owner w =
          giveUp (provider owner) owner acquired e false mid) ∨
    exists (acquired : Acquired) (mid : World),
      Passes config owner acquired w mid ∧ Holding owner acquired mid ∧
        tryAcquireBatchOnce (provider owner) config requests owner w =
          (.ok acquired, mid) := by
  cases hstep : acquireEach (provider owner) config owner requests
      Progress.start w with
  | mk result mid =>
    have houtcome : outcome (acquireEach (provider owner)
        config owner requests Progress.start) w =
        ((.ok result : Except (PathLockError × Bool) _), mid) := by
      rw [outcome, hstep]
    have hrun : tryAcquireBatchOnce (provider owner) config requests
        owner w = _ := bind_of_ok houtcome
    have hstart : Passes config owner Progress.start.acquired w w :=
      start_passes w
    have heach := acquireEach_passes hstart (start_holding w) requests mid
    cases result with
    | error failure =>
      have hfailed := heach.right failure.1 failure.2 hstep
      exact .inl ⟨failure.1, failure.2, mid, hfailed.left,
        hfailed.right.left, hfailed.right.right, hrun⟩
    | ok progress =>
      have hdone := heach.left progress hstep
      cases hverify : verifyEach (provider owner) config owner
          progress.resolutions requests mid with
      | mk verified last =>
        have hquiet : QuietAt config owner (verifyEach
            (provider owner) config owner progress.resolutions
            requests) mid :=
          quietAt_verifyEach progress.resolutions requests mid
        have hlater := hquiet.passes
        rw [hverify] at hlater
        have hto := hdone.left.trans hlater
        rw [append_nil] at hto
        have hholding : Holding owner progress.acquired last := by
          intro entry hmem
          have hentry := hdone.right entry hmem
          refine ⟨hentry.left, fun hnone => hentry.right ?_⟩
          exact (hlater.own_eq_none_iff entry.1).mp hnone
        have hchecked : outcome (verifyEach
            (provider owner) config owner progress.resolutions
            requests) mid =
            ((.ok verified : Except (PathLockError × Bool) _), last) := by
          rw [outcome, hverify]
        have hall := hrun.trans (bind_of_ok hchecked)
        cases verified with
        | error e =>
          exact .inr (Or.inl ⟨e, progress.acquired, last, hto, hholding, hall⟩)
        | ok _ =>
          exact .inr (Or.inr ⟨progress.acquired, last, hto, hholding, hall⟩)

variable {requests : List PathLockRequest}

theorem tryAcquireBatchOnce_error {preConflict : Bool} {w last : World}
    (hrun : tryAcquireBatchOnce (provider owner) config requests owner
      w = (.error (e, preConflict), last))
    (hreported : forall a b : PathLockError, e ≠ rollbackError a b) :
    Passes config owner [] w last ∧
      (preConflict = true -> Blames owner e last) := by
  rcases tryAcquireBatchOnce_cases config owner requests w with
    ⟨e', acquired, mid, hpasses, hholding, hblames, hfail⟩ |
      ⟨e', acquired, mid, hpasses, hholding, hfail⟩ |
      ⟨acquired, mid, hpasses, hholding, hok⟩
  · rw [hfail] at hrun
    rcases giveUp_passes hpasses hholding hrun hreported with
      ⟨hback, rfl, _, hkept⟩
    exact ⟨hback, fun _ => hkept hblames⟩
  · rw [hfail] at hrun
    rcases giveUp_passes hpasses hholding hrun hreported with
      ⟨hback, rfl, hpre, _⟩
    refine ⟨hback, fun htrue => ?_⟩
    rw [hpre] at htrue
    cases htrue
  · rw [hok] at hrun
    cases hrun

theorem tryAcquireBatchOnce_ok {w last : World}
    (hrun : tryAcquireBatchOnce (provider owner) config requests owner
      w = (.ok acquired, last)) :
    Passes config owner acquired w last ∧ Holding owner acquired last := by
  have hfails : forall (acquired' : Acquired) (e : PathLockError)
      (pre : Bool) (mid : World),
      giveUp (provider owner) owner acquired' e pre mid ≠
        (.ok acquired, last) := by
    intro acquired' e pre mid hgive
    rcases exists_of_bind_ok hgive with ⟨result, later, _, hrest⟩
    cases result with
    | error rollback => cases hrest
    | ok _ => cases hrest
  rcases tryAcquireBatchOnce_cases config owner requests w with
    ⟨e, acquired', mid, _, _, _, hfail⟩ | ⟨e, acquired', mid, _, _, hfail⟩ |
      ⟨acquired', mid, hpasses, hholding, hok⟩
  · rw [hfail] at hrun
    exact absurd hrun (hfails acquired' e true mid)
  · rw [hfail] at hrun
    exact absurd hrun (hfails acquired' e false mid)
  · rw [hok] at hrun
    cases hrun
    exact ⟨hpasses, hholding⟩

end Lock
end OpenViking
