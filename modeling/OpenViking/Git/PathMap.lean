import OpenViking.Common.Interleaving
import OpenViking.Git.EditorWrite

/-!
# The editor as a map of paths

A call on the editor means a change of the map of files that the tree stands
for.  The editor makes this change unless the path lies below a directory that
it has loaded and that was removed or overwritten since.
-/

namespace OpenViking
namespace Git

open Paths Interleaving List

abbrev FileMap := Path -> Option BlobId

inductive EditorCall where
  | upsert (path : Path) (oid : BlobId)
  | remove (path : Path)
  | upsertSubtree (path : Path) (sub : Tree)

namespace EditorCall

def path : EditorCall -> Path
  | upsert path _ => path
  | remove path => path
  | upsertSubtree path _ => path

/-- The path has a component, and a spliced tree lists no name twice. -/
def WellFormed : EditorCall -> Prop
  | upsert path _ => path ≠ []
  | remove path => path ≠ []
  | upsertSubtree path sub => path ≠ [] ∧ sub.WellFormed

def run (e : TreeEditor) : EditorCall -> Except GitError TreeEditor
  | upsert path oid => e.upsert path oid
  | remove path => e.remove path
  | upsertSubtree path sub => e.upsertSubtree path sub

def apply (files : FileMap) : EditorCall -> Path -> Option BlobId
  | upsert path oid, q =>
    if q = path then some oid
    else if Below path q ∨ Below q path then none
    else files q
  | remove path, q => if path <+: q then none else files q
  | upsertSubtree path sub, q =>
    if path <+: q then sub.blobAt (q.drop path.length)
    else if Below q path then none
    else files q

/-- No loaded directory on the way to the path has been cut off. -/
def Connected (e : TreeEditor) (path : Path) : Prop :=
  forall d, Below d path -> e.Loaded d -> e.IsDir d

/-- The way to the path is connected, or there is nothing to do below it. -/
def Fits (e : TreeEditor) : EditorCall -> Prop
  | upsert path _ => Connected e path
  | remove _ => True
  | upsertSubtree path sub =>
    Connected e path ∨
      (forall q, sub.blobAt q = none) ∧ forall d, Below d path -> e.blobAt d = none

theorem fits_of_connected {e : TreeEditor} {call : EditorCall}
    (h : Connected e call.path) : call.Fits e := by
  cases call with
  | upsert p oid => exact h
  | remove p => trivial
  | upsertSubtree p sub => exact .inl h

end EditorCall

instance decidableIsDir (e : TreeEditor) (p : Path) : Decidable (e.IsDir p) :=
  match h : e.get? p with
  | some (.tree oid) => isTrue (Or.inr ⟨oid, h⟩)
  | some (.blob oid) =>
    decidable_of_iff (p = []) ⟨Or.inl, fun hdir => hdir.elim id fun ⟨_, hoid⟩ => by
      rw [h] at hoid
      cases hoid⟩
  | none =>
    decidable_of_iff (p = []) ⟨Or.inl, fun hdir => hdir.elim id fun ⟨_, hoid⟩ => by
      rw [h] at hoid
      cases hoid⟩

instance decidableConnected (e : TreeEditor) (p : Path) :
    Decidable (EditorCall.Connected e p) :=
  decidable_of_iff
    (forall d, d ∈ parentDirs p -> (e.entriesAt d).isSome = true -> e.IsDir d)
    ⟨fun h d hd hload => by
      cases d with
      | nil => exact Or.inl rfl
      | cons name rest => exact h _ (mem_parentDirs.mpr ⟨List.cons_ne_nil _ _, hd⟩) hload,
    fun h d hd hload => h d (mem_parentDirs.mp hd).2 hload⟩

namespace TreeEditor

def step (e : TreeEditor) (call : EditorCall) : Option TreeEditor :=
  (call.run e).toOption

/-!
# One call
-/

variable {e : TreeEditor} {p : Path}

theorem blobAt_drop {sub : Tree} {q : Path}
    (h : forall r, e.blobAt (p ++ r) = sub.blobAt r) (hpre : p <+: q) :
    e.blobAt q = sub.blobAt (q.drop p.length) := by
  rcases hpre with ⟨r, rfl⟩
  rw [h, drop_left]

theorem upsert_applies (hvalid : e.Valid)
    (hp : p ≠ []) (oid : BlobId) (hconn : EditorCall.Connected e p) :
    exists e', e.upsert p oid = Except.ok e' ∧ e'.Valid ∧
      forall q, e'.blobAt q = (EditorCall.upsert p oid).apply e.blobAt q := by
  rcases upsert_ok hvalid hp oid hconn with
    ⟨e', hrun, hvalid', hself, hdirs, hbelow, hother, _⟩
  refine ⟨e', hrun, hvalid', ?_⟩
  intro q
  rw [EditorCall.apply]
  by_cases heq : q = p
  · rw [if_pos heq, heq, blobAt_eq_some_iff]
    exact hself
  rw [if_neg heq]
  by_cases hrel : Below p q ∨ Below q p
  · rw [if_pos hrel]
    rcases hrel with hrel | hrel
    · rw [blobAt, hbelow q hrel]
      rfl
    · exact blobAt_of_isDir (hdirs q hrel)
  · rw [if_neg hrel]
    rw [not_or] at hrel
    apply blobAt_eq_of_get?
    apply hother q _ (Or.inl hrel.2)
    intro hpre
    rcases prefix_iff_eq_or_below.mp hpre with h | h
    · exact heq h.symm
    · exact hrel.1 h

theorem remove_applies (hvalid : e.Valid) (hp : p ≠ []) :
    exists e', e.remove p = Except.ok e' ∧ e'.Valid ∧
      forall q, e'.blobAt q = (EditorCall.remove p).apply e.blobAt q := by
  rcases remove_ok hvalid hp with ⟨e', hrun, hvalid', hget, _⟩
  refine ⟨e', hrun, hvalid', ?_⟩
  intro q
  rw [EditorCall.apply, blobAt, hget]
  by_cases hpre : p <+: q
  · rw [if_pos hpre, if_pos hpre]
    rfl
  · rw [if_neg hpre, if_neg hpre]
    rfl

theorem upsertSubtree_applies {sub : Tree} (hvalid : e.Valid)
    (hsub : sub.WellFormed) (hp : p ≠ [])
    (hconn : EditorCall.Connected e p) :
    exists e', e.upsertSubtree p sub = Except.ok e' ∧ e'.Valid ∧
      forall q, e'.blobAt q =
        (EditorCall.upsertSubtree p sub).apply e.blobAt q := by
  rcases upsertSubtree_ok hvalid hsub hp hconn with
    ⟨e', hrun, hvalid', hself, hdirs, hother⟩
  refine ⟨e', hrun, hvalid', ?_⟩
  intro q
  rw [EditorCall.apply]
  by_cases hpre : p <+: q
  · rw [if_pos hpre]
    exact blobAt_drop hself hpre
  · rw [if_neg hpre]
    by_cases hbelow : Below q p
    · rw [if_pos hbelow]
      exact blobAt_of_isDir (hdirs q hbelow)
    · rw [if_neg hbelow]
      exact blobAt_eq_of_get? (hother q hpre hbelow)

theorem exists_cut_of_not_connected (h : ¬ EditorCall.Connected e p) :
    exists d, Below d p ∧ e.Loaded d ∧ ¬ e.IsDir d := by
  unfold EditorCall.Connected at h
  push Not at h
  exact h

theorem blobAt_eq_none_of_cut {d : Path}
    (hbelow : Below d p) (hcut : ¬ e.IsDir d) {q : Path} (hpre : p <+: q) :
    e.blobAt q = none :=
  blobAt_eq_none_of_below hcut (hbelow.trans_isPrefix hpre)

/-- A splice below a cut is lost, which shows unless there is nothing to do. -/
theorem upsertSubtree_cut {e' : TreeEditor} {sub : Tree} {d : Path}
    (hbelow : Below d p) (hcut : ¬ e.IsDir d)
    (hget : forall q, e'.get? q = e.get? q) :
    (forall q, e'.blobAt q = (EditorCall.upsertSubtree p sub).apply e.blobAt q) <->
      (forall q, sub.blobAt q = none) ∧
        forall d, Below d p -> e.blobAt d = none := by
  constructor
  · intro hall
    constructor
    · intro q
      have h := hall (p ++ q)
      rw [EditorCall.apply, if_pos (prefix_append p q), drop_left,
        blobAt_eq_of_get? (hget _),
        blobAt_eq_none_of_cut hbelow hcut (prefix_append p q)] at h
      exact h.symm
    · intro c hc
      have h := hall c
      have hpre : ¬ p <+: c := by
        intro hpre
        exact not_below_self p (below_of_isPrefix_of_below hpre hc)
      rw [EditorCall.apply, if_neg hpre, if_pos hc,
        blobAt_eq_of_get? (hget _)] at h
      exact h
  · rintro ⟨hempty, hfile⟩ q
    rw [EditorCall.apply, blobAt_eq_of_get? (hget q)]
    by_cases hpre : p <+: q
    · rw [if_pos hpre, hempty, blobAt_eq_none_of_cut hbelow hcut hpre]
    · rw [if_neg hpre]
      by_cases hq : Below q p
      · rw [if_pos hq, hfile q hq]
      · rw [if_neg hq]

/-- One call succeeds, and means its change of the map exactly when it fits. -/
theorem call_applies_iff (hvalid : e.Valid) {call : EditorCall}
    (hcall : call.WellFormed) :
    exists e', e.step call = some e' ∧ e'.Valid ∧
      ((forall q, e'.blobAt q = call.apply e.blobAt q) <-> call.Fits e) := by
  cases call with
  | upsert p oid =>
    by_cases hconn : EditorCall.Connected e p
    · rcases upsert_applies hvalid hcall oid hconn with ⟨e', hrun, hvalid', happ⟩
      exact ⟨e', by rw [step, EditorCall.run, hrun]; rfl, hvalid',
        fun _ => hconn, fun _ => happ⟩
    rcases exists_cut_of_not_connected hconn with ⟨d, hbelow, hd, hcut⟩
    rcases upsert_lost hvalid oid hbelow hd hcut with ⟨e', hrun, hvalid', hget⟩
    refine ⟨e', by rw [step, EditorCall.run, hrun]; rfl, hvalid', ?_,
      fun hfits => absurd hfits hconn⟩
    intro hall
    have h := hall p
    rw [EditorCall.apply, if_pos rfl, blobAt_eq_of_get? (hget p),
      blobAt_eq_none_of_cut hbelow hcut prefix_rfl] at h
    cases h
  | remove p =>
    rcases remove_applies hvalid hcall with ⟨e', hrun, hvalid', happ⟩
    exact ⟨e', by rw [step, EditorCall.run, hrun]; rfl, hvalid',
      fun _ => trivial, fun _ => happ⟩
  | upsertSubtree p sub =>
    by_cases hconn : EditorCall.Connected e p
    · rcases upsertSubtree_applies hvalid hcall.2 hcall.1 hconn with
        ⟨e', hrun, hvalid', happ⟩
      exact ⟨e', by rw [step, EditorCall.run, hrun]; rfl, hvalid',
        fun _ => .inl hconn, fun _ => happ⟩
    rcases exists_cut_of_not_connected hconn with ⟨d, hbelow, hd, hcut⟩
    rcases upsertSubtree_lost hvalid hcall.2 hbelow hd hcut with
      ⟨e', hrun, hvalid', hget⟩
    refine ⟨e', by rw [step, EditorCall.run, hrun]; rfl, hvalid', ?_⟩
    rw [upsertSubtree_cut hbelow hcut hget]
    constructor
    · exact .inr
    · rintro (hfits | hfits)
      · exact absurd hfits hconn
      · exact hfits

/-!
# Sequences of calls
-/

def Writes (e : TreeEditor) (files : FileMap) : Prop :=
  forall p oid, (p, oid) ∈ e.write.flatten <-> files p = some oid

theorem writes_iff (hvalid : e.Valid) (files : FileMap) :
    e.Writes files <-> forall p, e.blobAt p = files p := by
  unfold Writes
  constructor
  · intro h p
    apply Option.ext
    intro oid
    rw [← h p oid, Tree.mem_flatten (write_wellFormed hvalid), blobAt_write hvalid]
  · intro h p oid
    rw [Tree.mem_flatten (write_wellFormed hvalid), blobAt_write hvalid, h p]

/-- After every first part of the calls, the editor writes the map of files to which
the calls have been applied in order, exactly when every call fits. -/
theorem calls_apply_iff (hvalid : e.Valid) {calls : List EditorCall}
    (hcalls : forall call, call ∈ calls -> call.WellFormed) :
    (forall done, done <+: calls ->
      exists e', run step e done = some e' ∧
        e'.Writes (done.foldl EditorCall.apply e.blobAt)) <->
      Interleaving.Meets step (fun e call => call.Fits e) e calls := by
  induction calls generalizing e with
  | nil =>
    constructor
    · intro _
      trivial
    · intro _ done hdone
      rw [prefix_nil.mp hdone]
      exact ⟨e, rfl, (writes_iff hvalid _).mpr fun _ => rfl⟩
  | cons call rest ih =>
    rcases call_applies_iff hvalid (hcalls call mem_cons_self) with
      ⟨e₁, hstep, hvalid₁, hiff⟩
    have hrest := ih hvalid₁ fun c hc => hcalls c (mem_cons_of_mem _ hc)
    have hrun : forall done, run step e (call :: done) =
        run step e₁ done := by
      intro done
      rw [run, hstep]
    constructor
    · intro h
      have hfits : call.Fits e := by
        rcases h [call] ⟨rest, rfl⟩ with ⟨e', hrun', hwrites⟩
        rw [hrun] at hrun'
        cases hrun'
        exact hiff.mp ((writes_iff hvalid₁ _).mp hwrites)
      have hmap : call.apply e.blobAt = e₁.blobAt :=
        funext fun q => (hiff.mpr hfits q).symm
      apply meets_cons step hfits hstep
      apply hrest.mp
      intro done hdone
      rcases h (call :: done) (cons_prefix_cons.mpr ⟨rfl, hdone⟩) with
        ⟨e', hrun', hwrites⟩
      rw [hrun] at hrun'
      rw [foldl_cons, hmap] at hwrites
      exact ⟨e', hrun', hwrites⟩
    · intro hmeets done hdone
      have hmap : call.apply e.blobAt = e₁.blobAt :=
        funext fun q => (hiff.mpr hmeets.1 q).symm
      cases done with
      | nil => exact ⟨e, rfl, (writes_iff hvalid _).mpr fun _ => rfl⟩
      | cons c done =>
        rcases cons_prefix_cons.mp hdone with ⟨rfl, htail⟩
        rw [hrun, foldl_cons, hmap]
        exact hrest.mpr (hmeets.2 e₁ hstep) done htail

/-- The editor over a base tree is a path map while every call fits. -/
theorem editor_path_map {t : Tree} (hwf : t.WellFormed) {calls : List EditorCall}
    (hcalls : forall call, call ∈ calls -> call.WellFormed) :
    (forall done, done <+: calls ->
      exists e, run step (fromTree t) done = some e ∧
        e.Writes (done.foldl EditorCall.apply t.blobAt)) <->
      Interleaving.Meets step (fun e call => call.Fits e) (fromTree t) calls := by
  have h := calls_apply_iff (fromTree_valid hwf) hcalls
  have hbase : (fromTree t).blobAt = t.blobAt := funext (blobAt_fromTree t)
  rw [hbase] at h
  exact h

namespace Sample

def dir : Name := Name.ofString "dir"

def left : Name := Name.ofString "left"

def right : Name := Name.ofString "right"

def oid : BlobId := ⟨[1]⟩

/-- A file is written next to another one. -/
def beside : List EditorCall :=
  [.upsert [dir, left] oid, .upsert [dir, right] oid, .remove [dir, left]]

/-- A file is written below a directory that was removed. -/
def afterRemove : List EditorCall :=
  [.upsert [dir, left] oid, .remove [dir], .upsert [dir, right] oid]

end Sample

open Sample

theorem editor_path_map_beside :
    exists e, run step (fromTree .nil) beside = some e ∧
      e.Writes (beside.foldl EditorCall.apply (Tree.blobAt .nil)) := by
  have hwf : Tree.nil.WellFormed := trivial
  have hcalls : forall call, call ∈ beside -> call.WellFormed := by
    intro call hcall
    simp only [beside, List.mem_cons, List.not_mem_nil, or_false] at hcall
    rcases hcall with rfl | rfl | rfl
    · exact List.cons_ne_nil _ _
    · exact List.cons_ne_nil _ _
    · exact List.cons_ne_nil _ _
  have hconnected : Interleaving.Meets step
      (fun e call => EditorCall.Connected e call.path) (fromTree .nil) beside := by
    decide +kernel
  have hmeets : Interleaving.Meets step (fun e call => call.Fits e)
      (fromTree .nil) beside :=
    meets_of_inv step (fun _ _ _ => trivial)
      (fun _ h => EditorCall.fits_of_connected h) trivial hconnected
  exact (editor_path_map hwf hcalls).mpr hmeets beside List.prefix_rfl

theorem write_after_remove_lost :
    (run step empty afterRemove).map
        (fun e => e.write.blobAt [dir, right]) = some none ∧
      afterRemove.foldl EditorCall.apply (Tree.blobAt .nil) [dir, right] =
        some oid := by
  decide +kernel

end TreeEditor
end Git
end OpenViking
