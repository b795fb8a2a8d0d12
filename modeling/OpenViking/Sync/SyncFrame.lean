import OpenViking.Sync.SyncTree
import OpenViking.Common.Folds

/-!
# What a step of the synchronisation leaves alone

Every step works at one path.  The paths that are not at or below it keep
their entries on both sides, and their places in the diff.
-/

namespace OpenViking
namespace TreeSync

open Paths FileTree

/-- Two states agree on a path. -/
def SameAt (q : Path) (st st' : State) : Prop :=
  st'.source.find q = st.source.find q ∧
    st'.target.find q = st.target.find q ∧
    forall c, q ∈ st'.diff.list c <-> q ∈ st.diff.list c

namespace SameAt

theorem refl (q : Path) (st : State) : SameAt q st st :=
  ⟨rfl, rfl, fun _ => Iff.rfl⟩

theorem symm {q : Path} {st st' : State} (h : SameAt q st st') :
    SameAt q st' st :=
  ⟨h.1.symm, h.2.1.symm, fun c => (h.2.2 c).symm⟩

variable {st st' st'' : State}

theorem trans {q : Path} (h : SameAt q st st')
    (h' : SameAt q st' st'') : SameAt q st st'' :=
  ⟨h'.1.trans h.1, h'.2.1.trans h.2.1, fun c => (h'.2.2 c).trans (h.2.2 c)⟩

end SameAt

/-- Two states agree at and below a path. -/
def SameUnder (p : Path) (st st' : State) : Prop :=
  forall q, p <+: q -> SameAt q st st'

namespace SameUnder

theorem refl (p : Path) (st : State) : SameUnder p st st :=
  fun q _ => SameAt.refl q st

theorem trans {p : Path} (h : SameUnder p st st')
    (h' : SameUnder p st' st'') : SameUnder p st st'' :=
  fun q hq => (h q hq).trans (h' q hq)

theorem narrow {p r : Path} {st st' : State} (h : SameUnder p st st')
    (hr : p <+: r) : SameUnder r st st' :=
  fun q hq => h q (hr.trans hq)

end SameUnder

/-- Only what is at or below a path has changed. -/
def Touches (p : Path) (st st' : State) : Prop :=
  forall q, ¬ p <+: q -> SameAt q st st'

namespace Touches

theorem refl (p : Path) (st : State) : Touches p st st :=
  fun q _ => SameAt.refl q st

theorem trans {p : Path} (h : Touches p st st')
    (h' : Touches p st' st'') : Touches p st st'' :=
  fun q hq => (h q hq).trans (h' q hq)

variable {d : Path}

theorem sibling {a b : Name} {st st' : State}
    (h : Touches (d ++ [a]) st st') (hne : b ≠ a) :
    SameUnder (d ++ [b]) st st' := by
  intro q hq
  apply h q
  intro ha
  have hlen : (d ++ [a]).length = (d ++ [b]).length := by simp
  rcases List.prefix_or_prefix_of_prefix ha hq with hpre | hpre
  · have heq := hpre.eq_of_length hlen
    simp at heq
    exact hne heq.symm
  · have heq := hpre.eq_of_length hlen.symm
    simp at heq
    exact hne heq

end Touches

/-!
# The primitives
-/

theorem record_touches (st : State) (c : Change) (p : Path) :
    Touches p st (st.record c p) := by
  intro q hq
  refine ⟨rfl, rfl, ?_⟩
  intro c'
  show q ∈ (st.diff.record c p).list c' <-> _
  rw [SyncDiff.mem_list_record]
  constructor
  · intro h
    rcases h with h | ⟨_, rfl⟩
    · exact h
    · exact absurd List.prefix_rfl hq
  · exact .inl

@[simp] theorem record_source (st : State) (c : Change) (p : Path) :
    (st.record c p).source = st.source := rfl

@[simp] theorem record_target (st : State) (c : Change) (p : Path) :
    (st.record c p).target = st.target := rfl

theorem mem_record {st : State} {c c' : Change} {p q : Path} :
    q ∈ (st.record c p).diff.list c' <->
      q ∈ st.diff.list c' ∨ (c' = c ∧ q = p) :=
  SyncDiff.mem_list_record

@[simp] theorem rm_source (call : Call) (site : RmCall) (p : Path)
    (st : State) : (rm call site p st).2.source = st.source := by
  unfold rm
  cases call.storage.rm site p <;> rfl

@[simp] theorem rm_diff (call : Call) (site : RmCall) (p : Path)
    (st : State) : (rm call site p st).2.diff = st.diff := by
  unfold rm
  cases call.storage.rm site p <;> rfl

theorem rm_touches (call : Call) (site : RmCall) (p : Path) (st : State) :
    Touches p st (rm call site p st).2 := by
  intro q hq
  refine ⟨by rw [rm_source], ?_, fun c => by rw [rm_diff]⟩
  unfold rm
  cases call.storage.rm site p with
  | done =>
    show (st.target.removeBelow p _).find q = _
    rw [find_removeBelow, if_neg (fun h => hq h.1)]
  | failed part =>
    show (st.target.removeBelow p _).find q = _
    rw [find_removeBelow, if_neg (fun h => hq h.1)]

variable {call : Call}

theorem rm_done {site : RmCall} {p : Path} (st : State)
    (h : call.storage.rm site p = .done) :
    (rm call site p st).1 = true ∧
      forall q, p <+: q -> (rm call site p st).2.target.find q = none := by
  unfold rm
  rw [h]
  refine ⟨rfl, ?_⟩
  intro q hq
  show (st.target.removeBelow p _).find q = none
  rw [find_removeBelow, if_pos ⟨hq, rfl⟩]

theorem rm_failed {site : RmCall} {p : Path} (st : State)
    (h : call.storage.rm site p ≠ .done) :
    (rm call site p st).1 = false ∧
      (rm call site p st).2.target.find p = st.target.find p ∧
      forall q, st.target.find q = none ->
        (rm call site p st).2.target.find q = none := by
  unfold rm
  cases hout : call.storage.rm site p with
  | done => exact absurd hout h
  | failed part =>
    refine ⟨rfl, ?_, ?_⟩
    · show (st.target.removeBelow p _).find p = _
      rw [find_removeBelow, if_neg (by simp)]
    · intro q hq
      show (st.target.removeBelow p _).find q = none
      rw [find_removeBelow, hq]
      split <;> rfl

@[simp] theorem mv_diff (call : Call) (p : Path) (st : State) :
    (mv call p st).2.diff = st.diff := by
  unfold mv
  split
  · rfl
  · rfl
  · rfl
  · cases call.storage.mv p <;> rfl

theorem mv_touches (call : Call) (p : Path) (st : State) :
    Touches p st (mv call p st).2 := by
  intro q hq
  unfold mv
  split
  · exact SameAt.refl q st
  · exact SameAt.refl q st
  · exact SameAt.refl q st
  · cases call.storage.mv p with
    | done =>
      refine ⟨?_, ?_, fun c => Iff.rfl⟩
      · show (st.source.removeBelow p _).find q = _
        rw [find_removeBelow, if_neg (fun h => hq h.1)]
      · show (st.target.copyBelow st.source p _).find q = _
        rw [find_copyBelow, if_neg (fun h => hq h.1)]
    | failed part =>
      refine ⟨rfl, ?_, fun c => Iff.rfl⟩
      show (st.target.copyBelow st.source p _).find q = _
      rw [find_copyBelow, if_neg (fun h => hq h.1)]
    | cleaned left =>
      refine ⟨rfl, ?_, fun c => Iff.rfl⟩
      show ((st.target.copyBelow st.source p _).removeBelow p _).find q = _
      rw [find_removeBelow, if_neg (fun h => hq h.1), find_copyBelow,
        if_neg (fun h => hq h.1)]
    | unremoved left =>
      refine ⟨?_, ?_, fun c => Iff.rfl⟩
      · show (st.source.removeBelow p _).find q = _
        rw [find_removeBelow, if_neg (fun h => hq h.1)]
      · show (st.target.copyBelow st.source p _).find q = _
        rw [find_copyBelow, if_neg (fun h => hq h.1)]

theorem copyBelow_find (t source : Tree) (p : Path) (carried : Path -> Bool)
    (q : Path) :
    (t.copyBelow source p carried).find q = t.find q ∨
      (t.copyBelow source p carried).find q = source.find q := by
  rw [find_copyBelow]
  split
  · cases source.find q with
    | none => exact .inl rfl
    | some e => exact .inr rfl
  · exact .inl rfl

theorem mv_target (call : Call) (p : Path) (st : State) (q : Path) :
    (mv call p st).2.target.find q = st.target.find q ∨
      (mv call p st).2.target.find q = st.source.find q ∨
        (mv call p st).2.target.find q = none := by
  have hcopy : forall carried,
      (st.target.copyBelow st.source p carried).find q = st.target.find q ∨
        (st.target.copyBelow st.source p carried).find q = st.source.find q ∨
          (st.target.copyBelow st.source p carried).find q = none :=
    fun carried => (copyBelow_find _ _ _ carried q).imp_right .inl
  unfold mv
  split
  · exact .inl rfl
  · exact .inl rfl
  · exact .inl rfl
  · cases call.storage.mv p with
    | done => exact hcopy _
    | failed part => exact hcopy _
    | unremoved left => exact hcopy _
    | cleaned left =>
      show ((st.target.copyBelow st.source p _).removeBelow p left).find q = _ ∨
        ((st.target.copyBelow st.source p _).removeBelow p left).find q = _ ∨
          ((st.target.copyBelow st.source p _).removeBelow p left).find q = none
      rw [find_removeBelow]
      split
      · exact .inr (.inr rfl)
      · exact hcopy _

/-!
# The steps of the passes
-/

theorem clearForFile_touches (call : Call) (p : Path) (name : Name)
    (lv : Level) : Touches p lv.st (clearForFile call p name lv).st := by
  have hrm := rm_touches call .dirForFile p lv.st
  unfold clearForFile
  split
  next st heq =>
    rw [heq] at hrm
    exact hrm.trans (record_touches st .deletedDir p)
  next st heq =>
    rw [heq] at hrm
    exact hrm

theorem dropFile_touches (call : Call) (site : RmCall) (p : Path)
    (st : State) : Touches p st (dropFile call site p st).2 := by
  have hrm := rm_touches call site p st
  unfold dropFile
  split
  next st' heq =>
    rw [heq] at hrm
    exact hrm.trans (record_touches st' .deletedFile p)
  next st' heq =>
    rw [heq] at hrm
    exact hrm

theorem dropDir_touches (call : Call) (p : Path) (st : State) :
    Touches p st (dropDir call p st) := by
  have hrm := rm_touches call .leftoverDir p st
  unfold dropDir
  split
  next st' heq =>
    rw [heq] at hrm
    exact hrm.trans (record_touches st' .deletedDir p)
  next st' heq =>
    rw [heq] at hrm
    exact hrm

theorem updateFile_touches (call : Call) (p : Path) (st : State) :
    Touches p st (updateFile call p st) :=
  ((record_touches st .updatedFile p).trans
    (rm_touches call .oldFile p _)).trans (mv_touches call p _)

theorem addEntry_touches (call : Call) (c : Change) (p : Path) (st : State) :
    Touches p st (addEntry call c p st) :=
  (record_touches st c p).trans (mv_touches call p _)

/-- What a level knows of the other names stays. -/
def SameNames (name : Name) (lv lv' : Level) : Prop :=
  forall n, n ≠ name ->
    (n ∈ lv'.targetFiles <-> n ∈ lv.targetFiles) ∧
      (n ∈ lv'.targetDirs <-> n ∈ lv.targetDirs)

variable {lv' : Level} {name : Name}

theorem sameNames_of_eq {lv : Level} (hf : lv'.targetFiles = lv.targetFiles)
    (hd : lv'.targetDirs = lv.targetDirs) : SameNames name lv lv' := by
  intro n _
  rw [hf, hd]
  exact ⟨Iff.rfl, Iff.rfl⟩

theorem mem_filter_ne {ns : List Name} {n : Name} :
    n ∈ ns.filter (fun m => !decide (m = name)) <-> n ∈ ns ∧ n ≠ name := by
  rw [List.mem_filter]
  simp

theorem clearForFile_sameNames (call : Call) (p : Path) (name : Name)
    (lv : Level) : SameNames name lv (clearForFile call p name lv) := by
  unfold clearForFile
  split
  · intro n hn
    refine ⟨Iff.rfl, ?_⟩
    rw [mem_filter_ne]
    exact and_iff_left hn
  · exact sameNames_of_eq rfl rfl

theorem fileStep_sameNames (call : Call) (d : Path)
    (rootFiles rootDirs : List Name) (lv : Level) (name : Name) :
    SameNames name lv (fileStep call d rootFiles rootDirs lv name) := by
  unfold fileStep
  dsimp only
  split
  · split
    · exact clearForFile_sameNames call _ name lv
    · split
      · split
        · exact sameNames_of_eq rfl rfl
        · exact sameNames_of_eq rfl rfl
      · exact sameNames_of_eq rfl rfl
  · split
    · split
      · split
        · intro n hn
          refine ⟨?_, Iff.rfl⟩
          rw [mem_filter_ne]
          exact and_iff_left hn
        · exact sameNames_of_eq rfl rfl
      · exact sameNames_of_eq rfl rfl
    · exact sameNames_of_eq rfl rfl

theorem fileStep_touches (call : Call) (d : Path)
    (rootFiles rootDirs : List Name) (lv : Level) (name : Name) :
    Touches (d ++ [name]) lv.st
      (fileStep call d rootFiles rootDirs lv name).st := by
  unfold fileStep
  dsimp only
  split
  · split
    · exact (clearForFile_touches call _ name lv).trans
        (addEntry_touches call .addedFile _ _)
    · split
      · split
        · exact updateFile_touches call _ _
        · exact Touches.refl _ _
      · exact addEntry_touches call .addedFile _ _
  · split
    · have hdrop := dropFile_touches call .fileForDir (d ++ [name]) lv.st
      split
      · split
        next st heq =>
          rw [heq] at hdrop
          exact hdrop
        next st heq =>
          rw [heq] at hdrop
          exact hdrop
      · exact dropFile_touches call .leftoverFile _ _
    · exact Touches.refl _ _

variable {sync : Path -> State -> Except State State}

/-- What a directory step does, whether the recursion ends or not. -/
theorem dirStep_local {rootDirs : List Name}
    (hsync : forall p st st', sync p st = .ok st' ∨ sync p st = .error st' ->
      Touches p st st')
    {lv : Level}
    (h : dirStep call d rootDirs sync lv name = .ok lv' ∨
      dirStep call d rootDirs sync lv name = .error lv') :
    Touches (d ++ [name]) lv.st lv'.st ∧ SameNames name lv lv' := by
  unfold dirStep at h
  dsimp only at h
  split at h
  · split at h
    · have hdrop := dropFile_touches call .fileForDirAgain (d ++ [name]) lv.st
      split at h
      next st heq =>
        rw [heq] at hdrop
        rcases h with h | h
        · cases h
          refine ⟨hdrop.trans (addEntry_touches call .addedDir _ st), ?_⟩
          intro n hn
          refine ⟨?_, Iff.rfl⟩
          rw [mem_filter_ne]
          exact and_iff_left hn
        · cases h
      next st heq =>
        rw [heq] at hdrop
        rcases h with h | h
        · cases h
          exact ⟨hdrop.trans (addEntry_touches call .addedDir _ st),
            sameNames_of_eq rfl rfl⟩
        · cases h
    · split at h
      · split at h
        next st heq =>
          rcases h with h | h
          · cases h
            exact ⟨hsync _ _ _ (.inl heq), sameNames_of_eq rfl rfl⟩
          · cases h
        next st heq =>
          rcases h with h | h
          · cases h
          · cases h
            exact ⟨hsync _ _ _ (.inr heq), sameNames_of_eq rfl rfl⟩
      · rcases h with h | h
        · cases h
          exact ⟨addEntry_touches call .addedDir _ _, sameNames_of_eq rfl rfl⟩
        · cases h
  · split at h
    · rcases h with h | h
      · cases h
        exact ⟨dropDir_touches call _ _, sameNames_of_eq rfl rfl⟩
      · cases h
    · rcases h with h | h
      · cases h
        exact ⟨Touches.refl _ _, sameNames_of_eq rfl rfl⟩
      · cases h

def TouchesBelow (d : Path) (st st' : State) : Prop :=
  forall q, ¬ Below d q -> SameAt q st st'

namespace TouchesBelow

theorem refl (d : Path) (st : State) : TouchesBelow d st st :=
  fun q _ => SameAt.refl q st

theorem trans (h : TouchesBelow d st st')
    (h' : TouchesBelow d st' st'') : TouchesBelow d st st'' :=
  fun q hq => (h q hq).trans (h' q hq)

theorem touches {st st' : State} (h : TouchesBelow d st st') :
    Touches d st st' :=
  fun q hq => h q fun hbelow => hq hbelow.isPrefix

end TouchesBelow

theorem Touches.below {n : Name} {st st' : State}
    (h : Touches (d ++ [n]) st st') : TouchesBelow d st st' :=
  fun q hq => h q fun hpre =>
    hq ((below_append_singleton d n).trans_isPrefix hpre)

theorem foldl_fileStep_touches (call : Call) (d : Path)
    (rootFiles rootDirs names : List Name) (lv : Level) :
    TouchesBelow d lv.st
      (names.foldl (fileStep call d rootFiles rootDirs) lv).st := by
  induction names generalizing lv with
  | nil => exact TouchesBelow.refl d lv.st
  | cons name rest ih =>
    rw [List.foldl_cons]
    exact (fileStep_touches call d rootFiles rootDirs lv name).below.trans (ih _)

/-- Synchronising a directory that is below leaves the rest alone. -/
def SyncLocal (sync : Path -> State -> Except State State) : Prop :=
  forall p st st', sync p st = .ok st' ∨ sync p st = .error st' ->
    TouchesBelow p st st'

theorem foldlM_dirStep_touches {rootDirs : List Name}
    (hsync : SyncLocal sync) {names : List Name} {lv : Level}
    (h : names.foldlM (dirStep call d rootDirs sync) lv = .ok lv' ∨
      names.foldlM (dirStep call d rootDirs sync) lv = .error lv') :
    TouchesBelow d lv.st lv'.st := by
  induction names generalizing lv with
  | nil =>
    rcases h with h | h
    · cases h
      exact TouchesBelow.refl d _
    · cases h
  | cons name rest ih =>
    have hstep : forall t, dirStep call d rootDirs sync lv name = .ok t ∨
          dirStep call d rootDirs sync lv name = .error t ->
        TouchesBelow d lv.st t.st :=
      fun t ht => (dirStep_local
        (fun p st st' hp => (hsync p st st' hp).touches) ht).1.below
    rcases h with h | h
    · rcases Folds.foldlM_ok_cons h with ⟨t, ht, hfold⟩
      exact (hstep t (.inl ht)).trans (ih (.inl hfold))
    · rcases Folds.foldlM_error_cons h with ht | ⟨t, ht, hfold⟩
      · exact hstep lv' (.inr ht)
      · exact (hstep t (.inl ht)).trans (ih (.inr hfold))

/-- Synchronising a directory changes only what is below it. -/
theorem syncDir_touches (call : Call) (fuel : Nat) :
    SyncLocal (syncDir call fuel) := by
  induction fuel with
  | zero =>
    intro d st st' h
    rcases h with h | h
    · cases h
    · cases h
      exact TouchesBelow.refl d st
  | succ fuel ih =>
    intro d st st' h
    rw [syncDir] at h
    split at h
    next rootFiles rootDirs targetFiles targetDirs _ _ =>
      have hfiles := foldl_fileStep_touches call d rootFiles rootDirs
        (sortedNames (rootFiles ++ targetFiles))
        ⟨st, targetFiles, targetDirs⟩
      dsimp only at h hfiles
      split at h
      next lv heq =>
        rcases h with h | h
        · cases h
          exact hfiles.trans (foldlM_dirStep_touches ih (.inl heq))
        · cases h
      next lv heq =>
        rcases h with h | h
        · cases h
        · cases h
          exact hfiles.trans (foldlM_dirStep_touches ih (.inr heq))
    · rcases h with h | h
      · cases h
      · cases h
        exact TouchesBelow.refl d st

end TreeSync
end OpenViking
